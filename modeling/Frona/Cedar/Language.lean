import Mathlib.Data.List.Basic

set_option autoImplicit false

namespace Cedar

structure EntityUid where
  type : String
  id : String
  deriving DecidableEq

inductive Effect where
  | permit
  | forbid
  deriving DecidableEq

def Effect.flip : Effect → Effect
  | .permit => .forbid
  | .forbid => .permit

inductive Var where
  | principal
  | action
  | resource
  deriving DecidableEq

structure Request where
  principal : EntityUid
  action : EntityUid
  resource : EntityUid

def Request.get (req : Request) : Var → EntityUid
  | .principal => req.principal
  | .action => req.action
  | .resource => req.resource

inductive Value where
  | bool (b : Bool)
  | entity (uid : EntityUid)
  deriving DecidableEq

/-- Policy expressions. An `atom` is any sub-expression outside this core (attribute access,
sets, context); its meaning comes from the environment. -/
inductive Expr (A : Type) where
  | value (v : Value)
  | var (v : Var)
  | unknown (v : Var) (type : String)
  | eq (left right : Expr A)
  | isIn (left right : Expr A)
  | is (arg : Expr A) (type : String)
  | not (arg : Expr A)
  | and (left right : Expr A)
  | or (left right : Expr A)
  | atom (a : A)
  deriving DecidableEq

/-- The entities and context of a request: the declared ancestors, and the value of each atom
(`none` when its evaluation errs). -/
structure Env (A : Type) where
  ancestor : EntityUid → EntityUid → Bool
  atom : A → Request → Option Bool
  mentionsResource : A → Bool
  atom_closed : ∀ a req resource, mentionsResource a = false →
    atom a { req with resource := resource } = atom a req

def Env.ofAncestors (ancestor : EntityUid → EntityUid → Bool) : Env Empty where
  ancestor := ancestor
  atom a := a.elim
  mentionsResource a := a.elim
  atom_closed a := a.elim

abbrev Result := Option Value

namespace Result

def eq : Result → Result → Result
  | some v, some w => some (.bool (decide (v = w)))
  | _, _ => none

def isIn {A : Type} (env : Env A) : Result → Result → Result
  | some (.entity u), some (.entity w) => some (.bool (decide (u = w) || env.ancestor u w))
  | _, _ => none

def is (type : String) : Result → Result
  | some (.entity u) => some (.bool (decide (u.type = type)))
  | _ => none

def not : Result → Result
  | some (.bool b) => some (.bool !b)
  | _ => none

def bool : Result → Result
  | some (.bool b) => some (.bool b)
  | _ => none

-- The right operand is only reached, and only has to be a boolean, when the left one is not
-- already decisive.
def and : Result → Result → Result
  | some (.bool true), r => bool r
  | some (.bool false), _ => some (.bool false)
  | _, _ => none

def or : Result → Result → Result
  | some (.bool false), r => bool r
  | some (.bool true), _ => some (.bool true)
  | _, _ => none

@[simp] theorem bool_eq_true (r : Result) :
    bool r = some (.bool true) ↔ r = some (.bool true) := by
  rcases r with _ | (b | u) <;> simp [bool]

@[simp] theorem bool_bool (r : Result) : bool (bool r) = bool r := by
  rcases r with _ | (b | u) <;> rfl

@[simp] theorem and_eq_true (l r : Result) :
    and l r = some (.bool true) ↔ l = some (.bool true) ∧ r = some (.bool true) := by
  rcases l with _ | ((_ | _) | u) <;> simp [and]

@[simp] theorem not_eq_true (r : Result) :
    not r = some (.bool true) ↔ r = some (.bool false) := by
  rcases r with _ | ((_ | _) | u) <;> simp [not]

@[simp] theorem and_true (r : Result) : and (some (.bool true)) r = bool r := rfl

@[simp] theorem and_false (r : Result) : and (some (.bool false)) r = some (.bool false) := rfl

@[simp] theorem or_true (r : Result) : or (some (.bool true)) r = some (.bool true) := rfl

@[simp] theorem or_false (r : Result) : or (some (.bool false)) r = bool r := rfl

@[simp] theorem and_bool_right (l r : Result) : and l (bool r) = and l r := by
  rcases l with _ | ((_ | _) | u) <;> simp [and]

@[simp] theorem or_bool_right (l r : Result) : or l (bool r) = or l r := by
  rcases l with _ | ((_ | _) | u) <;> simp [or]

end Result

section Semantics

variable {A : Type}

def eval (env : Env A) (req : Request) : Expr A → Result
  | .value v => some v
  | .var v => some (.entity (req.get v))
  | .unknown v _ => some (.entity (req.get v))
  | .eq l r => Result.eq (eval env req l) (eval env req r)
  | .isIn l r => Result.isIn env (eval env req l) (eval env req r)
  | .is e type => Result.is type (eval env req e)
  | .not e => Result.not (eval env req e)
  | .and l r => Result.and (eval env req l) (eval env req r)
  | .or l r => Result.or (eval env req l) (eval env req r)
  | .atom a => (env.atom a req).map .bool

def Expr.true : Expr A := .value (.bool Bool.true)

def Expr.uid (uid : EntityUid) : Expr A := .value (.entity uid)

inductive ScopeConstraint where
  | any
  | eq (uid : EntityUid)
  | isIn (uid : EntityUid)
  | is (type : String)
  | isInType (type : String) (uid : EntityUid)
  deriving DecidableEq

def ScopeConstraint.toExpr (v : Var) : ScopeConstraint → Expr A
  | .any => Expr.true
  | .eq uid => .eq (.var v) (Expr.uid uid)
  | .isIn uid => .isIn (.var v) (Expr.uid uid)
  | .is type => .is (.var v) type
  | .isInType type uid => .and (.is (.var v) type) (.isIn (.var v) (Expr.uid uid))

def ScopeConstraint.holds (env : Env A) (uid : EntityUid) : ScopeConstraint → Bool
  | .any => true
  | .eq w => decide (uid = w)
  | .isIn w => decide (uid = w) || env.ancestor uid w
  | .is type => decide (uid.type = type)
  | .isInType type w => decide (uid.type = type) && (decide (uid = w) || env.ancestor uid w)

inductive ActionConstraint where
  | any
  | isIn (uids : List EntityUid)
  | eq (uid : EntityUid)
  deriving DecidableEq

def ActionConstraint.toExpr : ActionConstraint → Expr A
  | .any => Expr.true
  | .isIn uids => uids.foldr (fun uid rest => .or (.isIn (.var .action) (Expr.uid uid)) rest)
      (.value (.bool false))
  | .eq uid => .eq (.var .action) (Expr.uid uid)

def ActionConstraint.holds (env : Env A) (uid : EntityUid) : ActionConstraint → Bool
  | .any => true
  | .isIn uids => uids.any fun w => decide (uid = w) || env.ancestor uid w
  | .eq w => decide (uid = w)

inductive ConditionKind where
  | when
  | unless
  deriving DecidableEq

structure Condition (A : Type) where
  kind : ConditionKind
  body : Expr A
  deriving DecidableEq

def Condition.toExpr (c : Condition A) : Expr A :=
  match c.kind with
  | .when => c.body
  | .unless => .not c.body

structure Policy (A : Type) where
  effect : Effect
  principal : ScopeConstraint
  action : ActionConstraint
  resource : ScopeConstraint
  conditions : List (Condition A)
  annotations : List (String × String) := []
  deriving DecidableEq

/-- The conjunction of the conditions; a policy without any has the body `true`. -/
def Policy.body (p : Policy A) : Expr A :=
  go p.conditions
where
  go : List (Condition A) → Expr A
    | [] => Expr.true
    | [c] => c.toExpr
    | c :: rest => .and c.toExpr (go rest)

def Policy.toExpr (p : Policy A) : Expr A :=
  .and (p.principal.toExpr .principal)
    (.and p.action.toExpr (.and (p.resource.toExpr .resource) p.body))

-- A policy whose evaluation errs is skipped, whatever its effect.
def satisfied (env : Env A) (req : Request) (p : Policy A) : Bool :=
  decide (eval env req p.toExpr = some (.bool true))

theorem ScopeConstraint.eval_toExpr (env : Env A) (req : Request) (v : Var)
    (c : ScopeConstraint) :
    eval env req (c.toExpr v) = some (.bool (c.holds env (req.get v))) := by
  cases c with
  | any => rfl
  | eq uid => simp [toExpr, holds, eval, Expr.uid, Result.eq]
  | isIn uid => simp [toExpr, holds, eval, Expr.uid, Result.isIn]
  | is type => simp [toExpr, holds, eval, Result.is]
  | isInType type uid =>
      simp only [toExpr, holds, eval, Expr.uid, Result.is, Result.isIn]
      by_cases same : (req.get v).type = type <;> simp [same, Result.bool]

theorem ActionConstraint.eval_toExpr (env : Env A) (req : Request) (c : ActionConstraint) :
    eval env req c.toExpr = some (.bool (c.holds env req.action)) := by
  cases c with
  | any => rfl
  | eq uid => simp [toExpr, holds, eval, Expr.uid, Result.eq, Request.get]
  | isIn uids =>
      induction uids with
      | nil => rfl
      | cons uid rest ih =>
          simp only [toExpr, holds, List.foldr_cons, List.any_cons] at ih ⊢
          simp only [eval, Expr.uid, Result.isIn, Request.get] at ih ⊢
          rw [ih]
          cases decide (req.action = uid) || env.ancestor req.action uid <;> rfl

theorem satisfied_iff (env : Env A) (req : Request) (p : Policy A) :
    satisfied env req p = true ↔
      p.principal.holds env req.principal = true ∧ p.action.holds env req.action = true ∧
        p.resource.holds env req.resource = true ∧
        eval env req p.body = some (.bool true) := by
  simp [satisfied, Policy.toExpr, eval, ScopeConstraint.eval_toExpr,
    ActionConstraint.eval_toExpr, Request.get]

theorem satisfied_of_no_conditions (env : Env A) (req : Request) (p : Policy A)
    (none : p.conditions = []) :
    satisfied env req p = (p.principal.holds env req.principal &&
      p.action.holds env req.action && p.resource.holds env req.resource) := by
  rw [Bool.eq_iff_iff, satisfied_iff]
  simp [Policy.body, Policy.body.go, none, Expr.true, eval, and_assoc]

end Semantics

inductive Decision where
  | allow
  | deny
  deriving DecidableEq

section Authorizer

variable {A : Type}

def fires (env : Env A) (req : Request) (effect : Effect) (policies : List (Policy A)) : Bool :=
  policies.any fun p => decide (p.effect = effect) && satisfied env req p

def isAuthorized (env : Env A) (req : Request) (policies : List (Policy A)) : Decision :=
  if fires env req .permit policies && !fires env req .forbid policies then .allow else .deny

theorem fires_iff (env : Env A) (req : Request) (effect : Effect) (policies : List (Policy A)) :
    fires env req effect policies = true ↔
      ∃ p ∈ policies, p.effect = effect ∧ satisfied env req p = true := by
  simp [fires]

@[simp] theorem fires_nil (env : Env A) (req : Request) (effect : Effect) :
    fires env req effect [] = false := rfl

@[simp] theorem fires_cons (env : Env A) (req : Request) (effect : Effect) (p : Policy A)
    (policies : List (Policy A)) :
    fires env req effect (p :: policies) =
      (decide (p.effect = effect) && satisfied env req p || fires env req effect policies) := rfl

@[simp] theorem fires_append (env : Env A) (req : Request) (effect : Effect)
    (left right : List (Policy A)) :
    fires env req effect (left ++ right) =
      (fires env req effect left || fires env req effect right) := by
  simp [fires]

theorem isAuthorized_allow (env : Env A) (req : Request) (policies : List (Policy A)) :
    isAuthorized env req policies = .allow ↔
      fires env req .permit policies = true ∧ fires env req .forbid policies = false := by
  simp [isAuthorized]

theorem isAuthorized_deny (env : Env A) (req : Request) (policies : List (Policy A)) :
    isAuthorized env req policies = .deny ↔
      fires env req .permit policies = false ∨ fires env req .forbid policies = true := by
  cases h : fires env req .permit policies <;> cases k : fires env req .forbid policies <;>
    simp [isAuthorized, h, k]

theorem isAuthorized_congr (env env' : Env A) (req req' : Request)
    (left right : List (Policy A))
    (same : ∀ effect, fires env req effect left = fires env' req' effect right) :
    isAuthorized env req left = isAuthorized env' req' right := by
  simp [isAuthorized, same]

end Authorizer

end Cedar
