import Frona.Cedar.Language

set_option autoImplicit false

namespace Cedar

structure PartialRequest where
  principal : EntityUid
  action : EntityUid
  resourceType : String

def PartialRequest.at (req : PartialRequest) (resource : EntityUid) : Request :=
  ⟨req.principal, req.action, resource⟩

inductive PartialValue (A : Type) where
  | value (v : Value)
  | residual (e : Expr A)

def PartialValue.toExpr {A : Type} : PartialValue A → Expr A
  | .value v => .value v
  | .residual e => e

section Interpreter

variable {A : Type}

-- A literal of another entity type can never equal an unknown of a known type.
def eqPartial : PartialValue A → PartialValue A → PartialValue A
  | .value v, .value w => .value (.bool (decide (v = w)))
  | .value (.entity u), .residual (.unknown v type) =>
      if u.type = type then .residual (.eq (.value (.entity u)) (.unknown v type))
      else .value (.bool false)
  | .residual (.unknown v type), .value (.entity u) =>
      if u.type = type then .residual (.eq (.unknown v type) (.value (.entity u)))
      else .value (.bool false)
  | l, r => .residual (.eq l.toExpr r.toExpr)

def inPartial (env : Env A) : PartialValue A → PartialValue A → Option (PartialValue A)
  | .value v, .value w => (Result.isIn env (some v) (some w)).map .value
  | l, r => some (.residual (.isIn l.toExpr r.toExpr))

def isPartial (type : String) : PartialValue A → Option (PartialValue A)
  | .value v => (Result.is type (some v)).map .value
  | .residual (.unknown _ known) => some (.value (.bool (decide (known = type))))
  | .residual e => some (.residual (.is e type))

def notPartial : PartialValue A → Option (PartialValue A)
  | .value v => (Result.not (some v)).map .value
  | .residual e => some (.residual (.not e))

-- `fallback` is the right operand as written: behind a residual it is evaluated as far as it
-- goes, and kept unevaluated when it errs.
def andPartial (left : PartialValue A) (right : Option (PartialValue A)) (fallback : Expr A) :
    Option (PartialValue A) :=
  match left with
  | .residual e => some (.residual (.and e ((right.map PartialValue.toExpr).getD fallback)))
  | .value (.bool false) => some (.value (.bool false))
  | .value (.bool true) =>
      match right with
      | some (.residual e) => some (.residual (.and Expr.true e))
      | some (.value v) => (Result.bool (some v)).map .value
      | none => none
  | .value (.entity _) => none

def orPartial (left : PartialValue A) (right : Option (PartialValue A)) (fallback : Expr A) :
    Option (PartialValue A) :=
  match left with
  | .residual e => some (.residual (.or e ((right.map PartialValue.toExpr).getD fallback)))
  | .value (.bool true) => some (.value (.bool true))
  | .value (.bool false) =>
      match right with
      | some (.residual e) => some (.residual (.or (.value (.bool false)) e))
      | some (.value v) => (Result.bool (some v)).map .value
      | none => none
  | .value (.entity _) => none

/-- Evaluates what the known components decide and leaves the rest as a residual; `none` is an
evaluation error. -/
def partialInterpret (env : Env A) (req : PartialRequest) : Expr A → Option (PartialValue A)
  | .value v => some (.value v)
  | .var .principal => some (.value (.entity req.principal))
  | .var .action => some (.value (.entity req.action))
  | .var .resource => some (.residual (.unknown .resource req.resourceType))
  | .unknown v type => some (.residual (.unknown v type))
  | .eq l r => do return eqPartial (← partialInterpret env req l) (← partialInterpret env req r)
  | .isIn l r => do inPartial env (← partialInterpret env req l) (← partialInterpret env req r)
  | .is e type => do isPartial type (← partialInterpret env req e)
  | .not e => do notPartial (← partialInterpret env req e)
  | .and l r => do andPartial (← partialInterpret env req l) (partialInterpret env req r) r
  | .or l r => do orPartial (← partialInterpret env req l) (partialInterpret env req r) r
  | .atom a =>
      if env.mentionsResource a then some (.residual (.atom a))
      else (env.atom a ⟨req.principal, req.action, ⟨req.resourceType, ""⟩⟩).map
        fun b => .value (.bool b)

def Expr.Typed (req : Request) : Expr A → Prop
  | .value _ | .var _ | .atom _ => True
  | .unknown v type => (req.get v).type = type
  | .eq l r | .isIn l r | .and l r | .or l r => l.Typed req ∧ r.Typed req
  | .is e _ | .not e => e.Typed req

def PartialValue.Typed (req : Request) (v : PartialValue A) : Prop := v.toExpr.Typed req

theorem eqPartial_correct (env : Env A) (req : Request) (l r : PartialValue A)
    (left : l.Typed req) (right : r.Typed req) :
    (eqPartial l r).Typed req ∧
      eval env req (eqPartial l r).toExpr =
        Result.eq (eval env req l.toExpr) (eval env req r.toExpr) := by
  unfold eqPartial
  split
  · exact ⟨trivial, rfl⟩
  · rename_i u v type
    split
    · exact ⟨⟨left, right⟩, rfl⟩
    · rename_i differs
      refine ⟨trivial, ?_⟩
      have known : (req.get v).type = type := right
      have : u ≠ req.get v := fun same => differs (same ▸ known)
      simp [PartialValue.toExpr, eval, Result.eq, this]
  · rename_i v type u
    split
    · exact ⟨⟨left, right⟩, rfl⟩
    · rename_i differs
      refine ⟨trivial, ?_⟩
      have known : (req.get v).type = type := left
      have : req.get v ≠ u := fun same => differs (same ▸ known)
      simp [PartialValue.toExpr, eval, Result.eq, this]
  · exact ⟨⟨left, right⟩, rfl⟩

/-- What a partial result says about an expression whose value is `whole`: an error stands for
an error, anything else evaluates to the same value. -/
def Represents (env : Env A) (req : Request) (result : Option (PartialValue A))
    (whole : Result) : Prop :=
  match result with
  | none => whole = none
  | some v => v.Typed req ∧ eval env req v.toExpr = whole

theorem represents_value (env : Env A) (req : Request) (r : Result) :
    Represents env req ((r.map PartialValue.value : Option (PartialValue A))) r := by
  cases r with
  | none => rfl
  | some v => exact ⟨trivial, rfl⟩

theorem inPartial_correct (env : Env A) (req : Request) (l r : PartialValue A)
    (left : l.Typed req) (right : r.Typed req) :
    Represents env req (inPartial env l r)
      (Result.isIn env (eval env req l.toExpr) (eval env req r.toExpr)) := by
  unfold inPartial
  split
  · exact represents_value env req _
  · exact ⟨⟨left, right⟩, rfl⟩

theorem isPartial_correct (env : Env A) (req : Request) (type : String) (v : PartialValue A)
    (typed : v.Typed req) :
    Represents env req (isPartial type v) (Result.is type (eval env req v.toExpr)) := by
  unfold isPartial
  split
  · exact represents_value env req _
  · rename_i known
    have same : (req.get _).type = known := typed
    exact ⟨trivial, by simp [PartialValue.toExpr, eval, Result.is, same]⟩
  · exact ⟨typed, rfl⟩

theorem notPartial_correct (env : Env A) (req : Request) (v : PartialValue A)
    (typed : v.Typed req) :
    Represents env req (notPartial v) (Result.not (eval env req v.toExpr)) := by
  unfold notPartial
  split
  · exact represents_value env req _
  · exact ⟨typed, rfl⟩

theorem fallback_correct (env : Env A) (req : Request) (right : Option (PartialValue A))
    (e : Expr A) (typed : e.Typed req) (correct : Represents env req right (eval env req e)) :
    ((right.map PartialValue.toExpr).getD e).Typed req ∧
      eval env req ((right.map PartialValue.toExpr).getD e) = eval env req e := by
  cases right with
  | none => exact ⟨typed, rfl⟩
  | some v => exact correct

theorem andPartial_correct (env : Env A) (req : Request) (l : PartialValue A)
    (right : Option (PartialValue A)) (e : Expr A) (left : l.Typed req) (typed : e.Typed req)
    (correct : Represents env req right (eval env req e)) :
    Represents env req (andPartial l right e)
      (Result.and (eval env req l.toExpr) (eval env req e)) := by
  have kept := fallback_correct env req right e typed correct
  rcases l with (_ | _) | e'
  · rename_i b
    cases b with
    | false => exact ⟨trivial, rfl⟩
    | true =>
        cases right with
        | none => exact congrArg Result.bool correct
        | some v =>
            obtain ⟨vTyped, vCorrect⟩ := correct
            rw [← vCorrect]
            cases v with
            | value v => exact represents_value env req _
            | residual r => exact ⟨⟨trivial, vTyped⟩, rfl⟩
  · rfl
  · exact ⟨⟨left, kept.1⟩, by simp only [PartialValue.toExpr, eval, kept.2]⟩

theorem orPartial_correct (env : Env A) (req : Request) (l : PartialValue A)
    (right : Option (PartialValue A)) (e : Expr A) (left : l.Typed req) (typed : e.Typed req)
    (correct : Represents env req right (eval env req e)) :
    Represents env req (orPartial l right e)
      (Result.or (eval env req l.toExpr) (eval env req e)) := by
  have kept := fallback_correct env req right e typed correct
  rcases l with (_ | _) | e'
  · rename_i b
    cases b with
    | true => exact ⟨trivial, rfl⟩
    | false =>
        cases right with
        | none => exact congrArg Result.bool correct
        | some v =>
            obtain ⟨vTyped, vCorrect⟩ := correct
            rw [← vCorrect]
            cases v with
            | value v => exact represents_value env req _
            | residual r => exact ⟨⟨trivial, vTyped⟩, rfl⟩
  · rfl
  · exact ⟨⟨left, kept.1⟩, by simp only [PartialValue.toExpr, eval, kept.2]⟩

theorem partialInterpret_correct (env : Env A) (req : PartialRequest) (resource : EntityUid)
    (known : resource.type = req.resourceType) (e : Expr A)
    (typed : e.Typed (req.at resource)) :
    Represents env (req.at resource) (partialInterpret env req e)
      (eval env (req.at resource) e) := by
  induction e with
  | value v => exact ⟨trivial, rfl⟩
  | var v =>
      cases v with
      | principal | action => exact ⟨trivial, rfl⟩
      | resource => exact ⟨known, rfl⟩
  | unknown v type => exact ⟨typed, rfl⟩
  | atom a =>
      unfold partialInterpret
      cases mentions : env.mentionsResource a with
      | true => exact ⟨trivial, rfl⟩
      | false =>
          have closed := env.atom_closed a (req.at resource) ⟨req.resourceType, ""⟩ mentions
          simp only [PartialRequest.at] at closed
          simp only [Bool.false_eq_true, if_false, eval, PartialRequest.at, closed]
          have := represents_value (A := A) env (req.at resource)
            ((env.atom a (req.at resource)).map .bool)
          simpa [PartialRequest.at, Option.map_map, Function.comp_def] using this
  | eq l r hl hr =>
      have left := hl typed.1
      have right := hr typed.2
      unfold partialInterpret
      cases h : partialInterpret env req l with
      | none => rw [h] at left; simp [Represents, eval, Result.eq, show eval _ _ l = _ from left]
      | some v =>
          cases k : partialInterpret env req r with
          | none =>
              rw [k] at right
              simp only [Represents, eval, Option.bind_eq_bind, Option.bind_some, Option.bind_none,
                show eval _ _ r = _ from right]
              cases eval env (req.at resource) l <;> rfl
          | some w =>
              rw [h] at left
              rw [k] at right
              have := eqPartial_correct env (req.at resource) v w left.1 right.1
              rw [left.2, right.2] at this
              exact this
  | isIn l r hl hr =>
      have left := hl typed.1
      have right := hr typed.2
      unfold partialInterpret
      cases h : partialInterpret env req l with
      | none => rw [h] at left; simp [Represents, eval, Result.isIn, show eval _ _ l = _ from left]
      | some v =>
          cases k : partialInterpret env req r with
          | none =>
              rw [k] at right
              simp only [Represents, eval, Option.bind_eq_bind, Option.bind_some, Option.bind_none,
                show eval _ _ r = _ from right]
              rcases eval env (req.at resource) l with _ | (_ | _) <;> rfl
          | some w =>
              rw [h] at left
              rw [k] at right
              have := inPartial_correct env (req.at resource) v w left.1 right.1
              rw [left.2, right.2] at this
              exact this
  | is e type ih =>
      have inner := ih typed
      unfold partialInterpret
      cases h : partialInterpret env req e with
      | none => rw [h] at inner; simp [Represents, eval, Result.is, show eval _ _ e = _ from inner]
      | some v =>
          rw [h] at inner
          have := isPartial_correct env (req.at resource) type v inner.1
          rw [inner.2] at this
          exact this
  | not e ih =>
      have inner := ih typed
      unfold partialInterpret
      cases h : partialInterpret env req e with
      | none => rw [h] at inner; simp [Represents, eval, Result.not, show eval _ _ e = _ from inner]
      | some v =>
          rw [h] at inner
          have := notPartial_correct env (req.at resource) v inner.1
          rw [inner.2] at this
          exact this
  | and l r hl hr =>
      have left := hl typed.1
      unfold partialInterpret
      cases h : partialInterpret env req l with
      | none => rw [h] at left; simp [Represents, eval, Result.and, show eval _ _ l = _ from left]
      | some v =>
          rw [h] at left
          have := andPartial_correct env (req.at resource) v _ r left.1 typed.2 (hr typed.2)
          rw [left.2] at this
          exact this
  | or l r hl hr =>
      have left := hl typed.1
      unfold partialInterpret
      cases h : partialInterpret env req l with
      | none => rw [h] at left; simp [Represents, eval, Result.or, show eval _ _ l = _ from left]
      | some v =>
          rw [h] at left
          have := orPartial_correct env (req.at resource) v _ r left.1 typed.2 (hr typed.2)
          rw [left.2] at this
          exact this

inductive Outcome (A : Type) where
  | satisfied
  | unsatisfied
  | residual (e : Expr A)

def partialEvaluate (env : Env A) (req : PartialRequest) (p : Policy A) : Outcome A :=
  match partialInterpret env req p.toExpr with
  | some (.value (.bool true)) => .satisfied
  | some (.residual e) => .residual e
  | _ => .unsatisfied

def Policy.whenClause (p : Policy A) (e : Expr A) : Policy A :=
  { effect := p.effect
    principal := .any
    action := .any
    resource := .any
    conditions := [⟨.when, e⟩]
    annotations := p.annotations }

def residualOf (env : Env A) (req : PartialRequest) (p : Policy A) : Option (Policy A) :=
  match partialEvaluate env req p with
  | .residual e => some (p.whenClause e)
  | _ => none

def satisfiedOf (env : Env A) (req : PartialRequest) (p : Policy A) : Option (Policy A) :=
  match partialEvaluate env req p with
  | .satisfied => some (p.whenClause Expr.true)
  | _ => none

structure PartialResponse (A : Type) where
  definitelySatisfied : List (Policy A)
  nontrivialResiduals : List (Policy A)

def Policy.hasEffect (effect : Effect) (p : Policy A) : Bool := decide (p.effect = effect)

-- Permits come before forbids.
def isAuthorizedPartial (env : Env A) (req : PartialRequest) (policies : List (Policy A)) :
    PartialResponse A where
  definitelySatisfied :=
    (policies.filter (Policy.hasEffect .permit)).filterMap (satisfiedOf env req) ++
      (policies.filter (Policy.hasEffect .forbid)).filterMap (satisfiedOf env req)
  nontrivialResiduals :=
    (policies.filter (Policy.hasEffect .permit)).filterMap (residualOf env req) ++
      (policies.filter (Policy.hasEffect .forbid)).filterMap (residualOf env req)

def Outcome.holds (env : Env A) (req : Request) : Outcome A → Bool
  | .satisfied => true
  | .unsatisfied => false
  | .residual e => decide (eval env req e = some (.bool true))

def Expr.Written : Expr A → Prop
  | .value _ | .var _ | .atom _ => True
  | .unknown _ _ => False
  | .eq l r | .isIn l r | .and l r | .or l r => l.Written ∧ r.Written
  | .is e _ | .not e => e.Written

theorem Expr.Written.typed {e : Expr A} (written : e.Written) (req : Request) :
    e.Typed req := by
  induction e with
  | value | var | atom => trivial
  | unknown => exact written.elim
  | eq l r hl hr | isIn l r hl hr | and l r hl hr | or l r hl hr =>
      exact ⟨hl written.1, hr written.2⟩
  | is e type ih | not e ih => exact ih written

def Policy.Written (p : Policy A) : Prop := ∀ c ∈ p.conditions, c.body.Written

theorem ScopeConstraint.written (c : ScopeConstraint) (v : Var) :
    (c.toExpr v : Expr A).Written := by
  cases c <;> simp [toExpr, Expr.Written, Expr.true, Expr.uid]

theorem ActionConstraint.written (c : ActionConstraint) : (c.toExpr : Expr A).Written := by
  cases c with
  | any => trivial
  | eq uid => exact ⟨trivial, trivial⟩
  | isIn uids =>
      induction uids with
      | nil => trivial
      | cons uid rest ih => exact ⟨⟨trivial, trivial⟩, ih⟩

theorem Condition.written (c : Condition A) (written : c.body.Written) : c.toExpr.Written := by
  unfold Condition.toExpr
  cases c.kind <;> exact written

theorem Policy.Written.body {p : Policy A} (written : p.Written) : p.body.Written := by
  have conjunction (conditions : List (Condition A))
      (each : ∀ c ∈ conditions, c.body.Written) : (Policy.body.go conditions).Written := by
    induction conditions with
    | nil => trivial
    | cons c rest ih =>
        have head := c.written (each c (by simp))
        cases rest with
        | nil => exact head
        | cons d rest => exact ⟨head, ih fun c member => each c (by simp [member])⟩
  exact conjunction p.conditions written

theorem Policy.Written.toExpr {p : Policy A} (written : p.Written) : p.toExpr.Written :=
  ⟨ScopeConstraint.written _ _, ActionConstraint.written _, ScopeConstraint.written _ _,
    written.body⟩

theorem partialEvaluate_correct (env : Env A) (req : PartialRequest) (resource : EntityUid)
    (known : resource.type = req.resourceType) (p : Policy A) (written : p.Written) :
    (partialEvaluate env req p).holds env (req.at resource) =
      satisfied env (req.at resource) p := by
  have correct := partialInterpret_correct env req resource known p.toExpr
    (written.toExpr.typed _)
  unfold satisfied partialEvaluate
  split
  next h => rw [h] at correct; simp [Outcome.holds, ← correct.2, PartialValue.toExpr, eval]
  next e h => rw [h] at correct; simp [Outcome.holds, ← correct.2, PartialValue.toExpr]
  next notTrue notResidual =>
    cases h : partialInterpret env req p.toExpr with
    | none => rw [h] at correct; simp [Outcome.holds, show eval _ _ _ = _ from correct]
    | some v =>
        rw [h] at correct
        cases v with
        | residual e => exact absurd h (notResidual e)
        | value v =>
            have : v ≠ .bool true := fun same => notTrue (same ▸ h)
            simp [Outcome.holds, ← correct.2, PartialValue.toExpr, eval, this]

end Interpreter

end Cedar
