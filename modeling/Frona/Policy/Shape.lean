import Frona.Policy.Model
import Mathlib.Data.List.Sort

set_option autoImplicit false

namespace Frona.Policy

open Cedar

section Format

structure TextFormat (T A : Type) where
  parse : T → Option (List (Cedar.Policy A))
  print : Cedar.Policy A → T
  parse_print : ∀ p, parse (print p) = some [p]
  readQuoted : String → Option String
  slug : String → String

variable {T A : Type} (format : TextFormat T A)

def escapeQuotes (s : String) : String :=
  String.ofList (s.toList.flatMap fun c => if c = '"' then ['\\', '"'] else [c])

def EntityRef.uid (r : EntityRef) : EntityUid := ⟨r.cedarType, r.id⟩

-- The id goes through the Cedar parser, which may refuse it or read escapes in it.
def EntityRef.toCedarUid (r : EntityRef) : Option EntityUid :=
  (format.readQuoted (escapeQuotes r.id)).map fun id => ⟨r.cedarType, id⟩

def actionUid (action : String) : Option EntityUid :=
  (format.readQuoted action).map actionEntityUid

def parseFirst (text : T) : Option (Cedar.Policy A) := (format.parse text).bind List.head?

def parseAll : List T → Option (List (Cedar.Policy A))
  | [] => some []
  | text :: texts =>
      match format.parse text with
      | none => none
      | some policies => (parseAll texts).map (policies ++ ·)

end Format

section Owned

variable {A : Type}

def EntityRef.isUid (r : EntityRef) (uid : EntityUid) : Bool :=
  uid.type = r.cedarType && uid.id = r.id

def principalConstraintMatches (policy : Cedar.Policy A) (principal : EntityRef) : Bool :=
  match policy.principal with
  | .eq uid => principal.isUid uid
  | _ => false

-- Only the id of the action is compared, not its type.
def actionConstraintMatches (policy : Cedar.Policy A) (action : String) : Bool :=
  match policy.action with
  | .eq uid => uid.id = action
  | _ => false

inductive ConditionShape where
  | none
  | carveoutUnless (resources : List (String × String))
  | other
  deriving DecidableEq

def isResourceVar : Expr A → Bool
  | .var .resource | .unknown .resource _ => true
  | _ => false

def extractEntity : Expr A → Option (String × String)
  | .value (.entity uid) => some (uid.type, uid.id)
  | _ => none

def matchResourceVarEq (left right : Expr A) : Option (String × String) :=
  if isResourceVar left then extractEntity right
  else if isResourceVar right then extractEntity left
  else none

def collectResourceOrTerms : Expr A → Option (List (String × String))
  | .or left right =>
      match collectResourceOrTerms left, collectResourceOrTerms right with
      | some l, some r => some (l ++ r)
      | _, _ => none
  | .eq left right => (matchResourceVarEq left right).map fun entity => [entity]
  | _ => none

def conditionKind (policy : Cedar.Policy A) : ConditionShape :=
  match policy.conditions with
  | [] => .none
  | [⟨.unless, body⟩] =>
      match collectResourceOrTerms body with
      | some (first :: rest) =>
          if (first :: rest).all fun entity => entity.1 = first.1 then
            .carveoutUnless (first :: rest)
          else .other
      | _ => .other
  | _ => .other

def hasNoConditions (policy : Cedar.Policy A) : Bool := conditionKind policy = .none

def isOwned (policy : Cedar.Policy A) (principal : EntityRef) (action : String)
    (systemScope : Bool) : Bool :=
  if systemScope then false
  else if !principalConstraintMatches policy principal then false
  else if !actionConstraintMatches policy action then false
  else match policy.resource with
    | .eq _ | .isIn _ => hasNoConditions policy
    | .any =>
        match conditionKind policy with
        | .none | .carveoutUnless _ => true
        | .other => false
    | _ => false

end Owned

section Texts

variable {T A : Type} (format : TextFormat T A)

def usesInConstraint : EntityRef → Bool
  | .toolGroup _ => true
  | _ => false

def groupPolicy (name : String) (principal : EntityRef) (action : String) (effect : Effect)
    (resource : ScopeConstraint) (conditions : List (Condition A)) : Cedar.Policy A where
  effect := effect
  principal := .eq principal.uid
  action := .eq (actionEntityUid action)
  resource := resource
  conditions := conditions
  annotations := [("id", name)]

def perResourcePolicy (name : String) (principal : EntityRef) (action : String)
    (resource : EntityRef) (effect : Effect) : Cedar.Policy A :=
  groupPolicy name principal action effect
    (if usesInConstraint resource then .isIn resource.uid else .eq resource.uid) []

def wildcardPolicy (name : String) (principal : EntityRef) (action : String) (effect : Effect) :
    Cedar.Policy A :=
  groupPolicy name principal action effect .any []

def refLE (a b : EntityRef) : Prop :=
  a.cedarType < b.cedarType ∨ a.cedarType = b.cedarType ∧ a.id ≤ b.id

instance : DecidableRel refLE := fun _ _ => inferInstanceAs (Decidable (_ ∨ _ ∧ _))

def eqClause (r : EntityRef) : Expr A := .eq (.var .resource) (Expr.uid r.uid)

def resourceOrChain : List EntityRef → Expr A
  | [] => .value (.bool false)
  | first :: rest => rest.foldl (fun chain r => .or chain (eqClause r)) (eqClause first)

def carveoutPolicy (name : String) (principal : EntityRef) (action : String) (effect : Effect)
    (resources : List EntityRef) : Cedar.Policy A :=
  groupPolicy name principal action effect .any
    [⟨.unless, resourceOrChain (resources.insertionSort refLE)⟩]

def buildPerResourceText (name : String) (principal : EntityRef) (action : String)
    (resource : EntityRef) (effect : Effect) : T :=
  format.print (perResourcePolicy name principal action resource effect)

def buildWildcardText (name : String) (principal : EntityRef) (action : String)
    (effect : Effect) : T :=
  format.print (wildcardPolicy name principal action effect)

def buildCarveoutText (name : String) (principal : EntityRef) (action : String) (effect : Effect)
    (resources : List EntityRef) : T :=
  format.print (carveoutPolicy name principal action effect resources)

def cedarTypeShort (typeName : String) : String :=
  if "Policy::".toList.isPrefixOf typeName.toList then String.ofList (typeName.toList.drop 8)
  else typeName

def groupPolicyName (principal : EntityRef) (action : String) : String :=
  "reconcile-" ++ cedarTypeShort principal.cedarType ++ "-" ++ format.slug principal.id ++ "-" ++
    action

def perResourcePolicyName (principal : EntityRef) (action : String) (resource : EntityRef)
    (effect : Effect) : String :=
  let eff := match effect with
    | .permit => "p"
    | .forbid => "f"
  "reconcile-" ++ cedarTypeShort principal.cedarType ++ "-" ++ format.slug principal.id ++ "-" ++
    action ++ "-" ++ eff ++ "-" ++ cedarTypeShort resource.cedarType ++ "-" ++
    format.slug resource.id

end Texts

end Frona.Policy
