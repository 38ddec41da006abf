import Frona.Cedar.Partial

set_option autoImplicit false

namespace Frona.Policy

open Cedar

def entityTypeName (typeName : String) : String := "Policy::" ++ typeName

def entityUid (typeName id : String) : EntityUid := ⟨entityTypeName typeName, id⟩

def actionEntityUid (action : String) : EntityUid := entityUid "Action" action

structure SandboxPolicy where
  readPaths : List String := []
  writePaths : List String := []
  networkAccess : Bool := false
  networkDestinations : List String := []
  bindPorts : List UInt16 := []
  deniedPaths : List String := []
  blockedNetworks : List String := []

inductive RuleEffect where
  | allow
  | deny
  deriving DecidableEq

def RuleEffect.flip : RuleEffect → RuleEffect
  | .allow => .deny
  | .deny => .allow

def RuleEffect.ofEffect : Effect → RuleEffect
  | .permit => .allow
  | .forbid => .deny

inductive RuleKind where
  | read
  | write
  | connect
  | bind
  deriving DecidableEq

def RuleKind.action : RuleKind → String
  | .read => "read"
  | .write => "write"
  | .connect => "connect"
  | .bind => "bind"

def RuleKind.resourceType : RuleKind → String
  | .read | .write => entityTypeName "Path"
  | .connect | .bind => entityTypeName "NetworkDestination"

def sandboxActions : List RuleKind := [.read, .write, .connect, .bind]

-- An empty target is a rule for every resource.
structure Rule where
  effect : RuleEffect
  kind : RuleKind
  target : String

/-- `u16::from_str`: an optional plus sign, then decimal digits in range. -/
def parseU16 (text : String) : Option UInt16 :=
  let digits := match text.toList with
    | '+' :: rest => rest
    | all => all
  if digits.isEmpty || !digits.all Char.isDigit then none
  else
    let n := Nat.ofDigitChars 10 digits 0
    if n < 65536 then some (UInt16.ofNat n) else none

inductive CedarExpr where
  | bool (b : Bool)
  | entity (id : String)
  | unknown (name : String)
  | eq (left right : CedarExpr)
  | not (arg : CedarExpr)
  | and (left right : CedarExpr)
  | or (left right : CedarExpr)
  | other

def varName : Var → String
  | .principal => "principal"
  | .action => "action"
  | .resource => "resource"

def CedarExpr.parse {A : Type} : Expr A → CedarExpr
  | .value (.bool b) => .bool b
  | .value (.entity uid) => .entity uid.id
  | .unknown v _ => .unknown (varName v)
  | .eq l r => .eq (parse l) (parse r)
  | .not e => .not (parse e)
  | .and l r => .and (parse l) (parse r)
  | .or l r => .or (parse l) (parse r)
  | .var _ | .isIn _ _ | .is _ _ | .atom _ => .other

def CedarExpr.isUnsatisfiable : CedarExpr → Bool
  | .bool false => true
  | .and l r => l.isUnsatisfiable || r.isUnsatisfiable
  | _ => false

structure ResidualEntity where
  id : String
  negated : Bool
  deriving DecidableEq

def collectResourceEntities : CedarExpr → Bool → List ResidualEntity
  | .eq (.unknown name) (.entity id), negated
  | .eq (.entity id) (.unknown name), negated =>
      if name = "resource" then [⟨id, negated⟩] else []
  | .not inner, negated => collectResourceEntities inner !negated
  | .and l r, negated | .or l r, negated =>
      collectResourceEntities l negated ++ collectResourceEntities r negated
  | _, _ => []

section Evaluation

variable {A : Type}

def conditionEntities (body : Expr A) : List ResidualEntity :=
  let expr := CedarExpr.parse body
  if expr.isUnsatisfiable then [] else collectResourceEntities expr false

def extractResourceEntitiesFromResidual (residual : Cedar.Policy A) : List ResidualEntity :=
  residual.conditions.flatMap fun c => conditionEntities c.body

def entityRule (effect : RuleEffect) (kind : RuleKind) (entity : ResidualEntity) : Rule :=
  ⟨if entity.negated then effect.flip else effect, kind, entity.id⟩

def residualRules (kind : RuleKind) (residual : Cedar.Policy A) : List Rule :=
  let effect := RuleEffect.ofEffect residual.effect
  match residual.resource with
  | .eq uid => [⟨effect, kind, uid.id⟩]
  | _ => (extractResourceEntitiesFromResidual residual).map (entityRule effect kind)

def satisfiedRule (kind : RuleKind) (satisfied : Cedar.Policy A) : Rule :=
  ⟨RuleEffect.ofEffect satisfied.effect, kind,
    match satisfied.resource with
    | .eq uid => uid.id
    | _ => ""⟩

def RuleKind.request (principal : EntityUid) (kind : RuleKind) : PartialRequest :=
  ⟨principal, actionEntityUid kind.action, kind.resourceType⟩

def rulesFor (env : Env A) (policies : List (Cedar.Policy A)) (principal : EntityUid)
    (kind : RuleKind) : List Rule :=
  let response := isAuthorizedPartial env (kind.request principal) policies
  response.nontrivialResiduals.flatMap (residualRules kind) ++
    response.definitelySatisfied.map (satisfiedRule kind)

def applyRule (policy : SandboxPolicy) (rule : Rule) : SandboxPolicy :=
  if rule.target.isEmpty then policy
  else match rule.effect, rule.kind with
    | .allow, .read => { policy with readPaths := policy.readPaths ++ [rule.target] }
    | .allow, .write => { policy with writePaths := policy.writePaths ++ [rule.target] }
    | .allow, .connect =>
        { policy with networkDestinations := policy.networkDestinations ++ [rule.target] }
    | .allow, .bind =>
        match parseU16 rule.target with
        | some port => { policy with bindPorts := policy.bindPorts ++ [port] }
        | none => policy
    | .deny, .read | .deny, .write =>
        { policy with deniedPaths := policy.deniedPaths ++ [rule.target] }
    | .deny, .connect =>
        { policy with blockedNetworks := policy.blockedNetworks ++ [rule.target] }
    | .deny, .bind => policy

def rulesToPolicy (rules : List Rule) : SandboxPolicy :=
  rules.foldl applyRule
    { networkAccess := rules.any fun r => decide (r.kind = .connect ∧ r.effect = .allow) }

def evaluateSandboxPolicy (env : Env A) (policies : List (Cedar.Policy A))
    (principal : EntityUid) : SandboxPolicy :=
  rulesToPolicy (sandboxActions.flatMap (rulesFor env policies principal))

end Evaluation

end Frona.Policy
