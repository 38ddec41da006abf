import Frona.Policy.Shape

set_option autoImplicit false

namespace Frona.Policy

open Cedar

section Context

structure ResourceHierarchy where
  parent : List (EntityRef × EntityRef)
  descendants : List (EntityRef × List EntityRef)

def ResourceHierarchy.empty : ResourceHierarchy := ⟨[], []⟩

def ResourceHierarchy.parentOf (hierarchy : ResourceHierarchy) (child : EntityRef) :
    Option EntityRef := hierarchy.parent.lookup child

def ResourceHierarchy.descendantsOf (hierarchy : ResourceHierarchy) (parent : EntityRef) :
    Option (List EntityRef) := hierarchy.descendants.lookup parent

def ResourceHierarchy.add (hierarchy : ResourceHierarchy) (child parent : EntityRef) :
    ResourceHierarchy where
  parent := (child, parent) :: hierarchy.parent.filter fun entry => decide (entry.1 ≠ child)
  descendants :=
    (parent, (hierarchy.descendantsOf parent).getD [] ++ [child]) ::
      hierarchy.descendants.filter fun entry => decide (entry.1 ≠ parent)

variable {T A : Type}

structure PlanCtx (T A : Type) where
  live : List (StoredPolicy T)
  managed : List (Cedar.Policy A)
  accepts : Request → Bool
  env : Env A
  hierarchy : ResourceHierarchy
  hashOrder : List EntityRef → List EntityRef
  hashOrder_perm : ∀ keys, (hashOrder keys).Perm keys

inductive PlanFailure where
  | conflict (conflict : GroupConflict)
  | panic
  deriving DecidableEq

structure NewPolicy (T : Type) where
  name : String
  text : T
  deriving DecidableEq

structure PendingEdits (T : Type) where
  deletes : List String
  creates : List (NewPolicy T)
  deriving DecidableEq

def PendingEdits.new : PendingEdits T := ⟨[], []⟩

def PendingEdits.delete (pending : PendingEdits T) (rows : List (StoredPolicy T)) :
    PendingEdits T :=
  { pending with deletes := pending.deletes ++ rows.map (·.id) }

def PendingEdits.create (pending : PendingEdits T) (policy : NewPolicy T) : PendingEdits T :=
  { pending with creates := pending.creates ++ [policy] }

def pendingToEdits (pending : PendingEdits T) : List (Edit T) :=
  pending.deletes.map .delete ++ pending.creates.map fun c => .create c.name c.text

structure GroupCtx (T : Type) where
  group : AccessGroup
  owned : List (StoredPolicy T)
  principalUid : EntityUid
  actionUid : EntityUid

end Context

section Evaluation

variable {T A : Type} (format : TextFormat T A) (ctx : PlanCtx T A)

def effectiveTexts (live : List (StoredPolicy T)) (pending : PendingEdits T) : List T :=
  (live.filter fun p => p.enabled && decide (p.id ∉ pending.deletes)).map (·.policyText) ++
    pending.creates.map (·.text)

def effectivePolicySet (pending : PendingEdits T) : Option (List (Cedar.Policy A)) :=
  (parseAll format (effectiveTexts ctx.live pending)).map (· ++ ctx.managed)

def evalRequest (accepts : Request → Bool) (env : Env A) (policies : List (Cedar.Policy A))
    (request : Request) : Decision :=
  if accepts request then isAuthorized env request policies else .deny

def dbConflict (group : AccessGroup) : GroupConflict where
  principal := group.principal
  action := group.action
  failingResource := none
  blockers := []
  reason := .allowBlockedByForbid

def evalNow (gctx : GroupCtx T) (pending : PendingEdits T) (resource : EntityUid) :
    Except PlanFailure Decision :=
  match effectivePolicySet format ctx pending with
  | none => .error (.conflict (dbConflict gctx.group))
  | some policies =>
      .ok (evalRequest ctx.accepts ctx.env policies ⟨gctx.principalUid, gctx.actionUid, resource⟩)

def effectOf : Decision → Effect
  | .allow => .permit
  | .deny => .forbid

def wantOf : AccessIntent → Option Decision
  | .allow => some .allow
  | .deny => some .deny
  | .default => none

-- Blockers are judged by the first policy of each row.
def blocks (group : AccessGroup) (resource : EntityRef) (effect : Effect)
    (row : StoredPolicy T) : Bool :=
  match parseFirst format row.policyText with
  | none => false
  | some parsed =>
      decide (parsed.effect = effect) &&
      (match parsed.principal with
        | .eq uid => group.principal.isUid uid
        | .any => true
        | _ => false) &&
      (match parsed.action with
        | .eq uid => decide (uid.id = group.action)
        | .any => true
        | _ => false) &&
      (match parsed.resource with
        | .eq uid => resource.isUid uid
        | .any => true
        | _ => false)

def collectBlockers (group : AccessGroup) (pending : PendingEdits T) (resource : EntityRef)
    (want : Decision) : List BlockerPolicy :=
  (ctx.live.filter fun row => row.enabled && decide (row.id ∉ pending.deletes) &&
    blocks format group resource (effectOf want).flip row).map fun row => ⟨row.id, row.name⟩

def conflictReason : Decision → ConflictReason
  | .allow => .allowBlockedByForbid
  | .deny => .denyBlockedByPermit

def groupConflict (group : AccessGroup) (pending : PendingEdits T)
    (failing : Option EntityRef) (resource : EntityRef) (want : Decision) : GroupConflict where
  principal := group.principal
  action := group.action
  failingResource := failing
  blockers := collectBlockers format ctx group pending resource want
  reason := conflictReason want

end Evaluation

section Collapse

def ancestorsOf (hierarchy : ResourceHierarchy) : List AccessOverride → List EntityRef
  | [] => []
  | ov :: rest =>
      match hierarchy.parentOf ov.resource with
      | none => ancestorsOf hierarchy rest
      | some ancestor =>
          ancestor :: (ancestorsOf hierarchy rest).filter fun other => decide (other ≠ ancestor)

def membersOf (hierarchy : ResourceHierarchy) (overrides : List AccessOverride)
    (ancestor : EntityRef) : List AccessOverride :=
  overrides.filter fun ov => decide (hierarchy.parentOf ov.resource = some ancestor)

-- One override for the ancestor, if its descendants are all there with one intent.
def collapseBucket (hierarchy : ResourceHierarchy) (ancestor : EntityRef)
    (members : List AccessOverride) : List AccessOverride :=
  match members with
  | [] => []
  | first :: rest =>
      let sameIntent := (first :: rest).all fun ov => decide (ov.intent = first.intent)
      let known := (hierarchy.descendantsOf ancestor).getD []
      let allCovered := !known.isEmpty &&
        known.all fun d => (first :: rest).any fun ov => decide (ov.resource = d)
      if sameIntent && allCovered then [⟨ancestor, first.intent⟩] else first :: rest

def maybeCollapseToAncestors (hashOrder : List EntityRef → List EntityRef)
    (hierarchy : ResourceHierarchy) (group : AccessGroup) : AccessGroup :=
  if hierarchy.parent.isEmpty then group
  else
    let passthrough := group.overrides.filter fun ov => (hierarchy.parentOf ov.resource).isNone
    let collapsed := (hashOrder (ancestorsOf hierarchy group.overrides)).flatMap fun ancestor =>
      collapseBucket hierarchy ancestor (membersOf hierarchy group.overrides ancestor)
    { group with overrides := passthrough ++ collapsed }

end Collapse

section Plan

inductive CanonicalShape where
  | perOverride
  | wildcard (effect : Effect)
  | carveout (effect : Effect) (resources : List EntityRef)
  deriving DecidableEq

def canonicalShape (group : AccessGroup) : CanonicalShape :=
  match group.default with
  | none => .perOverride
  | some fallback =>
      let carveout := (group.overrides.filter fun ov =>
        decide (ov.intent ≠ fallback) && decide (ov.intent ≠ .default)).map (·.resource)
      match wantOf fallback with
      | none => .perOverride
      | some want =>
          if carveout.isEmpty then .wildcard (effectOf want)
          else .carveout (effectOf want) carveout

def sentinelResource (entityType : String) : EntityRef :=
  let id := "___reconcile_sentinel___"
  if entityType = "Policy::Path" then .path id
  else if entityType = "Policy::NetworkDestination" then .networkDestination id
  else if entityType = "Policy::Tool" then .tool id
  else .path id

def resourceTypeForAction (action : String) : String :=
  if action = "read" ∨ action = "write" then "Policy::Path"
  else if action = "connect" ∨ action = "bind" then "Policy::NetworkDestination"
  else if action = "invoke_tool" then "Policy::Tool"
  else "Policy::Path"

variable {T A : Type} (format : TextFormat T A) (ctx : PlanCtx T A)

def ownsRow (principal : EntityRef) (action : String) (row : StoredPolicy T) : Bool :=
  match parseFirst format row.policyText with
  | none => false
  | some parsed => isOwned parsed principal action row.userId.isNone

def ownedRows (principal : EntityRef) (action : String) (live : List (StoredPolicy T)) :
    List (StoredPolicy T) :=
  live.filter fun row =>
    row.enabled && row.userId.isSome && ownsRow format principal action row

-- An owned row that constrains the resource of the override, or its ancestor.
def coversOverride (gctx : GroupCtx T) (ov : AccessOverride) (effect : Effect)
    (row : StoredPolicy T) : Bool :=
  match parseFirst format row.policyText with
  | none => false
  | some parsed =>
      decide (parsed.effect = effect) && hasNoConditions parsed &&
      (match parsed.resource with
        | .eq uid | .isIn uid => ov.resource.isUid uid ||
            (ctx.hierarchy.parentOf ov.resource).any fun ancestor => ancestor.isUid uid
        | _ => false) &&
      principalConstraintMatches parsed gctx.group.principal &&
      actionConstraintMatches parsed gctx.group.action

def applyCanonicalEmission [DecidableEq T] (owned : List (StoredPolicy T)) (name : String)
    (text : T) (pending : PendingEdits T) : PendingEdits T :=
  let keptId := (owned.find? fun p => decide (p.policyText = text)).map (·.id)
  let pending := pending.delete (owned.filter fun row => decide (some row.id ≠ keptId))
  if keptId.isNone then pending.create ⟨name, text⟩ else pending

def constrainsResource (resource : EntityRef) (row : StoredPolicy T) : Bool :=
  match parseFirst format row.policyText with
  | none => false
  | some parsed => hasNoConditions parsed &&
      match parsed.resource with
      | .eq uid | .isIn uid => resource.isUid uid
      | _ => false

def deleteOwnedForResource (owned : List (StoredPolicy T)) (resource : EntityRef)
    (pending : PendingEdits T) : PendingEdits T :=
  pending.delete (owned.filter (constrainsResource format resource))

def emitOverride (gctx : GroupCtx T) (ov : AccessOverride) (want : Decision)
    (resourceUid : EntityUid) (pending : PendingEdits T) (keptNames : List String) :
    Except PlanFailure (PendingEdits T × List String) :=
  let effect := effectOf want
  let name := perResourcePolicyName format gctx.group.principal gctx.group.action ov.resource effect
  let text := buildPerResourceText format name gctx.group.principal gctx.group.action ov.resource
    effect
  let pending := pending.create ⟨name, text⟩
  match evalNow format ctx gctx pending resourceUid with
  | .error e => .error e
  | .ok after =>
      if after = want then .ok (pending, keptNames ++ [name])
      else .error (.conflict
        (groupConflict format ctx gctx.group pending (some ov.resource) ov.resource want))

def planOverride (gctx : GroupCtx T) (ov : AccessOverride) (want : Decision)
    (pending : PendingEdits T) (keptNames : List String) :
    Except PlanFailure (PendingEdits T × List String) :=
  match ov.resource.toCedarUid format with
  | none => .error .panic
  | some resourceUid =>
      let ownedForResource (effect : Effect) := gctx.owned.find? (coversOverride format ctx gctx ov effect)
      match evalNow format ctx gctx pending resourceUid with
      | .error e => .error e
      | .ok current =>
          if current = want then
            .ok (pending.delete (ownedForResource (effectOf want).flip).toList,
              keptNames ++ (ownedForResource (effectOf want)).toList.map (·.name))
          else
            match ownedForResource (effectOf want).flip with
            | none => emitOverride format ctx gctx ov want resourceUid pending keptNames
            | some row =>
                let pending := pending.delete [row]
                match evalNow format ctx gctx pending resourceUid with
                | .error e => .error e
                | .ok after =>
                    if after = want then .ok (pending, keptNames)
                    else emitOverride format ctx gctx ov want resourceUid pending keptNames

def planOverrides (gctx : GroupCtx T) :
    List AccessOverride → PendingEdits T → List String →
      Except PlanFailure (PendingEdits T × List String)
  | [], pending, keptNames => .ok (pending, keptNames)
  | ov :: rest, pending, keptNames =>
      match wantOf ov.intent with
      | none =>
          planOverrides gctx rest (deleteOwnedForResource format gctx.owned ov.resource pending)
            keptNames
      | some want =>
          match planOverride format ctx gctx ov want pending keptNames with
          | .error e => .error e
          | .ok (pending, keptNames) => planOverrides gctx rest pending keptNames

-- Owned rows that no override has marked or kept are deleted.
def sweep (owned : List (StoredPolicy T)) (keptNames : List String) (pending : PendingEdits T) :
    PendingEdits T :=
  owned.foldl (fun pending row =>
    if row.id ∈ pending.deletes ∨ row.name ∈ keptNames then pending else pending.delete [row]) pending

def verifyResource (gctx : GroupCtx T) (policies : List (Cedar.Policy A))
    (pending : PendingEdits T) (failing : Option EntityRef) (resource : EntityRef)
    (want : Decision) : Except PlanFailure Unit :=
  match resource.toCedarUid format with
  | none => .error .panic
  | some resourceUid =>
      if evalRequest ctx.accepts ctx.env policies
          ⟨gctx.principalUid, gctx.actionUid, resourceUid⟩ = want then .ok ()
      else .error (.conflict (groupConflict format ctx gctx.group pending failing resource want))

def verifyOverrides (gctx : GroupCtx T) (policies : List (Cedar.Policy A))
    (pending : PendingEdits T) : List AccessOverride → Except PlanFailure Unit
  | [] => .ok ()
  | ov :: rest =>
      match wantOf ov.intent with
      | none => verifyOverrides gctx policies pending rest
      | some want =>
          match verifyResource format ctx gctx policies pending (some ov.resource) ov.resource want with
          | .error e => .error e
          | .ok () => verifyOverrides gctx policies pending rest

def verifyGroup (gctx : GroupCtx T) (pending : PendingEdits T) : Except PlanFailure Unit :=
  match effectivePolicySet format ctx pending with
  | none => .error (.conflict (dbConflict gctx.group))
  | some policies =>
      match gctx.group.default with
      | none => verifyOverrides format ctx gctx policies pending gctx.group.overrides
      | some fallback =>
          match wantOf fallback with
          | none => .ok ()
          | some want =>
              let sentinel := sentinelResource (resourceTypeForAction gctx.group.action)
              match verifyResource format ctx gctx policies pending none sentinel want with
              | .error e => .error e
              | .ok () => verifyOverrides format ctx gctx policies pending gctx.group.overrides

def pendingFor [DecidableEq T] (gctx : GroupCtx T) : Except PlanFailure (PendingEdits T) :=
  let group := gctx.group
  let name := groupPolicyName format group.principal group.action
  match canonicalShape group with
  | .wildcard effect => .ok (applyCanonicalEmission gctx.owned name
      (buildWildcardText format name group.principal group.action effect) .new)
  | .carveout effect resources => .ok (applyCanonicalEmission gctx.owned name
      (buildCarveoutText format name group.principal group.action effect resources) .new)
  | .perOverride =>
      match planOverrides format ctx gctx group.overrides .new [] with
      | .error e => .error e
      | .ok (pending, keptNames) => .ok (sweep gctx.owned keptNames pending)

def planForGroup [DecidableEq T] (group : AccessGroup) : Except PlanFailure (List (Edit T)) :=
  let group := maybeCollapseToAncestors ctx.hashOrder ctx.hierarchy group
  match group.principal.toCedarUid format, actionUid format group.action with
  | some principalUid, some actionUid =>
      let gctx : GroupCtx T :=
        ⟨group, ownedRows format group.principal group.action ctx.live, principalUid, actionUid⟩
      match pendingFor format ctx gctx with
      | .error e => .error e
      | .ok pending =>
          match verifyGroup format ctx gctx pending with
          | .error e => .error e
          | .ok () => .ok (pendingToEdits pending)
  | _, _ => .error .panic

end Plan

end Frona.Policy
