import Frona.Credential.Vault
import Frona.Machine.Run

set_option autoImplicit false

namespace Frona.Vault

open Utf8 (Text)

inductive GrantDuration where
  | once
  | hours (count : Nat)
  | days (count : Nat)
  | permanent
deriving DecidableEq

def GrantDuration.expiresAt (now : Int) : GrantDuration → Except AppError (Option Int)
  | .once =>
      .error (.validation
        "Once duration does not create grants; use log_access() instead".toList)
  | .hours count => .ok (some (now + count * 3600))
  | .days count => .ok (some (now + count * 86400))
  | .permanent => .ok none

structure Approval where
  userId : Text
  principal : Principal
  connectionId : Text
  vaultItemId : Text
  duration : GrantDuration
  grantId : Text

def Approval.grant (approval : Approval) (expiresAt : Option Int) : VaultGrant :=
  { id := approval.grantId
    userId := approval.userId
    connectionId := approval.connectionId
    vaultItemId := approval.vaultItemId
    principal := approval.principal
    expiresAt := expiresAt }

def createGrant (tables : Tables) (approval : Approval) : Except AppError (VaultGrant × Tables) := do
  ensureNonUserPrincipal approval.principal
  let expiresAt ← approval.duration.expiresAt tables.now
  let grant := approval.grant expiresAt
  pure (grant, tables.addGrant grant)

def createBinding (tables : Tables) (binding : PrincipalCredentialBinding) :
    Except AppError Tables := do
  ensureNonUserPrincipal binding.principal
  pure (tables.addBinding binding)

def VaultGrant.binding (grant : VaultGrant) (bindingId : Text) (target : CredentialTarget) :
    PrincipalCredentialBinding :=
  { id := bindingId
    userId := grant.userId
    principal := grant.principal
    connectionId := grant.connectionId
    vaultItemId := grant.vaultItemId
    target := target
    scope := .durable
    expiresAt := grant.expiresAt }

def createPair (tables : Tables) (approval : Approval) (bindingId : Text)
    (target : CredentialTarget) : Except AppError Tables := do
  let (grant, granted) ← createGrant tables approval
  createBinding granted (grant.binding bindingId target)

def revokeGrant (tables : Tables) (userId grantId : Text) : Except AppError Tables :=
  match tables.grants.find? (·.id = grantId) with
  | none => .error (.notFound "Grant not found".toList)
  | some grant =>
      if grant.userId ≠ userId then .error (.forbidden "Not your grant".toList)
      else
        let unbound := tables.deleteBindingsForItem userId grant.principal grant.connectionId
          grant.vaultItemId
        .ok (unbound.deleteGrant grantId)

def deleteManagedConnection (tables : Tables) (connectionId : Text) : Except AppError Tables :=
  if connectionId ∈ tables.credentials then
    .error (.conflict "delete the credentials before deleting this managed vault".toList)
  else
    let ungranted := tables.deleteGrantsByConnection connectionId
    .ok ((ungranted.deleteBindingsByConnection connectionId).deleteConnectionRow connectionId)

def deleteConnection (tables : Tables) (userId connectionId : Text) : Except AppError Tables :=
  match tables.connection connectionId with
  | none => .error (.notFound "Vault connection not found".toList)
  | some connection =>
      if connection.systemManaged then
        .error (.validation "Cannot delete system-managed connections".toList)
      else if connection.userId ≠ userId then
        .error (.forbidden "Not your vault connection".toList)
      else if connection.provider = .managed then deleteManagedConnection tables connectionId
      else .ok ((tables.deleteGrantsByConnection connectionId).deleteConnectionRow connectionId)

def deleteGrantsForPrincipal (tables : Tables) (userId : Text) (principal : Principal) :
    Except AppError Tables := do
  ensureNonUserPrincipal principal
  pure (tables.deleteGrantsByPrincipal userId principal)

def deleteBindingsForPrincipal (tables : Tables) (userId : Text) (principal : Principal) :
    Except AppError Tables := do
  ensureNonUserPrincipal principal
  pure (tables.deleteBindingsByPrincipal userId principal)

inductive Event where
  | createPair (approval : Approval) (bindingId : Text) (target : CredentialTarget)
  | createGrant (approval : Approval)
  | revokeGrant (userId grantId : Text)
  | deleteConnection (userId connectionId : Text)
  | deleteGrants (userId : Text) (principal : Principal)
  | deleteBindings (userId : Text) (principal : Principal)
  | tick (seconds : Nat)

/-- Every id is a new one. -/
def Event.fresh (tables : Tables) : Event → Bool
  | .createPair approval bindingId _ =>
      approval.grantId ∉ tables.grants.map (·.id) ∧ bindingId ∉ tables.bindings.map (·.id)
  | .createGrant approval => approval.grantId ∉ tables.grants.map (·.id)
  | _ => true

def Event.call (tables : Tables) : Event → Except AppError Tables
  | .createPair approval bindingId target => Vault.createPair tables approval bindingId target
  | .createGrant approval => (Vault.createGrant tables approval).map (·.2)
  | .revokeGrant userId grantId => Vault.revokeGrant tables userId grantId
  | .deleteConnection userId connectionId => Vault.deleteConnection tables userId connectionId
  | .deleteGrants userId principal => deleteGrantsForPrincipal tables userId principal
  | .deleteBindings userId principal => deleteBindingsForPrincipal tables userId principal
  | .tick seconds => .ok { tables with now := tables.now + seconds }

/-- A durable binding that is selected for a start. -/
def PrincipalCredentialBinding.live (now : Int) (binding : PrincipalCredentialBinding) : Bool :=
  binding.scope = .durable ∧ unexpired now binding.expiresAt

def VaultGrant.backs (now : Int) (grant : VaultGrant) (binding : PrincipalCredentialBinding) :
    Bool :=
  grant.ofItem binding.userId binding.principal binding.connectionId binding.vaultItemId ∧
    unexpired now grant.expiresAt

structure World where
  tables : Tables
  -- Bindings that a revocation took away from a grant that it left. No step reads them.
  stranded : List (VaultGrant × PrincipalCredentialBinding)

def strandedBy (tables next : Tables) : List (VaultGrant × PrincipalCredentialBinding) :=
  next.grants.flatMap fun grant =>
    (tables.bindings.filter fun binding =>
      binding ∉ next.bindings ∧ binding.live next.now ∧ grant.backs next.now binding).map (grant, ·)

def Event.stranded (tables next : Tables) : Event → List (VaultGrant × PrincipalCredentialBinding)
  | .revokeGrant .. => strandedBy tables next
  | _ => []

def step (event : Event) (world : World) : Option World :=
  if event.fresh world.tables then
    match event.call world.tables with
    | .error _ => none
    | .ok next => some ⟨next, world.stranded ++ event.stranded world.tables next⟩
  else none

/-- A step after which nobody misses what was taken away. -/
def Event.Spares (tables : Tables) : Event → Prop
  | .createPair approval _ _ =>
      (tables.connection approval.connectionId).isSome ∨
        approval.duration = .hours 0 ∨ approval.duration = .days 0
  | .revokeGrant _ grantId =>
      ∀ grant ∈ tables.grants, grant.id = grantId →
        ∀ binding ∈ tables.bindings, binding.live tables.now →
          binding.ofItem grant.userId grant.principal grant.connectionId grant.vaultItemId →
            ∀ other ∈ tables.grants, other.backs tables.now binding → other.id = grantId
  | .deleteConnection _ connectionId =>
      ∀ connection ∈ tables.connection connectionId, connection.provider ≠ .managed →
        ∀ binding ∈ tables.bindings, binding.live tables.now → binding.connectionId ≠ connectionId
  | .deleteGrants userId principal =>
      ∀ binding ∈ tables.bindings, binding.live tables.now →
        ¬ (binding.userId = userId ∧ binding.principal = principal)
  | _ => True

instance (tables : Tables) : (event : Event) → Decidable (event.Spares tables)
  | .createPair .. => inferInstanceAs (Decidable (_ ∨ _ ∨ _))
  | .revokeGrant .. => inferInstanceAs (Decidable (∀ _ ∈ tables.grants, _ → ∀ _ ∈ _, _))
  | .deleteConnection .. => inferInstanceAs (Decidable (∀ _ ∈ tables.connection _, _ → _))
  | .deleteGrants .. => inferInstanceAs (Decidable (∀ _ ∈ tables.bindings, _ → _))
  | .createGrant .. | .deleteBindings .. | .tick .. => isTrue trivial

end Frona.Vault
