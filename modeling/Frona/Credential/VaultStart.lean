import Frona.Credential.Vault
import Frona.Machine.Run

set_option autoImplicit false

namespace Frona.Vault.Start

open Utf8 (Text)

/-- The part of `authorize_binding` that comes next. -/
inductive Check where
  | row
  | scope (current : PrincipalCredentialBinding)
  | connection (current : PrincipalCredentialBinding)

inductive Stage where
  | before (check : Check)
  | opening
  | fetching (connection : VaultConnection)
  | after (secret : VaultSecret) (check : Check)

structure Resolved where
  binding : PrincipalCredentialBinding
  secret : VaultSecret
  fields : List (Text × Text)

inductive Phase where
  | selecting
  | resolving (resolved : List Resolved) (binding : PrincipalCredentialBinding) (stage : Stage)
      (rest : List PrincipalCredentialBinding)
  | confirming (confirmed : List Resolved) (pending : Resolved) (check : Check)
      (rest : List Resolved)
  | comparing (confirmed : List Resolved)
  -- The bindings that the last selection gave are kept for the reader.
  | delivered (resolved : List Resolved) (current : List PrincipalCredentialBinding)
  | failed (error : AppError)

def Phase.finished : Phase → Bool
  | .delivered .. | .failed _ => true
  | _ => false

def Phase.env : Phase → Option (List (Text × Text))
  | .delivered resolved _ => some (resolved.flatMap (·.fields))
  | _ => none

section Call

variable (toUppercase : Text → Text) (userId : Text) (principal : Principal)
  (chatId : Option Text) (tables : Tables)

/-- One part of `authorize_binding`, and the part that is left. -/
def Check.go (binding : PrincipalCredentialBinding) : Check → Except AppError (Option Check)
  | .row => do
      ensureNonUserPrincipal principal
      let current ← authorizeRow tables userId principal binding
      pure (some (.scope current))
  | .scope current => do
      authorizeScope tables userId principal binding chatId current
      pure (some (.connection current))
  | .connection current => do
      authorizeConnection tables userId binding current
      pure none

def confirmNext (confirmed : List Resolved) : List Resolved → Phase
  | [] => .comparing confirmed
  | pending :: rest => .confirming confirmed pending .row rest

def resolveNext (resolved : List Resolved) : List PrincipalCredentialBinding → Phase
  | [] => confirmNext [] resolved
  | binding :: rest => .resolving resolved binding (.before .row) rest

def Phase.go (answer : Except AppError VaultSecret) : Phase → Phase
  | .selecting =>
      match startupBindings tables userId principal chatId with
      | .error error => .failed error
      | .ok bindings => resolveNext [] bindings
  | .resolving resolved binding (.before check) rest =>
      match check.go userId principal chatId tables binding with
      | .error _ => .failed (unresolved binding)
      | .ok (some check) => .resolving resolved binding (.before check) rest
      | .ok none => .resolving resolved binding .opening rest
  | .resolving resolved binding .opening rest =>
      match openConnection tables userId binding.connectionId with
      | .error _ => .failed (unresolved binding)
      | .ok connection => .resolving resolved binding (.fetching connection) rest
  | .resolving resolved binding (.fetching _) rest =>
      match answer with
      | .error _ => .failed (unresolved binding)
      | .ok secret => .resolving resolved binding (.after secret .row) rest
  | .resolving resolved binding (.after secret check) rest =>
      match check.go userId principal chatId tables binding with
      | .error _ => .failed (unresolved binding)
      | .ok (some check) => .resolving resolved binding (.after secret check) rest
      | .ok none =>
          match projectTarget toUppercase secret binding.target with
          | .error _ => .failed (unresolved binding)
          | .ok fields => resolveNext (resolved ++ [⟨binding, secret, fields⟩]) rest
  | .confirming confirmed pending check rest =>
      match check.go userId principal chatId tables pending.binding with
      | .error error => .failed error
      | .ok (some check) => .confirming confirmed pending check rest
      | .ok none => confirmNext (confirmed ++ [pending]) rest
  | .comparing confirmed =>
      match startupBindings tables userId principal chatId with
      | .error error => .failed error
      | .ok current =>
          if sameIds current (confirmed.map (·.binding)) then .delivered confirmed current
          else .failed (.conflict "vault bindings changed during startup".toList)
  | phase => phase

def Phase.fetch (answer : Except AppError VaultSecret) :
    Phase → Option (PrincipalCredentialBinding × VaultSecret)
  | .resolving _ binding (.fetching _) _ => answer.toOption.map (binding, ·)
  | _ => none

end Call

/-- A statement of another call. `revoke_grant`, `delete_connection` and the others make one or two
of them. -/
inductive Write where
  | addGrant (grant : VaultGrant)
  | addBinding (binding : PrincipalCredentialBinding)
  | deleteGrant (id : Text)
  | deleteGrantsByPrincipal (userId : Text) (principal : Principal)
  | deleteGrantsByConnection (connectionId : Text)
  | deleteBindingsForItem (userId : Text) (principal : Principal) (connectionId vaultItemId : Text)
  | deleteBindingsByPrincipal (userId : Text) (principal : Principal)
  | deleteBindingsByChat (chatId : Text)
  | deleteConnectionRow (id : Text)
  -- The transaction of the managed vault.
  | deleteManagedConnection (connectionId : Text)
  | setEnabled (id : Text) (enabled : Bool)
  | tick (seconds : Nat)

def Write.apply (tables : Tables) : Write → Tables
  | .addGrant grant => tables.addGrant grant
  | .addBinding binding => tables.addBinding binding
  | .deleteGrant id => tables.deleteGrant id
  | .deleteGrantsByPrincipal userId principal => tables.deleteGrantsByPrincipal userId principal
  | .deleteGrantsByConnection connectionId => tables.deleteGrantsByConnection connectionId
  | .deleteBindingsForItem userId principal connectionId vaultItemId =>
      tables.deleteBindingsForItem userId principal connectionId vaultItemId
  | .deleteBindingsByPrincipal userId principal =>
      tables.deleteBindingsByPrincipal userId principal
  | .deleteBindingsByChat chatId => tables.deleteBindingsByChat chatId
  | .deleteConnectionRow id => tables.deleteConnectionRow id
  | .deleteManagedConnection connectionId =>
      ((tables.deleteGrantsByConnection connectionId).deleteBindingsByConnection
        connectionId).deleteConnectionRow connectionId
  | .setEnabled id enabled => tables.setEnabled id enabled
  | .tick seconds => { tables with now := tables.now + seconds }

def Write.adds : Write → Option Text
  | .addBinding binding => some binding.id
  | _ => none

inductive Event where
  -- The provider's answer is read where a secret is fetched.
  | go (answer : Except AppError VaultSecret)
  -- The database fails.
  | abort (error : AppError)
  | write (write : Write)

structure World where
  tables : Tables
  -- The ids that bindings ever had.
  used : List Text
  phase : Phase
  -- No step of the call reads what follows: the secrets that it fetched, and the bindings that were
  -- authorized at some moment since the last of them.
  fetched : List (PrincipalCredentialBinding × VaultSecret)
  valid : List PrincipalCredentialBinding

section Steps

variable (toUppercase : Text → Text) (userId : Text) (principal : Principal)
  (chatId : Option Text)

def backed (tables : Tables) (binding : PrincipalCredentialBinding) : Bool :=
  match binding.scope with
  | .chat expected => chatId = some expected
  | .durable => tables.grants.any fun grant =>
      grant.ofItem userId principal binding.connectionId binding.vaultItemId &&
        unexpired tables.now grant.expiresAt

def connected (tables : Tables) (binding : PrincipalCredentialBinding) : Bool :=
  (tables.connection binding.connectionId).any (·.usable userId)

def authorized (tables : Tables) (binding : PrincipalCredentialBinding) : Bool :=
  binding.userId = userId ∧ binding.principal = principal ∧
    unexpired tables.now binding.expiresAt ∧ backed userId principal chatId tables binding ∧
      connected userId tables binding

def authorizedNow (tables : Tables) : List PrincipalCredentialBinding :=
  tables.bindings.filter (authorized userId principal chatId tables)

def step (event : Event) (world : World) : Option World :=
  match event with
  | .go answer =>
      if world.phase.finished then none
      else
        let phase := world.phase.go toUppercase userId principal chatId world.tables answer
        match world.phase.fetch answer with
        | some secret =>
            some { world with
              phase := phase
              fetched := world.fetched ++ [secret]
              valid := authorizedNow userId principal chatId world.tables }
        | none => some { world with phase := phase }
  | .abort error => if world.phase.finished then none else some { world with phase := .failed error }
  | .write write =>
      if write.adds.any (· ∈ world.used) then none
      else
        let tables := write.apply world.tables
        some { world with
          tables := tables
          used := world.used ++ write.adds.toList
          valid :=
            if world.phase.finished then world.valid
            else world.valid ++ authorizedNow userId principal chatId tables }

def World.begin (tables : Tables) : World where
  tables := tables
  used := tables.bindings.map (·.id)
  phase := .selecting
  fetched := []
  valid := authorizedNow userId principal chatId tables

def World.Contributes (world : World) (binding : PrincipalCredentialBinding)
    (fields : List (Text × Text)) : Prop :=
  (∃ secret, (binding, secret) ∈ world.fetched ∧
    projectTarget toUppercase secret binding.target = .ok fields) ∧ binding ∈ world.valid

structure World.Sound (world : World) : Prop where
  authorized : ∀ env, world.phase.env = some env → ∀ pair ∈ env, ∃ binding fields,
    world.Contributes toUppercase binding fields ∧ pair ∈ fields
  complete : ∀ resolved current, world.phase = .delivered resolved current →
    ∀ binding ∈ current, ∃ fields, world.Contributes toUppercase binding fields ∧
      ∀ pair ∈ fields, pair ∈ resolved.flatMap (·.fields)

/-- No statement switches on the connection of a durable binding that lost its grant between the
last two reads of its last check, and was not authorized since the last secret. -/
def Event.calm (event : Event) (world : World) : Bool :=
  match event, world.phase with
  | .write (.setEnabled id true), .confirming _ pending (.connection _) _ =>
      pending.binding.connectionId ≠ id || connected userId world.tables pending.binding ||
        pending.binding ∈ world.valid || backed userId principal chatId world.tables pending.binding
  | _, _ => true

end Steps

end Frona.Vault.Start
