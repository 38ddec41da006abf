import Frona.Text.Visible

set_option autoImplicit false

namespace Frona.Vault

open Utf8 (Text)
open Frona.Text (trim)

inductive AppError where
  | validation (text : Text)
  | forbidden (text : Text)
  | notFound (text : Text)
  | conflict (text : Text)

inductive PrincipalKind where
  | user
  | agent
  | mcpServer
  | app
  | channel
deriving DecidableEq

structure Principal where
  kind : PrincipalKind
  id : Text
deriving DecidableEq

inductive VaultProviderType where
  | local
  | managed
  | onePassword
  | bitwarden
  | hashicorp
  | keePass
deriving DecidableEq

structure VaultConnection where
  id : Text
  userId : Text
  provider : VaultProviderType
  enabled : Bool
  systemManaged : Bool

structure VaultGrant where
  id : Text
  userId : Text
  connectionId : Text
  vaultItemId : Text
  principal : Principal
  expiresAt : Option Int

inductive VaultField where
  | password
  | username
  | custom (name : Text)
deriving DecidableEq

inductive CredentialTarget where
  | prefixed (envVarPrefix : Text)
  | single (envVar : Text) (field : VaultField)
deriving DecidableEq

inductive BindingScope where
  | durable
  | chat (chatId : Text)
deriving DecidableEq

structure PrincipalCredentialBinding where
  id : Text
  userId : Text
  principal : Principal
  connectionId : Text
  vaultItemId : Text
  target : CredentialTarget
  scope : BindingScope
  expiresAt : Option Int
deriving DecidableEq

structure VaultSecret where
  id : Text
  username : Option Text
  password : Option Text
  -- A map in the order in which it is walked.
  fields : List (Text × Text)

/-- The tables, each in the order of `created_at`, and the clock. -/
structure Tables where
  connections : List VaultConnection
  grants : List VaultGrant
  bindings : List PrincipalCredentialBinding
  -- The connection of each managed credential.
  credentials : List Text
  now : Int

section Projection

-- `str::to_uppercase`.
variable (toUppercase : Text → Text)

def envSuffix (key : Text) : Text :=
  (toUppercase key).map fun c => if c = ' ' then '_' else c

def VaultSecret.toEnvVars (secret : VaultSecret) (envVarPrefix : Text) : List (Text × Text) :=
  let sep := if envVarPrefix.isEmpty then [] else ['_']
  let entry (suffix value : Text) := (envVarPrefix ++ sep ++ suffix, trim value)
  (secret.username.toList.map (entry "USERNAME".toList)) ++
    (secret.password.toList.map (entry "PASSWORD".toList)) ++
    secret.fields.map fun field => entry (envSuffix toUppercase field.1) field.2

def VaultSecret.custom (secret : VaultSecret) (name : Text) : Option Text :=
  ((secret.fields.find? fun field => field.1 = name).or
    (secret.fields.find? fun field => envSuffix toUppercase field.1 = toUppercase name)).map (·.2)

def projectTarget (secret : VaultSecret) : CredentialTarget → Except AppError (List (Text × Text))
  | .prefixed envVarPrefix => .ok (secret.toEnvVars toUppercase envVarPrefix)
  | .single envVar field =>
      let value :=
        match field with
        | .password => secret.password.or (secret.custom toUppercase "PASSWORD".toList)
        | .username => secret.username.or (secret.custom toUppercase "USERNAME".toList)
        | .custom name => secret.custom toUppercase name
      match value with
      | some value => .ok [(envVar, value)]
      | none => .error (.validation ("required field is missing from vault item ".toList ++ secret.id))

end Projection

section Reads

def VaultGrant.ofItem (grant : VaultGrant) (userId : Text) (principal : Principal)
    (connectionId vaultItemId : Text) : Bool :=
  grant.userId = userId ∧ grant.principal = principal ∧ grant.connectionId = connectionId ∧
    grant.vaultItemId = vaultItemId

def PrincipalCredentialBinding.ofItem (binding : PrincipalCredentialBinding) (userId : Text)
    (principal : Principal) (connectionId vaultItemId : Text) : Bool :=
  binding.userId = userId ∧ binding.principal = principal ∧ binding.connectionId = connectionId ∧
    binding.vaultItemId = vaultItemId

variable (tables : Tables) (userId : Text) (principal : Principal)

def unexpired (now : Int) : Option Int → Bool
  | none => true
  | some expiry => decide (now < expiry)

def ensureNonUserPrincipal (principal : Principal) : Except AppError Unit :=
  if principal.kind = .user then
    .error (.validation "vault grants and bindings cannot target the User principal kind".toList)
  else .ok ()

def findForPrincipal : List PrincipalCredentialBinding :=
  tables.bindings.filter fun binding =>
    binding.userId = userId ∧ binding.principal = principal ∧
      unexpired tables.now binding.expiresAt

def findForChat (chatId : Text) : List PrincipalCredentialBinding :=
  (findForPrincipal tables userId principal).filter fun binding =>
    binding.scope = .durable ∨ binding.scope = .chat chatId

def startupBindings (chatId : Option Text) : Except AppError (List PrincipalCredentialBinding) := do
  ensureNonUserPrincipal principal
  match chatId with
  | some chatId => pure (findForChat tables userId principal chatId)
  | none => pure ((findForPrincipal tables userId principal).filter (·.scope = .durable))

def hasGrantForItem (connectionId vaultItemId : Text) : Except AppError Bool := do
  ensureNonUserPrincipal principal
  pure (tables.grants.any fun grant =>
    grant.ofItem userId principal connectionId vaultItemId &&
      unexpired tables.now grant.expiresAt)

def VaultConnection.usable (connection : VaultConnection) : Bool :=
  connection.enabled && (connection.systemManaged || connection.userId = userId)

def Tables.connection (tables : Tables) (id : Text) : Option VaultConnection :=
  tables.connections.find? (·.id = id)

def denied (binding : PrincipalCredentialBinding) : AppError :=
  .forbidden ("vault binding ".toList ++ binding.id ++ " is no longer authorized".toList)

end Reads

section Writes

variable (tables : Tables)

def Tables.addGrant (grant : VaultGrant) : Tables :=
  { tables with grants := tables.grants ++ [grant] }

def Tables.addBinding (binding : PrincipalCredentialBinding) : Tables :=
  { tables with bindings := tables.bindings ++ [binding] }

def Tables.deleteGrant (id : Text) : Tables :=
  { tables with grants := tables.grants.filter (·.id ≠ id) }

def Tables.deleteGrantsByPrincipal (userId : Text) (principal : Principal) : Tables :=
  { tables with
    grants := tables.grants.filter fun grant =>
      ¬ (grant.userId = userId ∧ grant.principal = principal) }

def Tables.deleteGrantsByConnection (connectionId : Text) : Tables :=
  { tables with grants := tables.grants.filter (·.connectionId ≠ connectionId) }

def Tables.deleteBindingsByPrincipal (userId : Text) (principal : Principal) : Tables :=
  { tables with
    bindings := tables.bindings.filter fun binding =>
      ¬ (binding.userId = userId ∧ binding.principal = principal) }

def Tables.deleteBindingsForItem (userId : Text) (principal : Principal)
    (connectionId vaultItemId : Text) : Tables :=
  { tables with
    bindings := tables.bindings.filter fun binding =>
      ¬ binding.ofItem userId principal connectionId vaultItemId }

def Tables.deleteBindingsByChat (chatId : Text) : Tables :=
  { tables with bindings := tables.bindings.filter (·.scope ≠ .chat chatId) }

def Tables.deleteBindingsByConnection (connectionId : Text) : Tables :=
  { tables with bindings := tables.bindings.filter (·.connectionId ≠ connectionId) }

def Tables.deleteConnectionRow (id : Text) : Tables :=
  { tables with connections := tables.connections.filter (·.id ≠ id) }

def Tables.setEnabled (id : Text) (enabled : Bool) : Tables :=
  { tables with
    connections := tables.connections.map fun connection =>
      if connection.id = id then { connection with enabled := enabled } else connection }

end Writes

section Authorization

variable (tables : Tables) (userId : Text) (principal : Principal)
  (binding : PrincipalCredentialBinding) (chatId : Option Text)

/-- The first read of `authorize_binding`: the row is the one that the caller has. -/
def authorizeRow : Except AppError PrincipalCredentialBinding :=
  match tables.bindings.find? (·.id = binding.id) with
  | none => .error (denied binding)
  | some current =>
      if current.userId ≠ userId ∨ current.principal ≠ principal ∨
          current.connectionId ≠ binding.connectionId ∨
          current.vaultItemId ≠ binding.vaultItemId ∨ current.target ≠ binding.target ∨
          current.scope ≠ binding.scope ∨ unexpired tables.now current.expiresAt = false then
        .error (denied binding)
      else .ok current

def authorizeScope (current : PrincipalCredentialBinding) : Except AppError Unit :=
  match current.scope with
  | .chat expected => if chatId = some expected then .ok () else .error (denied binding)
  | .durable => do
      let granted ← hasGrantForItem tables userId principal current.connectionId current.vaultItemId
      if granted then .ok () else .error (denied binding)

def authorizeConnection (current : PrincipalCredentialBinding) : Except AppError Unit :=
  match tables.connection current.connectionId with
  | none => .error (denied binding)
  | some connection => if connection.usable userId then .ok () else .error (denied binding)

def authorizeBinding : Except AppError Unit := do
  ensureNonUserPrincipal principal
  let current ← authorizeRow tables userId principal binding
  authorizeScope tables userId principal binding chatId current
  authorizeConnection tables userId binding current

end Authorization

section Resolve

variable (toUppercase : Text → Text)
  -- Opens a connection's integration, and asks it for an item.
  (provider : VaultConnection → Text → Except AppError VaultSecret)
  (tables : Tables) (userId : Text) (principal : Principal) (chatId : Option Text)

/-- The connection that `get_provider` opens. -/
def openConnection (connectionId : Text) : Except AppError VaultConnection :=
  match tables.connection connectionId with
  | none => .error (.notFound "Vault connection not found".toList)
  | some connection =>
      if !connection.systemManaged && connection.userId ≠ userId then
        .error (.forbidden "Not your vault connection".toList)
      else if !connection.enabled then
        .error (.validation "Vault connection is disabled".toList)
      else .ok connection

def getSecret (connectionId vaultItemId : Text) : Except AppError VaultSecret := do
  let connection ← openConnection tables userId connectionId
  provider connection vaultItemId

def resolveBinding (binding : PrincipalCredentialBinding) : Except AppError VaultSecret := do
  authorizeBinding tables userId principal binding chatId
  let secret ← getSecret provider tables userId binding.connectionId binding.vaultItemId
  authorizeBinding tables userId principal binding chatId
  let _ ← projectTarget toUppercase secret binding.target
  pure secret

def unresolved (binding : PrincipalCredentialBinding) : AppError :=
  .validation ("required vault binding ".toList ++ binding.id ++ " for item ".toList ++
    binding.vaultItemId ++ " could not be resolved".toList)

def resolveFields (binding : PrincipalCredentialBinding) : Except AppError (List (Text × Text)) :=
  match resolveBinding toUppercase provider tables userId principal chatId binding with
  | .error _ => .error (unresolved binding)
  | .ok secret => projectTarget toUppercase secret binding.target

def sameIds (bindings others : List PrincipalCredentialBinding) : Bool :=
  bindings.all (fun binding => others.any (·.id = binding.id)) &&
    others.all fun other => bindings.any (·.id = other.id)

/-- `resolve_env` while nothing else is written. -/
def resolveEnv : Except AppError (List (Text × Text)) := do
  let bindings ← startupBindings tables userId principal chatId
  let fields ← bindings.mapM (resolveFields toUppercase provider tables userId principal chatId)
  bindings.forM (authorizeBinding tables userId principal · chatId)
  let current ← startupBindings tables userId principal chatId
  if sameIds current bindings then pure fields.flatten
  else .error (.conflict "vault bindings changed during startup".toList)

end Resolve

end Frona.Vault
