import Mathlib.Data.List.Basic
import Frona.Text.Utf8

set_option autoImplicit false

namespace Frona.Auth

open Utf8 (Text)

inductive AuthErrorCode where
  | tokenInvalid
  | tokenExpired
  | accountDeactivated
  | invalidCredentials

inductive AppError where
  | auth (message : Text) (code : AuthErrorCode)
  | validation (message : Text)
  | notFound (message : Text)
  -- The rest of this text is the database's own.
  | database

inductive TokenType where
  | access
  | refresh
  | pat
  | ephemeral
  deriving DecidableEq

def TokenType.asStr : TokenType → Text
  | access => "access".toList
  | refresh => "refresh".toList
  | pat => "pat".toList
  | ephemeral => "ephemeral".toList

theorem TokenType.asStr_inj (left right : TokenType) : left.asStr = right.asStr ↔ left = right := by
  cases left <;> cases right <;> decide

def TokenType.isStateless (type : TokenType) : Bool := decide (type = ephemeral)

inductive PrincipalKind where
  | user
  | agent
  | mcpServer
  | app
  | channel

structure Principal where
  kind : PrincipalKind
  id : Text

def Principal.ofUser (id : Text) : Principal := ⟨.user, id⟩

def agentTriggerScope : Text := "agent:trigger".toList

def appGateScope : Text := "app:gate".toList

def appSessionScope : Text := "app:session".toList

structure User where
  id : Text
  handle : Text
  email : Text
  passwordHash : Text
  deactivated : Bool

structure Claims where
  sub : Text
  handle : Text
  email : Text
  exp : Int
  iat : Int
  tokenId : Text
  tokenType : Text
  principal : Principal
  scopes : Option (List Text)
  extensions : Option Text

/-- A row of `api_token`. Its times are nanoseconds, those of the claims seconds. -/
structure ApiToken where
  id : Text
  userId : Text
  name : Text
  tokenType : TokenType
  principal : Principal
  scopes : List Text
  shown : Text
  expiresAt : Int
  refreshPairId : Option Text
  createdAt : Int

structure CreateTokenRequest where
  tokenType : TokenType
  principal : Principal
  ttlSecs : Int
  name : Text
  scopes : List Text
  refreshPairId : Option Text
  extensions : Option Text

structure CreatePatRequest where
  name : Text
  expiresInDays : Option Nat
  scopes : Option (List Text)
  principal : Option Principal

structure TokenConfig where
  accessExpirySecs : Int
  refreshExpirySecs : Int

def nanos : Int := 1000000000

def daySecs : Nat := 86400

def appGateCodeTtlSecs : Int := 60

def maxU64 : Nat := 2 ^ 64 - 1

-- A lifetime is kept as `u64` and added as `i64`.
def asI64 (n : Nat) : Int := if n < 2 ^ 63 then n else n - 2 ^ 64

/-- The ways to a token. All of them go through `create_token`. -/
inductive Mint where
  | sessionAccess (pairId : Text)
  | sessionRefresh (pairId : Text)
  | accessToken (name : Text)
  | appGateCode
  | appSession
  | pat (request : CreatePatRequest)
  -- The token of one run of a sandbox.
  | ephemeral (principal : Principal) (ttlSecs : Int)
  -- The token of one call.
  | voice (principal : Principal) (ttlSecs : Int) (name extensions : Text)

section Requests

variable (config : TokenConfig) (user : User)

-- The three ways to an access token of the user's own differ in name, scopes and pair.
def accessRequest (name : Text) (scopes : List Text) (pairId : Option Text) :
    CreateTokenRequest where
  tokenType := .access
  principal := Principal.ofUser user.id
  ttlSecs := config.accessExpirySecs
  name := name
  scopes := scopes
  refreshPairId := pairId
  extensions := none

def refreshRequest (pairId : Text) : CreateTokenRequest where
  tokenType := .refresh
  principal := Principal.ofUser user.id
  ttlSecs := config.refreshExpirySecs
  name := "refresh".toList
  scopes := []
  refreshPairId := some pairId
  extensions := none

def appGateCodeRequest : CreateTokenRequest where
  tokenType := .ephemeral
  principal := Principal.ofUser user.id
  ttlSecs := appGateCodeTtlSecs
  name := "app_gate".toList
  scopes := [appGateScope]
  refreshPairId := none
  extensions := none

def patRequest (request : CreatePatRequest) : CreateTokenRequest where
  tokenType := .pat
  principal := request.principal.getD (Principal.ofUser user.id)
  ttlSecs := asI64 (min (request.expiresInDays.getD 30 * daySecs) maxU64)
  name := request.name
  scopes := request.scopes.getD []
  refreshPairId := none
  extensions := none

def Mint.request : Mint → CreateTokenRequest
  | sessionAccess pairId => accessRequest config user "session".toList [] (some pairId)
  | sessionRefresh pairId => refreshRequest config user pairId
  | accessToken name => accessRequest config user name [] none
  | appGateCode => appGateCodeRequest user
  | appSession => accessRequest config user "app_session".toList [appSessionScope] none
  | pat request => patRequest user request
  | ephemeral principal ttlSecs => ⟨.ephemeral, principal, ttlSecs, [], [], none, none⟩
  | voice principal ttlSecs name extensions =>
      ⟨.access, principal, ttlSecs, name, [], none, some extensions⟩

end Requests

structure Issued where
  jwt : Text
  claims : Claims
  mint : Mint

structure TokenService where
  now : Int
  rows : List ApiToken
  issued : List Issued

def tokenPrefix (jwt : Text) : Text := jwt.take 12 ++ "...".toList

namespace TokenService

section Create

variable (service : TokenService) (config : TokenConfig) (user : User) (mint : Mint)
  (id jwt : Text)

def expiresAt (request : CreateTokenRequest) : Int := service.now + request.ttlSecs * nanos

def claimsFor (request : CreateTokenRequest) : Claims where
  sub := user.id
  handle := user.handle
  email := user.email
  exp := service.expiresAt request / nanos
  iat := service.now / nanos
  tokenId := id
  tokenType := request.tokenType.asStr
  principal := request.principal
  scopes := if request.scopes = [] then none else some request.scopes
  extensions := request.extensions

def rowFor (request : CreateTokenRequest) : ApiToken where
  id := id
  userId := user.id
  name := request.name
  tokenType := request.tokenType
  principal := request.principal
  scopes := request.scopes
  shown := tokenPrefix jwt
  expiresAt := service.expiresAt request
  refreshPairId := request.refreshPairId
  createdAt := service.now

/-- `create_token`: a text is signed, and a row stands for it unless the type has none. -/
def createToken : TokenService :=
  let request := mint.request config user
  { service with
    issued := ⟨jwt, service.claimsFor user id request, mint⟩ :: service.issued
    rows := if request.tokenType.isStateless then service.rows
      else service.rowFor user id jwt request :: service.rows }

end Create

section Repository

variable (service : TokenService)

def findActiveById (id : Text) : Option ApiToken :=
  service.rows.find? fun row => row.id = id ∧ service.now < row.expiresAt

def delete (id : Text) : TokenService :=
  { service with rows := service.rows.filter fun row => row.id ≠ id }

def deleteExpired : TokenService :=
  { service with rows := service.rows.filter fun row => service.now < row.expiresAt }

def deleteByRefreshPair (pairId : Text) : Bool × TokenService :=
  (service.rows.any fun row => row.refreshPairId = some pairId,
    { service with rows := service.rows.filter fun row => row.refreshPairId ≠ some pairId })

def deleteByUserId (userId : Text) : TokenService :=
  { service with rows := service.rows.filter fun row => row.userId ≠ userId }

end Repository

section Validate

variable (service : TokenService)

def invalid (message : String) : AppError := .auth message.toList .tokenInvalid

-- The seconds that a token is accepted for beyond its own time.
def leeway : Int := 60

/-- `JwtService::verify`. -/
def verify (token : Text) : Except AppError Claims :=
  match service.issued.find? fun issued => issued.jwt = token with
  | none => .error (invalid "Invalid token")
  | some issued =>
      if issued.claims.exp < service.now / nanos - leeway then
        .error (.auth "Session expired".toList .tokenExpired)
      else .ok issued.claims

def validateAny (token : Text) : Except AppError Claims :=
  match service.verify token with
  | .error error => .error error
  | .ok claims =>
      if claims.tokenType = TokenType.ephemeral.asStr then .ok claims
      else match service.findActiveById claims.tokenId with
      | none => .error (invalid "Token revoked")
      | some _ => .ok claims

def hasScope (claims : Claims) (scope : Text) : Bool :=
  match claims.scopes with
  | none => false
  | some scopes => decide (scope ∈ scopes)

def isTriggerOnly (claims : Claims) : Bool := hasScope claims agentTriggerScope

def isAppScoped (claims : Claims) : Bool :=
  hasScope claims appGateScope || hasScope claims appSessionScope

def apiTokenTypes : List TokenType := [.access, .pat, .ephemeral]

def wrongType (claims : Claims) : AppError :=
  .auth ("A ".toList ++ claims.tokenType ++ " token cannot be used here".toList) .tokenInvalid

def requireType (claims : Claims) (allowed : List TokenType) : Except AppError Claims :=
  if ∃ type ∈ allowed, type.asStr = claims.tokenType then .ok claims
  else .error (wrongType claims)

def rejectAppScoped (claims : Claims) : Except AppError Claims :=
  if isAppScoped claims = true then .error (invalid "This token can only be used for apps")
  else .ok claims

def validate (token : Text) : Except AppError Claims := do
  let claims ← service.validateAny token
  if isTriggerOnly claims = true then
    .error (invalid "This token can only trigger an agent")
  else
    let _ ← rejectAppScoped claims
    requireType claims apiTokenTypes

def validateRefresh (token : Text) : Except AppError Claims := do
  let claims ← service.validateAny token
  requireType claims [.refresh]

def validateScoped (token scope : Text) : Except AppError Claims := do
  let claims ← service.validateAny token
  if hasScope claims scope = true then .ok claims
  else .error (invalid "Token is not valid here")

def validateAppSession (token : Text) : Except AppError Claims :=
  service.validateScoped token appSessionScope

def validateAppGateCode (token : Text) : Except AppError Claims :=
  service.validateScoped token appGateScope

def validateAgentTrigger (token : Text) : Except AppError Claims := do
  let claims ← service.validateAny token
  let _ ← rejectAppScoped claims
  requireType claims apiTokenTypes

end Validate

end TokenService

end Frona.Auth
