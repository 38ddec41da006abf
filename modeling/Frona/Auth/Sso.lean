import Frona.Auth.Handles
import Frona.Machine.Run

set_option autoImplicit false

namespace Frona.Sso

open Utf8 (Text)
open Frona.Text (trim)

inductive AuthErrorCode where
  | emailNotVerified
  | accountDeactivated
  | accountConflict

inductive AppError where
  | auth (message : Text) (code : AuthErrorCode)
  | internal (message : Text)
  -- A unique index refuses the row. The rest of this text is the database's own.
  | database

structure ProviderEmail where
  address : Text
  verified : Bool

structure ExternalLogin where
  issuer : Text
  subject : Text
  name : Option Text
  email : Option ProviderEmail

structure ExternalUserinfo where
  email : Option ProviderEmail
  name : Option Text

structure OAuthIdentity where
  id : Text
  userId : Text
  issuer : Option Text
  externalSub : Text
  externalEmail : Option Text
  externalName : Option Text
  deriving DecidableEq

structure User where
  id : Text
  handle : Handle
  email : Text
  name : Text
  deactivated : Bool
  deriving DecidableEq

structure Store where
  users : List User
  identities : List OAuthIdentity
  -- The accounts that the stored tokens are for
  tokens : List Text

/-- The settings of the service. -/
structure OAuthService where
  allowUnknownEmailVerification : Bool
  signupsMatchEmail : Bool

-- `str::to_lowercase`
variable (lowercase : Text → Text)

namespace Store

variable (store : Store)

def findById (id : Text) : Option User := store.users.find? fun user => user.id = id

def findByEmail (email : Text) : Option User :=
  store.users.find? fun user => lowercase user.email = lowercase (trim email)

def hasHandle (handle : Handle) : Bool := store.users.any fun user => user.handle = handle

def findIdentity (issuer externalSub : Text) : Option OAuthIdentity :=
  (store.identities.find? fun identity =>
    identity.externalSub = externalSub ∧ identity.issuer = some issuer).or
  (store.identities.find? fun identity =>
    identity.externalSub = externalSub ∧ identity.issuer = none)

def deleteIdentity (id : Text) : Store :=
  { store with identities := store.identities.filter fun identity => identity.id ≠ id }

def updateIdentity (identity : OAuthIdentity) : Store :=
  { store with identities := store.identities.map fun row =>
      if row.id = identity.id then identity else row }

def createIdentity (identity : OAuthIdentity) : Option Store :=
  if store.identities.any fun row => row.id = identity.id ∨
      (row.issuer ≠ none ∧ row.issuer = identity.issuer ∧
        row.externalSub = identity.externalSub) then none
  else some { store with identities := store.identities ++ [identity] }

def createUser (user : User) : Option Store :=
  if store.users.any fun row => row.id = user.id ∨ row.email = user.email ∨
      row.handle = user.handle then none
  else some { store with users := store.users ++ [user] }

end Store

section Messages

def notVerified : AppError :=
  .auth "Email not verified by SSO provider".toList .emailNotVerified

def deactivated : AppError := .auth "Account deactivated".toList .accountDeactivated

def conflict (message : Text) : AppError := .auth message .accountConflict

def boundElsewhere : AppError :=
  conflict "This email already belongs to an account linked to a different SSO identity.".toList

def emailTaken : AppError :=
  conflict ("An account with this email already exists, and the SSO provider has not ".toList ++
    "verified the address (or linking by email is turned off). Sign in with your existing ".toList ++
    "method or ask an admin to link it.".toList)

def noHandle : AppError := .internal "Could not generate unique handle".toList

end Messages

namespace OAuthService

variable (service : OAuthService)

def checkEmailClaim (login : ExternalLogin) : Option AppError :=
  match login.email with
  | some email =>
      if email.verified = false ∧ service.allowUnknownEmailVerification = false then
        some notVerified
      else none
  | none => none

def knownUser (store : Store) (login : ExternalLogin) : Store × Except AppError (Option User) :=
  match store.findIdentity login.issuer login.subject with
  | none => (store, .ok none)
  | some identity =>
      match store.findById identity.userId with
      | none => (store.deleteIdentity identity.id, .ok none)
      | some user =>
          if user.deactivated then (store, .error deactivated)
          else if identity.issuer = none then
            (store.updateIdentity { identity with issuer := some login.issuer }, .ok (some user))
          else (store, .ok (some user))

def needsUserinfo (login : ExternalLogin) : Bool :=
  service.signupsMatchEmail && !login.email.any ProviderEmail.verified

def emails (login : ExternalLogin) (userinfo : Option ExternalUserinfo) : List ProviderEmail :=
  login.email.toList ++ (userinfo.bind ExternalUserinfo.email).toList

def matched (store : Store) (login : ExternalLogin) (userinfo : Option ExternalUserinfo) :
    Option User :=
  if service.signupsMatchEmail then
    ((emails login userinfo).filter ProviderEmail.verified).findSome? fun email =>
      store.findByEmail lowercase email.address
  else none

def placeholder (login : ExternalLogin) : Text :=
  "sso-".toList ++ login.subject ++ "@unknown".toList

def identityOf (login : ExternalLogin) (userinfo : Option ExternalUserinfo) (id userId : Text) :
    OAuthIdentity where
  id := id
  userId := userId
  issuer := some login.issuer
  externalSub := login.subject
  externalEmail := (emails login userinfo).head?.map ProviderEmail.address
  externalName := login.name.or (userinfo.bind ExternalUserinfo.name)

def newUser (store : Store) (login : ExternalLogin) (userinfo : Option ExternalUserinfo)
    (userId : Text) : Option User :=
  let externalEmail := (emails login userinfo).head?.map ProviderEmail.address
  let externalName := login.name.or (userinfo.bind ExternalUserinfo.name)
  let baseHandle := match externalEmail with
    | some email => deriveHandleFromEmail lowercase email
    | none => "sso-".toList ++ login.subject
  (generateUniqueHandle store.hasHandle baseHandle).map fun handle =>
    { id := userId
      handle := handle
      email := externalEmail.getD (placeholder login)
      name := (externalName.or (externalEmail.map fun email =>
        email.takeWhile fun c => c != '@')).getD "SSO User".toList
      deactivated := false }

-- An account that has another subject at this provider, or may have one
def alreadyBound (store : Store) (login : ExternalLogin) (user : User) : Bool :=
  store.identities.any fun identity => identity.userId = user.id ∧
    identity.externalSub ≠ login.subject ∧
    (identity.issuer = none ∨ identity.issuer = some login.issuer)

def link (store : Store) (login : ExternalLogin) (userinfo : Option ExternalUserinfo)
    (user : User) (identityId : Text) : Store × Except AppError (User × Bool) :=
  if user.deactivated then (store, .error deactivated)
  else if alreadyBound store login user then (store, .error boundElsewhere)
  else match store.createIdentity (identityOf login userinfo identityId user.id) with
  | none => (store, .error .database)
  | some linked =>
      ({ linked with tokens := linked.tokens.filter fun owner => owner ≠ user.id },
        .ok (user, false))

def create (store : Store) (login : ExternalLogin) (userinfo : Option ExternalUserinfo)
    (userId identityId : Text) : Store × Except AppError (User × Bool) :=
  if (emails login userinfo).any fun email =>
      (store.findByEmail lowercase email.address).isSome then
    (store, .error emailTaken)
  else match newUser lowercase store login userinfo userId with
  | none => (store, .error noHandle)
  | some user =>
      match store.createUser user with
      | none => (store, .error .database)
      | some created =>
          match created.createIdentity (identityOf login userinfo identityId user.id) with
          | none => (created, .error .database)
          | some linked => (linked, .ok (user, true))

def signUp (store : Store) (login : ExternalLogin) (userinfo : Option ExternalUserinfo)
    (userId identityId : Text) : Store × Except AppError (User × Bool) :=
  match service.matched lowercase store login userinfo with
  | some user => link store login userinfo user identityId
  | none => create lowercase store login userinfo userId identityId

end OAuthService

section Runs

/-- What a login got. No step reads these. -/
structure Entry where
  service : OAuthService
  login : ExternalLogin
  userinfo : Option ExternalUserinfo
  before : Store
  after : Store
  result : Except AppError (User × Bool)

structure World where
  service : OAuthService
  store : Store
  -- The logins of which `known_user` knows nothing
  waiting : List ExternalLogin
  log : List Entry

inductive Event where
  | callback (login : ExternalLogin)
  -- The rest of a callback, with what the endpoint says, if anything
  | finish (index : Nat) (userinfo : Option ExternalUserinfo) (userId identityId : Text)
  | restart (service : OAuthService)
  -- Accounts are registered, changed, deactivated and removed, and tokens come and go.
  | accounts (users : List User) (tokens : List Text)
  | removeIdentities (userId : Text)

def World.callback (world : World) (login : ExternalLogin) : World :=
  match world.service.checkEmailClaim login with
  | some error =>
      { world with log := world.log ++
          [⟨world.service, login, none, world.store, world.store, .error error⟩] }
  | none =>
      match OAuthService.knownUser world.store login with
      | (store, .ok none) => { world with store := store, waiting := world.waiting ++ [login] }
      | (store, .ok (some user)) =>
          { world with
            store := store
            log := world.log ++ [⟨world.service, login, none, world.store, store,
              .ok (user, false)⟩] }
      | (store, .error error) =>
          { world with
            store := store
            log := world.log ++ [⟨world.service, login, none, world.store, store,
              .error error⟩] }

def World.finish (world : World) (index : Nat) (login : ExternalLogin)
    (userinfo : Option ExternalUserinfo) (userId identityId : Text) : World :=
  let used := if world.service.needsUserinfo login then userinfo else none
  let signedUp := world.service.signUp lowercase world.store login used userId identityId
  { world with
    store := signedUp.1
    waiting := world.waiting.eraseIdx index
    log := world.log ++ [⟨world.service, login, used, world.store, signedUp.1, signedUp.2⟩] }

def step (event : Event) (world : World) : Option World :=
  match event with
  | .callback login => some (world.callback login)
  | .finish index userinfo userId identityId =>
      world.waiting[index]?.map fun login =>
        world.finish lowercase index login userinfo userId identityId
  | .restart service => some { world with service := service, waiting := [] }
  | .accounts users tokens =>
      some { world with store := { world.store with users := users, tokens := tokens } }
  | .removeIdentities userId =>
      let kept := world.store.identities.filter fun identity => identity.userId ≠ userId
      some { world with store := { world.store with identities := kept } }

end Runs

end Frona.Sso
