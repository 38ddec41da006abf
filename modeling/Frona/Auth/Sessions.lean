import Frona.Auth.Doors
import Frona.Machine.Run

set_option autoImplicit false

namespace Frona.Auth

open Utf8 (Text byteLength)

inductive Purpose where
  -- The number of revocations up to the check of the token.
  | refresh (since : Nat)
  | changePassword (current new hashed : Text)
  -- Of a change by the user, or of a reset.
  | setPassword (hashed : Text) (own : Bool)
  | deactivate

inductive Request where
  | login (password : Text)
  | refresh (jwt : Text)
  | validated (claims : Claims) (since : Nat)
  | found (pairId : Text) (since : Nat)
  | finding (purpose : Purpose)
  | caching (purpose : Purpose) (user : User)
  -- Let in, with both tokens or the second one still to be created.
  | entering (user : User) (since : Nat)
  | paired (user : User) (pairId : Text) (since : Nat)
  | writing (user : User) (own : Bool)
  | invalidating (user : User) (own : Bool)
  | uncaching (user : User)
  | deactivating (user : User)
  | revoking (user : User) (own : Bool)
  -- The pair of the device that changed the password.
  | issuing (user : User)
  | issuingRefresh (user : User) (pairId : Text)
  | done

structure Grant where
  tokenId : Text
  since : Nat

structure World where
  service : TokenService
  user : User
  cached : Option User
  requests : Nat → Request
  -- No step reads these two.
  revocations : Nat
  grants : List Grant

inductive Start where
  | login (password : Text)
  | refresh (jwt : Text)
  | changePassword (current new hashed : Text)
  | setPassword (new hashed : Text)
  | deactivate

inductive Event where
  | start (call : Nat) (start : Start)
  /-- A call goes on; the ids and the text are those of the token it may create. -/
  | go (call : Nat) (pairId id jwt : Text)
  | fail (call : Nat)
  | evict
  | logout (pairId : Text)
  | cleanup
  | wait (later : Int)

def minPassword : Nat := 8

-- `verify_password`
variable (verifyPassword : Text → Text → Bool)

def Purpose.next (user : User) : Purpose → Request
  | refresh since => if user.deactivated then .done else .entering user since
  | changePassword current new hashed =>
      if verifyPassword current user.passwordHash = false ∨ current = new then .done
      else if byteLength new < minPassword then .done
      else .finding (.setPassword hashed true)
  | setPassword hashed own => .writing { user with passwordHash := hashed } own
  | deactivate =>
      if user.deactivated then .revoking user false
      else .uncaching { user with deactivated := true }

def Start.request : Start → Request
  | login password => .login password
  | refresh jwt => .refresh jwt
  | changePassword current new hashed => .finding (.changePassword current new hashed)
  | setPassword new hashed =>
      if byteLength new < minPassword then .done else .finding (.setPassword hashed false)
  | deactivate => .finding .deactivate

namespace World

variable (world : World) (config : TokenConfig)

def put (call : Nat) (request : Request) : World :=
  { world with requests := Function.update world.requests call request }

def IsFresh (id jwt : Text) : Prop :=
  ∀ issued ∈ world.service.issued, issued.claims.tokenId ≠ id ∧ issued.jwt ≠ jwt

instance (id jwt : Text) : Decidable (world.IsFresh id jwt) :=
  inferInstanceAs (Decidable (∀ issued ∈ world.service.issued, _))

def create (user : User) (mint : Mint) (id jwt : Text) : World :=
  { world with service := world.service.createToken config user mint id jwt }

def grant (id : Text) (since : Nat) : World :=
  { world with grants := ⟨id, since⟩ :: world.grants }

def advance (call : Nat) (pairId id jwt : Text) : Option World :=
  match world.requests call with
  | .done => none
  -- `find_by_email` or `find_by_handle`
  | .login password =>
      if world.user.deactivated ∨ verifyPassword password world.user.passwordHash = false then
        some (world.put call .done)
      else some (world.put call (.entering world.user world.revocations))
  -- `find_active_by_id`, twice
  | .refresh jwt =>
      match world.service.validateRefresh jwt with
      | .error _ => some (world.put call .done)
      | .ok claims =>
          -- Another user's token leads to none of this user's.
          if claims.sub = world.user.id then
            some (world.put call (.validated claims world.revocations))
          else some (world.put call .done)
  | .validated claims since =>
      match (world.service.findActiveById claims.tokenId).bind ApiToken.refreshPairId with
      | none => some (world.put call .done)
      | some pair => some (world.put call (.found pair since))
  | .found pair since =>
      let (consumed, service) := world.service.deleteByRefreshPair pair
      some ({ world with service := service }.put call
        (if consumed then .finding (.refresh since) else .done))
  -- `find_by_id`, through the cache
  | .finding purpose =>
      match world.cached with
      | some user => some (world.put call (purpose.next verifyPassword user))
      | none => some (world.put call (.caching purpose world.user))
  | .caching purpose user =>
      some ({ world with cached := some user }.put call (purpose.next verifyPassword user))
  -- `create_session_pair`
  | .entering user since =>
      if world.IsFresh id jwt then
        some (((world.create config user (.sessionAccess pairId) id jwt).grant id since).put call
          (.paired user pairId since))
      else none
  | .paired user pair since =>
      if world.IsFresh id jwt then
        some (((world.create config user (.sessionRefresh pair) id jwt).grant id since).put call
          .done)
      else none
  | .issuing user =>
      if world.IsFresh id jwt then
        some ((world.create config user (.sessionAccess pairId) id jwt).put call
          (.issuingRefresh user pairId))
      else none
  | .issuingRefresh user pair =>
      if world.IsFresh id jwt then
        some ((world.create config user (.sessionRefresh pair) id jwt).put call .done)
      else none
  -- The whole row is written.
  | .writing user own => some ({ world with user := user }.put call (.invalidating user own))
  | .invalidating user own => some ({ world with cached := none }.put call (.revoking user own))
  | .uncaching user => some ({ world with cached := none }.put call (.deactivating user))
  | .deactivating user => some ({ world with user := user }.put call (.revoking user false))
  -- `revoke_all_for_user`
  | .revoking user own =>
      some ({ world with
        service := world.service.deleteByUserId user.id
        revocations := world.revocations + 1 }.put call (if own then .issuing user else .done))

end World

def step (config : TokenConfig) : Event → World → Option World
  | .start call start, world =>
      match world.requests call with
      | .done => some (world.put call start.request)
      | _ => none
  | .go call pairId id jwt, world => world.advance verifyPassword config call pairId id jwt
  | .fail call, world => some (world.put call .done)
  | .evict, world => some { world with cached := none }
  | .logout pairId, world =>
      some { world with service := (world.service.deleteByRefreshPair pairId).2 }
  | .cleanup, world => some { world with service := world.service.deleteExpired }
  | .wait later, world =>
      if world.service.now ≤ later then
        some { world with service := { world.service with now := later } }
      else none

def World.begin (now : Int) (user : User) : World where
  service := ⟨now, [], []⟩
  user := user
  cached := none
  requests _ := .done
  revocations := 0
  grants := []

section Ended

def Request.LetIn : Request → Prop
  | entering .. | paired .. => True
  | _ => False

/-- No token is active whose request was let in before the latest revocation. -/
def World.Ended (world : World) : Prop :=
  ∀ grant ∈ world.grants, grant.since < world.revocations →
    world.service.findActiveById grant.tokenId = none

/--
A revocation comes when no request has been let in that still has a token to create; and a
refresh that took its pair before the revocation finds the user deactivated.
-/
def Careful (event : Event) (world : World) : Prop :=
  match event with
  | .go call .. =>
      match world.requests call with
      | .revoking .. => ∀ other, ¬ (world.requests other).LetIn
      | .finding (.refresh since) =>
          since < world.revocations → ∀ user, world.cached = some user → user.deactivated = true
      | .caching (.refresh since) user => since < world.revocations → user.deactivated = true
      | _ => True
  | _ => True

end Ended

end Frona.Auth
