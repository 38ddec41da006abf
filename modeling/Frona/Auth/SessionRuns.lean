import Frona.Auth.Sessions

set_option autoImplicit false

namespace Frona.Auth

open Utf8 (Text)

section Holds

def Purpose.Holds (revocations : Nat) : Purpose → Prop
  | refresh since => since ≤ revocations
  | _ => True

def Request.Holds (userId : Text) (revocations : Nat) : Request → Prop
  | login _ | refresh _ | done => True
  | validated _ since | found _ since => since ≤ revocations
  | finding purpose => purpose.Holds revocations
  | caching purpose user => purpose.Holds revocations ∧ user.id = userId
  | entering user since | paired user _ since => user.id = userId ∧ since = revocations
  | writing user _ | invalidating user _ | uncaching user | deactivating user | revoking user _
  | issuing user | issuingRefresh user _ => user.id = userId

theorem Request.Holds.revoke {userId : Text} {revocations : Nat} {request : Request}
    (holds : request.Holds userId revocations) (out : ¬ request.LetIn) :
    request.Holds userId (revocations + 1) := by
  have later (purpose : Purpose) (holds : purpose.Holds revocations) :
      purpose.Holds (revocations + 1) := by
    cases purpose with
    | refresh since => exact Nat.le_succ_of_le holds
    | _ => trivial
  cases request with
  | validated | found => exact Nat.le_succ_of_le holds
  | finding purpose => exact later purpose holds
  | caching purpose user => exact ⟨later purpose holds.1, holds.2⟩
  | entering | paired => exact absurd trivial out
  | _ => exact holds

variable (verifyPassword : Text → Text → Bool)

theorem Purpose.next_holds {userId : Text} {revocations : Nat} {user : User} {purpose : Purpose}
    (same : user.id = userId) (holds : purpose.Holds revocations)
    (refused : ∀ since, purpose = .refresh since → since < revocations → user.deactivated = true) :
    (purpose.next verifyPassword user).Holds userId revocations := by
  cases purpose with
  | refresh since =>
      simp only [Purpose.next]
      split
      next => trivial
      next active =>
        have current : ¬ since < revocations := fun before => active (refused since rfl before)
        exact ⟨same, Nat.le_antisymm holds (not_lt.mp current)⟩
  | changePassword current new hashed =>
      simp only [Purpose.next]
      split
      next => trivial
      next =>
        split
        next => trivial
        next => trivial
  | setPassword hashed own => exact same
  | deactivate =>
      simp only [Purpose.next]
      split
      next => exact same
      next => exact same

theorem Start.request_holds (start : Start) (userId : Text) (revocations : Nat) :
    start.request.Holds userId revocations := by
  cases start with
  | setPassword new hashed =>
      simp only [Start.request]
      split
      next => trivial
      next => trivial
  | _ => trivial

end Holds

section Inv

structure Inv (userId : Text) (world : World) : Prop where
  sound : world.service.Sound
  known : ∀ grant ∈ world.grants, ∃ issued ∈ world.service.issued,
    issued.claims.tokenId = grant.tokenId
  user : world.user.id = userId
  cached : ∀ user, world.cached = some user → user.id = userId
  calls : ∀ call, (world.requests call).Holds userId world.revocations
  -- The row of a granted token is the user's, and no revocation came since.
  owned : ∀ grant ∈ world.grants, ∀ row ∈ world.service.rows, row.id = grant.tokenId →
    row.userId = userId ∧ grant.since = world.revocations

variable {userId : Text} {world : World}

theorem Inv.put (inv : Inv userId world) (call : Nat) (request : Request)
    (holds : request.Holds userId world.revocations) : Inv userId (world.put call request) where
  sound := inv.sound
  known := inv.known
  user := inv.user
  cached := inv.cached
  calls := Machine.forall_update inv.calls holds
  owned := inv.owned

theorem Inv.fewer (inv : Inv userId world) (keep : ApiToken → Bool) :
    Inv userId { world with
      service := { world.service with rows := world.service.rows.filter keep } } where
  sound := inv.sound.filter keep
  known := inv.known
  user := inv.user
  cached := inv.cached
  calls := inv.calls
  owned grant granted row listed := inv.owned grant granted row (List.mem_of_mem_filter listed)

theorem Inv.cache (inv : Inv userId world) (cached : Option User)
    (same : ∀ user, cached = some user → user.id = userId) :
    Inv userId { world with cached := cached } where
  sound := inv.sound
  known := inv.known
  user := inv.user
  cached := same
  calls := inv.calls
  owned := inv.owned

theorem Inv.write (inv : Inv userId world) (user : User) (same : user.id = userId) :
    Inv userId { world with user := user } where
  sound := inv.sound
  known := inv.known
  user := same
  cached := inv.cached
  calls := inv.calls
  owned := inv.owned

-- A new row has an id of its own.
theorem create_rows (config : TokenConfig) (user : User) (mint : Mint) (id jwt : Text)
    (row : ApiToken) (listed : row ∈ (world.create config user mint id jwt).service.rows) :
    row ∈ world.service.rows ∨ (row.id = id ∧ row.userId = user.id) := by
  simp only [World.create, TokenService.createToken] at listed
  split at listed
  next => exact Or.inl listed
  next =>
    cases List.mem_cons.mp listed with
    | inl new =>
        rw [new]
        exact Or.inr ⟨rfl, rfl⟩
    | inr old => exact Or.inl old

theorem Inv.create (inv : Inv userId world) (config : TokenConfig) (user : User) (mint : Mint)
    (id jwt : Text) (fresh : world.IsFresh id jwt) :
    Inv userId (world.create config user mint id jwt) where
  sound := inv.sound.step (.mint _ _ _ _ _ _ fresh)
  known grant granted := by
    obtain ⟨issued, member, same⟩ := inv.known grant granted
    exact ⟨issued, List.mem_cons_of_mem _ member, same⟩
  user := inv.user
  cached := inv.cached
  calls := inv.calls
  owned grant granted row listed same := by
    cases create_rows config user mint id jwt row listed with
    | inl old => exact inv.owned grant granted row old same
    | inr new =>
        obtain ⟨issued, member, same'⟩ := inv.known grant granted
        exact absurd (same'.trans (same.symm.trans new.1)) (fresh issued member).1

theorem Inv.grant (inv : Inv userId world) (config : TokenConfig) (user : User) (mint : Mint)
    (id jwt : Text) (fresh : world.IsFresh id jwt) (same : user.id = userId) :
    Inv userId ((world.create config user mint id jwt).grant id world.revocations) := by
  have created := inv.create config user mint id jwt fresh
  refine ⟨created.sound, ?_, created.user, created.cached, created.calls, ?_⟩
  · intro grant granted
    cases List.mem_cons.mp granted with
    | inl new =>
        rw [new]
        exact ⟨_, List.mem_cons_self, rfl⟩
    | inr old => exact created.known grant old
  · intro grant granted row listed named
    cases List.mem_cons.mp granted with
    | inl new =>
        rw [new] at named ⊢
        cases create_rows config user mint id jwt row listed with
        | inl old =>
            obtain ⟨issued, member, backed, _⟩ := inv.sound.backed row old
            exact absurd (backed.trans named) (fresh issued member).1
        | inr added => exact ⟨added.2.trans same, rfl⟩
    | inr old => exact created.owned grant old row listed named

theorem Inv.revoke (inv : Inv userId world) (out : ∀ call, ¬ (world.requests call).LetIn) :
    Inv userId { world with
      service := world.service.deleteByUserId userId
      revocations := world.revocations + 1 } where
  sound := inv.sound.filter _
  known := inv.known
  user := inv.user
  cached := inv.cached
  calls call := (inv.calls call).revoke (out call)
  owned grant granted row listed same := by
    obtain ⟨member, away⟩ := List.mem_filter.mp listed
    have here := (inv.owned grant granted row member same).1
    simp [here] at away

theorem Inv.ended (inv : Inv userId world) : world.Ended := by
  intro grant granted before
  simp only [TokenService.findActiveById, List.find?_eq_none, decide_eq_true_eq, not_and]
  intro row listed same
  have := (inv.owned grant granted row listed same).2
  omega

end Inv

section Runs

variable (verifyPassword : Text → Text → Bool) (config : TokenConfig) {userId : Text}

theorem advance_inv (world next : World) (call : Nat) (pairId id jwt : Text)
    (inv : Inv userId world) (careful : Careful (.go call pairId id jwt) world)
    (goes : world.advance verifyPassword config call pairId id jwt = some next) :
    Inv userId next := by
  have stands := inv.calls call
  unfold World.advance at goes
  simp only [Careful] at careful
  cases here : world.requests call with
  | done => simp [here] at goes
  | login password =>
      simp only [here] at goes
      split at goes
      next =>
        obtain rfl := Option.some.inj goes
        exact inv.put call _ trivial
      next =>
        obtain rfl := Option.some.inj goes
        exact inv.put call _ ⟨inv.user, rfl⟩
  | refresh jwt =>
      simp only [here] at goes
      split at goes
      next =>
        obtain rfl := Option.some.inj goes
        exact inv.put call _ trivial
      next =>
        split at goes
        next =>
          obtain rfl := Option.some.inj goes
          exact inv.put call _ (Nat.le_refl _)
        next =>
          obtain rfl := Option.some.inj goes
          exact inv.put call _ trivial
  | validated claims since =>
      simp only [here] at goes stands
      split at goes
      next =>
        obtain rfl := Option.some.inj goes
        exact inv.put call _ trivial
      next =>
        obtain rfl := Option.some.inj goes
        exact inv.put call _ stands
  | found pair since =>
      simp only [here] at goes stands
      obtain rfl := Option.some.inj goes
      apply (inv.fewer _).put call
      split
      next => exact stands
      next => trivial
  | finding purpose =>
      rw [here] at stands
      simp only [here] at goes careful
      cases stored : world.cached with
      | none =>
          simp only [stored] at goes
          obtain rfl := Option.some.inj goes
          exact inv.put call _ ⟨stands, inv.user⟩
      | some user =>
          simp only [stored] at goes
          obtain rfl := Option.some.inj goes
          apply inv.put call
          apply Purpose.next_holds verifyPassword (inv.cached user stored) stands
          rintro since rfl before
          exact careful before user stored
  | caching purpose user =>
      rw [here] at stands
      simp only [here] at goes careful
      obtain rfl := Option.some.inj goes
      apply (inv.cache (some user) (by rintro _ ⟨⟩; exact stands.2)).put call
      apply Purpose.next_holds verifyPassword stands.2 stands.1
      rintro since rfl before
      exact careful before
  | entering user since =>
      rw [here] at stands
      simp only [here] at goes
      split at goes
      next fresh =>
        obtain rfl := Option.some.inj goes
        obtain ⟨same, rfl⟩ := stands
        exact (inv.grant config user _ id jwt fresh same).put call _ ⟨same, rfl⟩
      next => simp at goes
  | paired user pair since =>
      rw [here] at stands
      simp only [here] at goes
      split at goes
      next fresh =>
        obtain rfl := Option.some.inj goes
        obtain ⟨same, rfl⟩ := stands
        exact (inv.grant config user _ id jwt fresh same).put call _ trivial
      next => simp at goes
  | issuing user =>
      rw [here] at stands
      simp only [here] at goes
      split at goes
      next fresh =>
        obtain rfl := Option.some.inj goes
        exact (inv.create config user _ id jwt fresh).put call _ stands
      next => simp at goes
  | issuingRefresh user pair =>
      simp only [here] at goes
      split at goes
      next fresh =>
        obtain rfl := Option.some.inj goes
        exact (inv.create config user _ id jwt fresh).put call _ trivial
      next => simp at goes
  | writing user own =>
      rw [here] at stands
      simp only [here] at goes
      obtain rfl := Option.some.inj goes
      exact (inv.write user stands).put call _ stands
  | invalidating user own =>
      rw [here] at stands
      simp only [here] at goes
      obtain rfl := Option.some.inj goes
      exact (inv.cache none (by simp)).put call _ stands
  | uncaching user =>
      rw [here] at stands
      simp only [here] at goes
      obtain rfl := Option.some.inj goes
      exact (inv.cache none (by simp)).put call _ stands
  | deactivating user =>
      rw [here] at stands
      simp only [here] at goes
      obtain rfl := Option.some.inj goes
      exact (inv.write user stands).put call _ stands
  | revoking user own =>
      rw [here] at stands
      simp only [here] at goes careful
      obtain rfl := Option.some.inj goes
      obtain rfl : user.id = userId := stands
      apply (inv.revoke careful).put call
      split
      next => exact rfl
      next => trivial

theorem step_inv (event : Event) (world next : World) (inv : Inv userId world)
    (careful : Careful event world) (goes : step verifyPassword config event world = some next) :
    Inv userId next := by
  cases event with
  | go call pairId id jwt =>
      exact advance_inv verifyPassword config world next call pairId id jwt inv careful goes
  | start call start =>
      simp only [step] at goes
      split at goes
      next =>
        obtain rfl := Option.some.inj goes
        exact inv.put call _ (start.request_holds userId _)
      next => simp at goes
  | fail call =>
      obtain rfl := Option.some.inj goes
      exact inv.put call _ trivial
  | evict =>
      obtain rfl := Option.some.inj goes
      exact inv.cache none (by simp)
  | logout pairId =>
      obtain rfl := Option.some.inj goes
      exact inv.fewer _
  | cleanup =>
      obtain rfl := Option.some.inj goes
      exact inv.fewer _
  | wait later =>
      simp only [step] at goes
      split at goes
      next passes =>
        obtain rfl := Option.some.inj goes
        exact ⟨inv.sound.step (.wait _ later passes), inv.known, inv.user, inv.cached, inv.calls,
          inv.owned⟩
      next => simp at goes

theorem begin_inv (now : Int) (user : User) : Inv user.id (World.begin now user) where
  sound := ⟨List.nodup_nil, List.nodup_nil, by simp [World.begin], by simp [World.begin]⟩
  known := by simp [World.begin]
  user := rfl
  cached := by simp [World.begin]
  calls _ := trivial
  owned := by simp [World.begin]

def World.Finished (world : World) : Prop := ∀ call, world.requests call = .done

section Login

-- Passwords that are stored as they are.
def plainly (password hash : Text) : Bool := decide (password = hash)

def letIn : List Event := [.start 0 (.login []), .go 0 [] [] []]

def enters : List Event :=
  [.go 0 "pair".toList "access".toList "signed".toList, .go 0 [] "refresh".toList "again".toList]

-- A reset of the password, through the missing cache entry to the revocation.
def resets : List Event :=
  [.start 1 (.setPassword "longenough".toList "longenough".toList), .go 1 [] [] [], .go 1 [] [] [],
    .go 1 [] [] [], .go 1 [] [] [], .go 1 [] [] []]

end Login

end Runs

end Frona.Auth
