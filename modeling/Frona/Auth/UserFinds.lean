import Frona.Auth.UserRuns

set_option autoImplicit false

namespace Frona.Users

open Utf8 (Text)

section Fresh

/-- Every lookup that returned answers a row that was stored at or after the latest write whose
request had returned when the lookup began. -/
def World.Fresh (world : World) : Prop :=
  ∀ find ∈ world.finds, ∃ version, find.floor ≤ version ∧ version ≤ world.version ∧
    world.rows version = find.result

/-- No row is put into the cache that was read before a write that has returned, and where the
cache is cleared first it is still empty at the write. -/
def Careful (event : Event) (world : World) : Prop :=
  match event with
  | .go call .. =>
      match world.requests call with
      | .inserting _ _ copy => world.returned ≤ copy.version
      | .updating _ | .deleting => world.cached = none
      | _ => True
  | _ => True

end Fresh

section Sound

def Held (rows : Nat → Option User) (version : Nat) (copy : Copy) : Prop :=
  copy.version ≤ version ∧ rows copy.version = some copy.user

def Request.Holds (rows : Nat → Option User) (version returned : Nat) : Request → Prop
  | looking _ floor | reading _ floor => floor ≤ returned
  | inserting _ floor copy => floor ≤ copy.version ∧ Held rows version copy
  | invalidating written => written ≤ version
  | _ => True

structure Sound (world : World) : Prop where
  returned : world.returned ≤ world.version
  cached : ∀ copy, world.cached = some copy →
    Held world.rows world.version copy ∧ world.returned ≤ copy.version
  requests : ∀ call, (world.requests call).Holds world.rows world.version world.returned
  fresh : world.Fresh

variable {world : World}

theorem Held.store {copy : Copy} (row : Option User) (held : Held world.rows world.version copy) :
    Held (world.store row).rows (world.store row).version copy := by
  obtain ⟨before, same⟩ := held
  refine ⟨Nat.le_succ_of_le before, ?_⟩
  have other : copy.version ≠ world.version + 1 := by omega
  simpa [World.store, other] using same

theorem Request.Holds.returns {request : Request} {rows : Nat → Option User}
    {version returned later : Nat} (holds : request.Holds rows version returned)
    (after : returned ≤ later) : request.Holds rows version later := by
  cases request with
  | looking | reading => exact Nat.le_trans holds after
  | _ => exact holds

theorem Sound.put (sound : Sound world) (call : Nat) (request : Request)
    (holds : request.Holds world.rows world.version world.returned) :
    Sound (world.put call request) where
  returned := sound.returned
  cached := sound.cached
  requests := Machine.forall_update sound.requests holds
  fresh := sound.fresh

theorem Sound.store (sound : Sound world) (row : Option User) : Sound (world.store row) where
  returned := Nat.le_succ_of_le sound.returned
  cached copy held := ⟨(sound.cached copy held).1.store row, (sound.cached copy held).2⟩
  requests call := by
    have holds := sound.requests call
    simp only [World.store]
    cases here : world.requests call with
    | inserting purpose floor copy =>
        rw [here] at holds
        exact ⟨holds.1, holds.2.store row⟩
    | looking | reading =>
        rw [here] at holds
        exact holds
    | invalidating version =>
        rw [here] at holds
        exact Nat.le_succ_of_le holds
    | _ => trivial
  fresh find member := by
    obtain ⟨version, after, before, same⟩ := sound.fresh find member
    refine ⟨version, after, Nat.le_succ_of_le before, ?_⟩
    have other : version ≠ world.version + 1 := by omega
    simpa [World.store, other] using same

theorem Sound.update (sound : Sound world) (edit : Edit) : Sound (world.update edit) := by
  unfold World.update
  split
  next => exact sound
  next =>
    have stored := sound.store (some edit.user)
    exact ⟨stored.returned, stored.cached, stored.requests, stored.fresh⟩

theorem Sound.uncache (sound : Sound world) : Sound { world with cached := none } where
  returned := sound.returned
  cached copy held := by cases held
  requests := sound.requests
  fresh := sound.fresh

theorem Sound.returns (sound : Sound world) (version : Nat) (written : version ≤ world.version)
    (empty : world.cached = none) : Sound (world.returns version) where
  returned := max_le sound.returned written
  cached copy held := by
    have stored : world.cached = some copy := held
    simp [empty] at stored
  requests call := (sound.requests call).returns (le_max_left _ _)
  fresh := sound.fresh

theorem Sound.insert (sound : Sound world) (copy : Copy)
    (held : Held world.rows world.version copy) (current : world.returned ≤ copy.version) :
    Sound { world with cached := some copy } where
  returned := sound.returned
  cached other same := by
    obtain rfl := Option.some.inj same
    exact ⟨held, current⟩
  requests := sound.requests
  fresh := sound.fresh

theorem Sound.found (sound : Sound world) (find : Find) (version : Nat)
    (after : find.floor ≤ version) (before : version ≤ world.version)
    (same : world.rows version = find.result) :
    Sound { world with finds := find :: world.finds } where
  returned := sound.returned
  cached := sound.cached
  requests := sound.requests
  fresh other member := by
    cases List.mem_cons.mp member with
    | inl new =>
        subst new
        exact ⟨version, after, before, same⟩
    | inr old => exact sound.fresh other old

theorem Sound.sweep (sound : Sound world) (change : List Text → List Text) :
    Sound (world.sweep change) := by
  unfold World.sweep
  split
  next => exact sound
  next user _ =>
    have stored := sound.store (some { user with groups := change user.groups })
    exact ⟨stored.returned, stored.cached, stored.requests, stored.fresh⟩

theorem Sound.start (sound : Sound world) (call : Nat) (start : Start) :
    Sound (world.start call start) := by
  have looks (purpose : Purpose) : Sound (world.put call (.looking purpose world.returned)) :=
    sound.put call _ (Nat.le_refl _)
  cases start with
  | setPassword new hashed =>
      simp only [World.start]
      split
      next => exact sound
      next => exact looks _
  | changeHandle | ensureAdminInvariant | delete => exact sound.put call _ trivial
  | _ => exact looks _

end Sound

section Runs

variable (isValidEmail validTimezone : Text → Bool) {world next : World}

-- No request goes on from a lookup with another one.
theorem next_holds (now : Int) (user : User) (purpose : Purpose) (rows : Nat → Option User)
    (version returned : Nat) :
    (purpose.next isValidEmail validTimezone now user).Holds rows version returned := by
  cases purpose with
  | find | setPassword | patchGroups => trivial
  | updateProfile request =>
      simp only [Purpose.next]
      split
      next => trivial
      next =>
        split
        next => trivial
        next =>
          split
          next => trivial
          next => trivial
  | changeHandle handle | deactivate | reactivate =>
      simp only [Purpose.next]
      split
      next => trivial
      next => trivial

theorem Sound.resume (sound : Sound world) (call : Nat) (purpose : Purpose) (floor : Nat)
    (now : Int) (copy : Copy) (held : Held world.rows world.version copy)
    (after : floor ≤ copy.version) :
    Sound (world.resume isValidEmail validTimezone call purpose floor now copy.user) := by
  have found := sound.found ⟨floor, some copy.user⟩ copy.version after held.1 held.2
  have goes := found.put call _ (next_holds isValidEmail validTimezone now copy.user purpose _ _ _)
  exact ⟨goes.returned, goes.cached, goes.requests, goes.fresh⟩

theorem update_version (edit : Edit) : (world.update edit).cached = world.cached := by
  unfold World.update
  split
  next => rfl
  next => rfl

theorem sound_advance (call : Nat) (now : Int) (taken : Bool) (sound : Sound world)
    (careful : Careful (.go call now taken) world)
    (goes : world.advance isValidEmail validTimezone call now taken = some next) : Sound next := by
  have stands := sound.requests call
  unfold World.advance at goes
  cases here : world.requests call with
  | idle => simp [here] at goes
  | looking purpose floor =>
      rw [here] at stands
      simp only [here] at goes
      cases stored : world.cached with
      | none =>
          simp only [stored] at goes
          obtain rfl := Option.some.inj goes
          exact sound.put call _ stands
      | some copy =>
          simp only [stored] at goes
          obtain rfl := Option.some.inj goes
          obtain ⟨held, current⟩ := sound.cached copy stored
          exact sound.resume isValidEmail validTimezone call purpose floor now copy held
            (Nat.le_trans stands current)
  | reading purpose floor =>
      rw [here] at stands
      simp only [here] at goes
      have after : floor ≤ world.version := Nat.le_trans stands sound.returned
      cases stored : world.row with
      | none =>
          simp only [stored] at goes
          obtain rfl := Option.some.inj goes
          exact (sound.found ⟨floor, none⟩ world.version after (Nat.le_refl _) stored).put call _
            trivial
      | some user =>
          simp only [stored] at goes
          obtain rfl := Option.some.inj goes
          exact sound.put call _ ⟨after, Nat.le_refl _, stored⟩
  | inserting purpose floor copy =>
      rw [here] at stands
      simp only [Careful, here] at careful
      simp only [here] at goes
      obtain rfl := Option.some.inj goes
      exact (sound.insert copy stands.2 careful).resume isValidEmail validTimezone call purpose
        floor now copy stands.2 stands.1
  | writing edit =>
      simp only [here] at goes
      obtain rfl := Option.some.inj goes
      exact (sound.update edit).put call _ (Nat.le_refl _)
  | invalidating version =>
      rw [here] at stands
      simp only [here] at goes
      obtain rfl := Option.some.inj goes
      exact (sound.uncache.returns version stands rfl).put call _ trivial
  | updating edit =>
      simp only [Careful, here] at careful
      simp only [here] at goes
      obtain rfl := Option.some.inj goes
      have empty : (world.update edit).cached = none := (update_version edit).trans careful
      exact ((sound.update edit).returns _ (Nat.le_refl _) empty).put call _ trivial
  | deleting =>
      simp only [Careful, here] at careful
      simp only [here] at goes
      obtain rfl := Option.some.inj goes
      exact ((sound.store none).returns _ (Nat.le_refl _) careful).put call _ trivial
  | uncaching edit | dropping =>
      simp only [here] at goes
      obtain rfl := Option.some.inj goes
      exact sound.uncache.put call _ trivial
  | checkingHandle handle =>
      simp only [here] at goes
      split at goes
      next =>
        obtain rfl := Option.some.inj goes
        exact sound.put call _ trivial
      next =>
        obtain rfl := Option.some.inj goes
        exact sound.put call _ (Nat.le_refl _)
  | checkingEmail request email user =>
      simp only [here] at goes
      split at goes
      all_goals
        obtain rfl := Option.some.inj goes
        exact sound.put call _ trivial
  | repairing =>
      simp only [here] at goes
      split at goes
      all_goals
        obtain rfl := Option.some.inj goes
        exact sound.put call _ trivial
  | electing =>
      simp only [here] at goes
      split at goes
      next =>
        obtain rfl := Option.some.inj goes
        exact sound.put call _ trivial
      next =>
        split at goes
        all_goals
          obtain rfl := Option.some.inj goes
          exact sound.put call _ trivial

theorem sound_step (event : Event) (world next : World) (sound : Sound world)
    (careful : Careful event world)
    (goes : step isValidEmail validTimezone event world = some next) : Sound next := by
  cases event with
  | start call start =>
      simp only [step] at goes
      split at goes
      next =>
        obtain rfl := Option.some.inj goes
        exact sound.start call start
      next => simp at goes
  | go call now taken =>
      exact sound_advance isValidEmail validTimezone call now taken sound careful goes
  | fail call =>
      obtain rfl := Option.some.inj goes
      exact sound.put call _ trivial
  | evict =>
      obtain rfl := Option.some.inj goes
      exact sound.uncache
  | deleteGroup name | renameGroup old new =>
      obtain rfl := Option.some.inj goes
      exact sound.sweep _

theorem begin_sound (user : User) : Sound (World.begin user) where
  returned := Nat.le_refl _
  cached copy held := by cases held
  requests _ := trivial
  fresh find member := by cases member

/-- In a careful run no lookup answers an older row than the latest returned write left. -/
theorem finds_fresh (user : User) (events : List Event) (last : World)
    (careful : Machine.Guarded (step isValidEmail validTimezone) Careful events (World.begin user))
    (reached :
      Machine.run (step isValidEmail validTimezone) events (World.begin user) = some last) :
    last.Fresh :=
  (Machine.invariant_run _ Careful Sound (sound_step isValidEmail validTimezone) events _ last
    (begin_sound user) careful reached).fresh

def deactivatedBetween : List Event :=
  [.start 0 .find, .go 0 1 false, .go 0 1 false, .go 0 1 false,
    .start 1 .deactivate, .go 1 2 false, .go 1 2 false, .go 1 2 false,
    .start 2 .find, .go 2 3 false, .go 2 3 false, .go 2 3 false]

theorem finds_fresh_ann :
    ∃ last, Machine.run (step (fun _ => true) fun _ => true) deactivatedBetween
      (World.begin ann) = some last ∧ last.Fresh := by
  refine ⟨_, rfl, finds_fresh (fun _ => true) (fun _ => true) ann deactivatedBetween _ ?_ rfl⟩
  exact .cons trivial rfl (.cons trivial rfl (.cons trivial rfl (.cons (Nat.le_refl 0) rfl
    (.cons trivial rfl (.cons trivial rfl (.cons trivial rfl (.cons rfl rfl
      (.cons trivial rfl (.cons trivial rfl (.cons trivial rfl (.cons (Nat.le_refl 1) rfl
        trivial)))))))))))

def readBetween : List Event :=
  [.start 0 .deactivate, .go 0 1 false, .go 0 1 false, .go 0 1 false, .go 0 1 false,
    .start 1 .find, .go 1 2 false, .go 1 2 false, .go 1 2 false, .go 0 3 false,
    .start 2 .find, .go 2 4 false]

theorem deactivated_user_found_active :
    ¬ ∀ (user : User) (events : List Event) (last : World),
      Machine.run (step (fun _ => true) fun _ => true) events (World.begin user) = some last →
      last.Fresh := by
  intro claimed
  obtain ⟨version, after, before, same⟩ :=
    claimed ann readBetween _ rfl ⟨1, some ann⟩ List.mem_cons_self
  obtain rfl : version = 1 := Nat.le_antisymm before after
  have kept : some (setDeactivated 1 ann (some 1)).user = some ann := same
  exact absurd kept (by decide)

end Runs

end Frona.Users
