import Frona.Auth.Users

set_option autoImplicit false

namespace Frona.Users

open Utf8 (Text)

variable (isValidEmail validTimezone : Text → Bool)

section Kept

/-- The row holds in each field what was last written to it, and the user is deactivated just when
the last request about that left it so. -/
def World.Kept (world : World) : Prop :=
  ∀ user, world.row = some user →
    (∀ field, user.get field = world.last field) ∧ user.deactivatedAt.isSome = world.off

/-- The stored row still has what the request read, wherever that matters. -/
def Current (event : Event) (world : World) : Prop :=
  match event with
  | .go call .. => ∀ user, world.row = some user →
      match world.requests call with
      | .writing edit | .updating edit =>
          ∀ field, edit.sets field = false → edit.read.get field = user.get field
      | .looking purpose _ => ∀ copy, world.cached = some copy → ∀ off,
          purpose.settled copy.user = some off → user.deactivatedAt.isSome = off
      | .inserting purpose _ copy => ∀ off,
          purpose.settled copy.user = some off → user.deactivatedAt.isSome = off
      | _ => True
  | _ => True

variable {world next : World}

structure Unmoved (world next : World) : Prop where
  row : next.row = world.row
  last : next.last = world.last
  off : next.off = world.off

theorem Unmoved.kept (unmoved : Unmoved world next) (kept : world.Kept) : next.Kept := by
  intro user stored
  rw [unmoved.last, unmoved.off]
  exact kept user (unmoved.row ▸ stored)

@[simp] theorem row_put (call : Nat) (request : Request) :
    (world.put call request).row = world.row := rfl

@[simp] theorem row_returns (version : Nat) : (world.returns version).row = world.row := rfl

@[simp] theorem row_store (row : Option User) : (world.store row).row = row := by
  simp [World.row, World.store]

theorem kept_start (call : Nat) (start : Start) (kept : world.Kept) :
    (world.start call start).Kept := by
  have same : Unmoved world (world.start call start) := by
    cases start with
    | setPassword new hashed =>
        simp only [World.start]
        split
        next => exact ⟨rfl, rfl, rfl⟩
        next => exact ⟨rfl, rfl, rfl⟩
    | _ => exact ⟨rfl, rfl, rfl⟩
  exact same.kept kept

theorem kept_sweep (change : List Text → List Text) (kept : world.Kept) :
    (world.sweep change).Kept := by
  unfold World.sweep
  cases stored : world.row with
  | none => exact kept
  | some before =>
      obtain ⟨fields, off⟩ := kept before stored
      intro user written
      obtain rfl : { before with groups := change before.groups } = user := by
        simpa [World.row, World.store] using written
      refine ⟨fun field => ?_, off⟩
      by_cases same : field = .groups
      · subst same
        exact (Function.update_self Field.groups _ world.last).symm
      · have left : User.get { before with groups := change before.groups } field =
            before.get field := by
          cases field <;> first | rfl | exact absurd rfl same
        exact (left.trans (fields field)).trans (Function.update_of_ne same _ world.last).symm

theorem kept_update (edit : Edit) (kept : world.Kept) :
    (world.update edit).Kept ↔ ∀ user, world.row = some user →
      ∀ field, edit.sets field = false → edit.read.get field = user.get field := by
  unfold World.update
  cases stored : world.row with
  | none => simpa using kept
  | some before =>
      obtain ⟨fields, off⟩ := kept before stored
      have written : ∀ user, (world.store (some edit.user)).row = some user ↔ edit.user = user := by
        simp
      constructor
      · intro holds user same field unset
        obtain rfl := Option.some.inj same
        have here := (holds edit.user ((written _).mpr rfl)).1 field
        rw [← edit.kept field unset, fields field]
        simpa [unset] using here
      · intro agree user stored'
        obtain rfl := (written user).mp stored'
        have unset (field : Field) (left : edit.sets field = false) :
            edit.user.get field = world.last field := by
          rw [edit.kept field left, agree before rfl field left, fields field]
        refine ⟨fun field => ?_, ?_⟩
        · cases set : edit.sets field with
          | true => simp [set]
          | false => simpa [set] using unset field set
        · cases set : edit.sets .deactivatedAt with
          | true => simp
          | false =>
              have same : edit.user.deactivatedAt = before.deactivatedAt :=
                (unset .deactivatedAt set).trans (fields .deactivatedAt).symm
              simp [same, off]

theorem kept_resume (call : Nat) (purpose : Purpose) (floor : Nat) (now : Int) (found : User)
    (kept : world.Kept) :
    (world.resume isValidEmail validTimezone call purpose floor now found).Kept ↔
      ∀ user, world.row = some user → ∀ off, purpose.settled found = some off →
        user.deactivatedAt.isSome = off := by
  constructor
  · intro holds user stored off settled
    simpa [World.resume, World.put, settled] using (holds user stored).2
  · intro agree user stored
    obtain ⟨fields, off⟩ := kept user stored
    refine ⟨fields, ?_⟩
    cases settled : purpose.settled found with
    | none => simpa [World.resume, World.put, settled] using off
    | some settles =>
        simpa [World.resume, World.put, settled] using agree user stored settles settled

theorem kept_store (version : Nat) (call : Nat) :
    (((world.store none).returns version).put call .idle).Kept := by
  intro user stored
  simp at stored

theorem kept_advance (call : Nat) (now : Int) (taken : Bool) (kept : world.Kept)
    (goes : world.advance isValidEmail validTimezone call now taken = some next) :
    next.Kept ↔ Current (.go call now taken) world := by
  have still (same : Unmoved world next) (free : Current (.go call now taken) world) :
      next.Kept ↔ Current (.go call now taken) world := iff_of_true (same.kept kept) free
  unfold World.advance at goes
  cases here : world.requests call with
  | idle => simp [here] at goes
  | looking purpose floor =>
      simp only [here] at goes
      cases held : world.cached with
      | none =>
          simp only [held] at goes
          obtain rfl := Option.some.inj goes
          apply still ⟨rfl, rfl, rfl⟩
          simp [Current, here, held]
      | some copy =>
          simp only [held] at goes
          obtain rfl := Option.some.inj goes
          rw [kept_resume isValidEmail validTimezone call purpose floor now copy.user kept]
          simp [Current, here, held]
  | inserting purpose floor copy =>
      simp only [here] at goes
      obtain rfl := Option.some.inj goes
      have inserted : World.Kept { world with cached := some copy } := kept
      rw [kept_resume isValidEmail validTimezone call purpose floor now copy.user inserted]
      simp [Current, here, World.row]
  | writing edit =>
      simp only [here] at goes
      obtain rfl := Option.some.inj goes
      have same : ((world.update edit).put call (.invalidating (world.update edit).version)).Kept ↔
          (world.update edit).Kept := Iff.rfl
      rw [same, kept_update edit kept]
      simp [Current, here]
  | updating edit =>
      simp only [here] at goes
      obtain rfl := Option.some.inj goes
      have same : (((world.update edit).returns (world.update edit).version).put call .idle).Kept ↔
          (world.update edit).Kept := Iff.rfl
      rw [same, kept_update edit kept]
      simp [Current, here]
  | deleting =>
      simp only [here] at goes
      obtain rfl := Option.some.inj goes
      exact iff_of_true (kept_store _ call) (by simp [Current, here])
  | reading purpose floor =>
      simp only [here] at goes
      split at goes
      all_goals
        obtain rfl := Option.some.inj goes
        exact still ⟨rfl, rfl, rfl⟩ (by simp [Current, here])
  | electing =>
      simp only [here] at goes
      split at goes
      next =>
        obtain rfl := Option.some.inj goes
        exact still ⟨rfl, rfl, rfl⟩ (by simp [Current, here])
      next =>
        split at goes
        all_goals
          obtain rfl := Option.some.inj goes
          exact still ⟨rfl, rfl, rfl⟩ (by simp [Current, here])
  | checkingHandle handle =>
      simp only [here] at goes
      split at goes
      all_goals
        obtain rfl := Option.some.inj goes
        exact still ⟨rfl, rfl, rfl⟩ (by simp [Current, here])
  | checkingEmail request email user =>
      simp only [here] at goes
      split at goes
      all_goals
        obtain rfl := Option.some.inj goes
        exact still ⟨rfl, rfl, rfl⟩ (by simp [Current, here])
  | repairing =>
      simp only [here] at goes
      split at goes
      all_goals
        obtain rfl := Option.some.inj goes
        exact still ⟨rfl, rfl, rfl⟩ (by simp [Current, here])
  | invalidating version | uncaching edit | dropping =>
      simp only [here] at goes
      obtain rfl := Option.some.inj goes
      exact still ⟨rfl, rfl, rfl⟩ (by simp [Current, here])

theorem kept_step (event : Event) (world next : World) (kept : world.Kept)
    (goes : step isValidEmail validTimezone event world = some next) :
    next.Kept ↔ Current event world := by
  cases event with
  | start call start =>
      simp only [step] at goes
      split at goes
      next =>
        obtain rfl := Option.some.inj goes
        exact iff_of_true (kept_start call start kept) trivial
      next => simp at goes
  | go call now taken => exact kept_advance isValidEmail validTimezone call now taken kept goes
  | fail call | evict =>
      obtain rfl := Option.some.inj goes
      exact iff_of_true (Unmoved.kept ⟨rfl, rfl, rfl⟩ kept) trivial
  | deleteGroup name | renameGroup old new =>
      obtain rfl := Option.some.inj goes
      exact iff_of_true (kept_sweep _ kept) trivial

theorem begin_kept (user : User) : (World.begin user).Kept := by
  intro stored same
  obtain rfl := Option.some.inj same
  exact ⟨fun _ => rfl, rfl⟩

/-- No change is lost in a run just when every write finds what it read. -/
theorem changes_kept_iff (user : User) (events : List Event) (last : World)
    (reached :
      Machine.run (step isValidEmail validTimezone) events (World.begin user) = some last) :
    Machine.Always (step isValidEmail validTimezone) World.Kept events (World.begin user) ↔
      Machine.Guarded (step isValidEmail validTimezone) Current events (World.begin user) :=
  Machine.always_iff_guarded _ _ _ (kept_step isValidEmail validTimezone) events _ last
    (begin_kept user) reached

def ann : User where
  id := "u1".toList
  handle := "ann".toList
  email := "ann@example.org".toList
  name := "Ann".toList
  passwordHash := "old".toList
  timezone := none
  phone := none
  groups := []
  deactivatedAt := none
  createdAt := 0
  updatedAt := 0

def passwordThenProfile : List Event :=
  [.start 0 (.setPassword "new password".toList "new".toList), .go 0 1 false, .go 0 1 false,
    .go 0 1 false, .go 0 1 false, .go 0 1 false,
    .start 1 (.updateProfile ⟨none, none, none, some "Anna".toList⟩), .go 1 2 false,
    .go 1 2 false, .go 1 2 false, .go 1 2 false]

theorem changes_kept_iff_ann :
    Machine.Always (step (fun _ => true) fun _ => true) World.Kept passwordThenProfile
      (World.begin ann) := by
  refine (changes_kept_iff (fun _ => true) (fun _ => true) ann passwordThenProfile _ rfl).mpr ?_
  refine .cons trivial rfl (.cons ?_ rfl (.cons ?_ rfl (.cons ?_ rfl (.cons ?_ rfl (.cons ?_ rfl
    (.cons trivial rfl (.cons ?_ rfl (.cons ?_ rfl (.cons ?_ rfl (.cons ?_ rfl trivial))))))))))
  all_goals intro user stored
  · rintro copy ⟨⟩
  · trivial
  · rintro off ⟨⟩
  · obtain rfl := Option.some.inj stored
    exact fun _ _ => rfl
  · trivial
  · rintro copy ⟨⟩
  · trivial
  · rintro off ⟨⟩
  · obtain rfl := Option.some.inj stored
    exact fun _ _ => rfl

def profileAcrossPassword : List Event :=
  [.start 0 (.updateProfile ⟨none, none, none, some "Anna".toList⟩), .go 0 1 false, .go 0 1 false,
    .go 0 1 false,
    .start 1 (.setPassword "new password".toList "new".toList), .go 1 2 false, .go 1 2 false,
    .go 1 2 false, .go 0 3 false, .go 0 3 false]

theorem profile_edit_restores_password :
    ¬ ∀ (user : User) (events : List Event) (last : World),
      Machine.run (step (fun _ => true) fun _ => true) events (World.begin user) = some last →
      last.Kept := by
  intro claimed
  have hash : "old".toList = "new".toList :=
    (claimed ann profileAcrossPassword _ rfl _ rfl).1 .passwordHash
  exact absurd hash (by decide)

end Kept

end Frona.Users
