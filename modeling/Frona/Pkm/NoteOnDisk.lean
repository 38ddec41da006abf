import Frona.Pkm.NoteMirror
import Frona.Pkm.RenameSound

set_option autoImplicit false

namespace Frona.Pkm

open Utf8 (Text)
open PkmSyncService (upsertExternal)

namespace PkmSyncService

variable (service : PkmSyncService) (path : Text)

/-- A row that is marked with its revision has its file, and without a row there is none. -/
structure NoteOnDisk (world : World) : Prop where
  marked : ∀ row, world.db.entityByPath path = some row → row.origin = .external →
    row.mirroredRev = row.rev → service.OnDisk (noteFile path world.files) row.rev
  absent : world.db.entityByPath path = none → noteFile path world.files = none

/--
The file is written while the note has a row or a delete has still to remove the file, and is
removed while no row relies on it. A file that is refused leaves no mark that it does not bear out,
and one that is not deleted still has a row or another delete.
-/
def Undisturbed (action : NoteAction) (state : NoteCalls) : Prop :=
  match action with
  | .push _ _ | .delete _ => True
  | .turn id env _ =>
      let row := state.world.db.rowState path
      match state.calls id with
      | .stored _ _ =>
          if env.takes path then row ≠ none ∨ ∃ other, state.calls other = .rowDeleted
          else ∀ rev, row = some (.external, rev, rev) →
            service.OnDisk (noteFile path state.world.files) rev
      | .rowDeleted =>
          if env.letsGo path then
            ∀ rev mirrored, row = some (.external, rev, mirrored) →
              (∃ other, (state.calls other).isStored = true) ∨
                (mirrored ≠ rev ∧ ∀ other, (state.calls other).isWritten = false)
          else row = none → noteFile path state.world.files = none ∨
            ∃ other, other ≠ id ∧ state.calls other = .rowDeleted
      | _ => True

def Tracks (state : NoteCalls) : Prop :=
  service.Tracked (state.world.db.rowState path) (noteFile path state.world.files) state.calls
    state.lock

section Step

variable {service} {path} {state next : NoteCalls} {id : Nat} {env : Environment}
  {batch : Option (List ExtractedMemory)}

theorem Tracks.begin {call : NoteCall} (tracks : service.Tracks path state)
    (waits : call.holdsLock = false) (stored : call.isStored = false)
    (written : call.isWritten = false) (begun : state.begin id call = some next) :
    service.Tracks path next := by
  rw [NoteCalls.begin] at begun
  split at begun
  next idle =>
    obtain rfl := Option.some.inj begun
    refine tracks.goOn id call ?_ stored written (by simp [idle])
      (by simp [idle, NoteCall.isStored])
    intro other active
    by_cases same : other = id
    · simp [same, waits] at active
    · exact tracks.locked other (by simpa [same] using active)
  next => simp at begun

theorem Tracks.finish {world : World} (tracks : service.Tracks path state) (id : Nat)
    (row : world.db.rowState path = state.world.db.rowState path)
    (files : world.files = state.world.files) (was : state.calls id ≠ .rowDeleted)
    (settled : (state.calls id).isStored = true →
      ∀ rev, state.world.db.rowState path = some (.external, rev, rev) →
        service.OnDisk (noteFile path state.world.files) rev) :
    service.Tracks path (state.finish id world) := by
  have moved := Tracked.goOn tracks id .idle tracks.released rfl rfl was settled
  simpa only [Tracks, NoteCalls.finish, row, files] using moved

theorem Tracks.extract {world : World} {progress : ExternalPageProgress}
    (tracks : service.Tracks path state) (id : Nat)
    (row : world.db.rowState path = state.world.db.rowState path)
    (files : world.files = state.world.files) (holds : (state.calls id).holdsLock = true)
    (notStored : (state.calls id).isStored = false) :
    service.Tracks path (state.goOn id (.extracting progress) world) := by
  have was : state.calls id ≠ .rowDeleted := by
    intro same
    simp [same, NoteCall.holdsLock] at holds
  have locks (other : Nat)
      (active : (Function.update state.calls id (.extracting progress) other).holdsLock = true) :
      state.lock = some other := by
    by_cases same : other = id
    · exact same ▸ tracks.locked id holds
    · exact tracks.locked other (by simpa [same] using active)
  have moved := Tracked.goOn tracks id (.extracting progress) locks rfl rfl was (by simp [notStored])
  simpa only [Tracks, NoteCalls.goOn, row, files] using moved

theorem Tracks.acquire {content : Text} (tracks : service.Tracks path state)
    (waiting : state.calls id = .waiting content) (free : state.lock = none) :
    service.Tracks path { state.goOn id (.holding content) state.world with lock := some id } := by
  refine Tracked.goOn tracks id (.holding content) (fun other active => ?_) rfl rfl (by simp [waiting])
    (by simp [waiting, NoteCall.isStored])
  by_cases same : other = id
  · rw [same]
  · have held := tracks.locked other (by simpa [same] using active)
    simp [free] at held

theorem Tracks.upsert {content : Text} (tracks : service.Tracks path state)
    (holding : state.calls id = .holding content)
    (taken : service.turn path state id env batch = some next) : service.Tracks path next := by
  have holds : (state.calls id).holdsLock = true := by simp [holding, NoteCall.holdsLock]
  have notStored : (state.calls id).isStored = false := by simp [holding, NoteCall.isStored]
  have was : state.calls id ≠ .rowDeleted := by simp [holding]
  simp only [turn, holding] at taken
  obtain ⟨error, outcome⟩ | ⟨progress, outcome, hashed, mirrored, held⟩ |
    ⟨db, mirrored, outcome, held⟩ :=
    upsertExternal_cases path env content (service.sha256Hex content) state.world
  · simp only [outcome, Option.some.injEq] at taken
    rw [← taken]
    exact tracks.finish id rfl rfl was (by simp [notStored])
  · simp only [outcome, Option.some.injEq, afterUpsert] at taken
    rw [← taken]
    split
    · exact tracks.finish id rfl rfl was (by simp [notStored])
    · split
      · have accepted := Tracked.accept tracks progress mirrored holding hashed
        rw [hashed, ← held] at accepted
        exact accepted
      · exact tracks.extract id rfl rfl holds notStored
  · simp only [outcome, Option.some.injEq, afterUpsert, ExternalPageProgress.isComplete] at taken
    rw [← taken]
    have accepted := Tracked.accept tracks ⟨service.sha256Hex content, true, true⟩ mirrored
      holding rfl
    simpa [Tracks, NoteCalls.goOn, held] using accepted

theorem Tracks.write {content : Text} {progress : ExternalPageProgress}
    (tracks : service.Tracks path state) (stored : state.calls id = .stored content progress)
    (undisturbed : service.Undisturbed path (.turn id env batch) state)
    (taken : service.turn path state id env batch = some next) : service.Tracks path next := by
  simp only [turn, stored] at taken
  simp only [Undisturbed, stored] at undisturbed
  obtain ⟨refused, error, outcome⟩ | ⟨accepted, files, outcome, written⟩ :=
    writeUserNote_cases path env content state.world
  · simp only [outcome, Option.some.injEq] at taken
    rw [← taken]
    simp only [refused, Bool.false_eq_true, if_false] at undisturbed
    exact tracks.finish id rfl rfl (by simp [stored]) fun _ => undisturbed
  · simp only [outcome, Option.some.injEq] at taken
    rw [← taken]
    simp only [accepted, if_true] at undisturbed
    have moved := Tracked.write tracks stored undisturbed
    rw [← written] at moved
    exact moved

theorem Tracks.mark {content : Text} {progress : ExternalPageProgress}
    (tracks : service.Tracks path state) (written : state.calls id = .written content progress)
    (taken : service.turn path state id env batch = some next) : service.Tracks path next := by
  have holds : (state.calls id).holdsLock = true := by simp [written, NoteCall.holdsLock]
  have notStored : (state.calls id).isStored = false := by simp [written, NoteCall.isStored]
  have was : state.calls id ≠ .rowDeleted := by simp [written]
  simp only [turn, written, statement] at taken
  by_cases refused : env.refuses .externalMirrored
  · simp only [refused, if_true, Option.some.injEq] at taken
    rw [← taken]
    exact tracks.finish id rfl rfl was (by simp [notStored])
  · simp only [refused, Bool.false_eq_true, if_false] at taken
    have marked := Tracked.mark tracks written
    rw [← rowState_mark path state.world.db progress.rev] at marked
    have after : service.Tracks path { state with world := { state.world with
        db := (state.world.db.markExternalPageMirrored path progress.rev).2 } } := marked
    cases held : (state.world.db.markExternalPageMirrored path progress.rev).1 with
    | true =>
        simp only [held] at taken
        split at taken
        · obtain rfl := Option.some.inj taken
          exact after.extract id rfl rfl holds notStored
        · obtain rfl := Option.some.inj taken
          exact after.finish id rfl rfl was (by simp [notStored])
    | false =>
        simp only [held] at taken
        obtain rfl := Option.some.inj taken
        exact after.finish id rfl rfl was (by simp [notStored])

theorem Tracks.delete (tracks : service.Tracks path state) (deleting : state.calls id = .deleting)
    (taken : service.turn path state id env batch = some next) : service.Tracks path next := by
  simp only [turn, deleting] at taken
  obtain ⟨error, after, outcome, rows, files⟩ | ⟨after, between, outcome, row, rows, files⟩ :=
    deleteExternalPage_cases path env state.world
  · simp only [outcome, Option.some.injEq] at taken
    rw [← taken]
    exact tracks.finish id (rowState_of_entities path rows) files (by simp [deleting])
      (by simp [deleting, NoteCall.isStored])
  · simp only [outcome, Option.some.injEq] at taken
    rw [← taken]
    have dropped := Tracked.dropRow tracks id fun rev mirrored =>
      rowState_deleteExternalRow path between rev mirrored
    simpa only [Tracks, NoteCalls.goOn, row, files] using dropped

theorem Tracks.step (action : NoteAction) (tracks : service.Tracks path state)
    (undisturbed : service.Undisturbed path action state)
    (taken : service.noteStep path action state = some next) : service.Tracks path next := by
  cases action with
  | push id content => exact tracks.begin rfl rfl rfl taken
  | delete id => exact tracks.begin rfl rfl rfl taken
  | turn id env batch =>
      change service.turn path state id env batch = some next at taken
      cases stage : state.calls id with
      | idle => simp [turn, stage] at taken
      | waiting content =>
          simp only [turn, stage] at taken
          split at taken
          next free =>
            obtain rfl := Option.some.inj taken
            exact tracks.acquire stage free
          next => simp at taken
      | holding content => exact tracks.upsert stage taken
      | stored content progress => exact tracks.write stage undisturbed taken
      | written content progress => exact tracks.mark stage taken
      | extracting progress =>
          have was : state.calls id ≠ .rowDeleted := by simp [stage]
          have notStored : (state.calls id).isStored = false := by simp [stage, NoteCall.isStored]
          cases batch with
          | none =>
              simp only [turn, stage, Option.some.injEq] at taken
              rw [← taken]
              exact tracks.finish id rfl rfl was (by simp [notStored])
          | some batch =>
              simp only [turn, stage, Option.some.injEq] at taken
              rw [← taken]
              refine tracks.finish id ?_ rfl was (by simp [notStored])
              exact rowState_commitExternalExtract path _ _ _
      | deleting => exact tracks.delete stage taken
      | rowDeleted =>
          simp only [turn, stage, Option.some.injEq] at taken
          simp only [Undisturbed, stage] at undisturbed
          obtain ⟨db, file⟩ := deleteUserNote_after path env state.world
          rw [← taken]
          cases removed : env.letsGo path with
          | true =>
              rw [if_pos removed] at undisturbed file
              have dropped := Tracked.dropFile tracks stage undisturbed
              simpa only [Tracks, NoteCalls.finish, db, file] using dropped
          | false =>
              rw [if_neg (by simp [removed])] at undisturbed file
              have kept := Tracked.keepFile tracks stage undisturbed
              simpa only [Tracks, NoteCalls.finish, db, file] using kept

end Step

section Quiet

variable {service} {path} {state : NoteCalls}

theorem tracks_of_noteOnDisk (onDisk : service.NoteOnDisk path state.world)
    (quiet : ∀ id, state.calls id = .idle) : service.Tracks path state where
  locked id holds := by simp [quiet, NoteCall.holdsLock] at holds
  gone missing := Or.inl (onDisk.absent ((rowState_eq_none path).mp missing))
  kept _ rev held := by
    obtain ⟨row, found, same⟩ := Option.map_eq_some_iff.mp held
    simp only [Prod.mk.injEq] at same
    obtain ⟨origin, revision, mirrored⟩ := same
    have marked := onDisk.marked row found origin (mirrored.trans revision.symm)
    rwa [revision] at marked
  stored id content progress here := by simp [quiet] at here
  written id content progress here := by simp [quiet] at here

theorem Tracks.noteOnDisk (tracks : service.Tracks path state)
    (quiet : ∀ id, state.calls id = .idle) : service.NoteOnDisk path state.world where
  marked row found origin same := by
    refine tracks.kept (fun id => by rw [quiet]; rfl) row.rev ?_
    simp [Database.rowState, found, origin, same]
  absent missing := by
    obtain none' | ⟨id, deleted⟩ := tracks.gone ((rowState_eq_none path).mpr missing)
    · exact none'
    · simp [quiet] at deleted

end Quiet

end PkmSyncService

section Runs

def standup : Text := "Work/standup".toList

def noNotes : NoteCalls where
  world := ⟨⟨[], [], [], [], 0⟩, fun _ => none⟩
  calls := fun _ => .idle
  lock := none

def takeTurn (id : Nat) : NoteAction := .turn id plainEnvironment none

def wholePush (id : Nat) (content : Text) : List NoteAction :=
  .push id content :: List.replicate 5 (takeTurn id)

def firstText : Text := "first".toList

def secondText : Text := "second".toList

def pushedAfter : List NoteAction :=
  wholePush 0 firstText ++ [.delete 1, .push 2 secondText, takeTurn 1, takeTurn 1] ++
    List.replicate 5 (takeTurn 2)

def pushedBetween : List NoteAction :=
  wholePush 0 firstText ++ [.delete 1, takeTurn 1] ++ wholePush 2 secondText ++ [takeTurn 1]

def afterActions (actions : List NoteAction) : Option NoteCalls :=
  Machine.run (plainService.noteStep standup) actions noNotes

/-- Whenever no call is in progress, the row of the note tells what is on disk. -/
theorem PkmSyncService.noteOnDisk_run (service : PkmSyncService) (path : Text)
    (start last : NoteCalls) (actions : List NoteAction)
    (settled : service.NoteOnDisk path start.world) (idle : ∀ id, start.calls id = .idle)
    (undisturbed : Machine.Guarded (service.noteStep path) (service.Undisturbed path) actions start)
    (reached : Machine.run (service.noteStep path) actions start = some last)
    (quiet : ∀ id, last.calls id = .idle) : service.NoteOnDisk path last.world := by
  have tracks := Machine.invariant_run (service.noteStep path) (service.Undisturbed path)
    (service.Tracks path) (fun action state next held allowed taken =>
      Tracks.step action held allowed taken)
    actions start last (tracks_of_noteOnDisk settled idle) undisturbed reached
  exact tracks.noteOnDisk quiet

example : (afterActions pushedAfter).map (fun last => last.world.db.rowState standup) =
      some (some (.external, some secondText, some secondText)) ∧
    (afterActions pushedAfter).map (fun last => noteFile standup last.world.files) =
      some (some secondText) := by decide +kernel

theorem noNotes_onDisk : plainService.NoteOnDisk standup noNotes.world where
  marked row found := by simp [noNotes, Database.entityByPath] at found
  absent _ := rfl

theorem pushedAfter_quiet : ∀ id, (afterActions pushedAfter).map (fun last => last.calls id) =
    some .idle
  | 0 => by decide
  | 1 => by decide
  | 2 => by decide
  | _ + 3 => rfl

theorem pushedBetween_quiet : ∀ id, (afterActions pushedBetween).map (fun last => last.calls id) =
    some .idle
  | 0 => by decide
  | 1 => by decide
  | 2 => by decide
  | _ + 3 => rfl

/-- Files are written for a row, and removed when there is none. -/
def calm (action : NoteAction) (state : NoteCalls) : Bool :=
  match action with
  | .push _ _ | .delete _ => true
  | .turn id env _ =>
      let row := state.world.db.rowState standup
      match state.calls id with
      | .stored _ _ => env.takes standup && row.isSome
      | .rowDeleted => row.isNone && env.letsGo standup
      | _ => true

theorem undisturbed_of_calm (action : NoteAction) (state : NoteCalls)
    (quiet : calm action state = true) : plainService.Undisturbed standup action state := by
  cases action with
  | push id content => trivial
  | delete id => trivial
  | turn id env batch =>
      cases stage : state.calls id <;>
        simp_all [calm, PkmSyncService.Undisturbed, Option.isSome_iff_ne_none]

theorem noteOnDisk_pushedAfter :
    (afterActions pushedAfter).elim False fun last =>
      plainService.NoteOnDisk standup last.world := by
  have quiet := pushedAfter_quiet
  cases ran : afterActions pushedAfter with
  | none => simpa [ran] using quiet 0
  | some last =>
      have guarded : Machine.Guarded (plainService.noteStep standup)
          (fun action state => calm action state = true) pushedAfter noNotes := by
        decide
      exact plainService.noteOnDisk_run standup noNotes last pushedAfter noNotes_onDisk
        (fun _ => rfl) (guarded.mono undisturbed_of_calm) ran
        fun id => by simpa [ran] using quiet id

theorem push_lost :
    ∃ last, Machine.run (plainService.noteStep standup) pushedBetween noNotes = some last ∧
      (∀ id, last.calls id = .idle) ∧ ¬ plainService.NoteOnDisk standup last.world := by
  cases ran : afterActions pushedBetween with
  | none => simpa [ran] using pushedBetween_quiet 0
  | some last =>
      refine ⟨last, ran, fun id => by simpa [ran] using pushedBetween_quiet id, fun onDisk => ?_⟩
      have row : (afterActions pushedBetween).map (fun last => last.world.db.rowState standup) =
          some (some (.external, some secondText, some secondText)) := by decide
      have file : (afterActions pushedBetween).map (fun last =>
          noteFile standup last.world.files) = some none := by decide
      simp only [ran, Option.map_some, Option.some.injEq] at row file
      obtain ⟨held, found, same⟩ := Option.map_eq_some_iff.mp row
      simp only [Prod.mk.injEq] at same
      have ⟨content, present, _⟩ :=
        onDisk.marked held found same.1 (same.2.2.trans same.2.1.symm)
      simp [file] at present

end Runs

end Frona.Pkm
