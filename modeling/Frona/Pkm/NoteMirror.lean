import Frona.Pkm.NoteCalls

set_option autoImplicit false

namespace Frona.Pkm

open Utf8 (Text)
open PkmSyncService (upsertExternal)

def noteFile (path : Text) (files : Files) : Option Text :=
  match noteKey path with
  | .ok key => files key
  | .error _ => none

abbrev RowState := EntityOrigin × Option Text × Option Text

def RowState.mark (rev : Text) (row : RowState) : RowState :=
  if row.1 = .external ∧ row.2.1 = some rev then (row.1, row.2.1, some rev) else row

def Database.rowState (db : Database) (path : Text) : Option RowState :=
  (db.entityByPath path).map fun row => (row.origin, row.rev, row.mirroredRev)

def Environment.takes (env : Environment) (path : Text) : Bool :=
  match noteKey path with
  | .ok key => env.accepts key
  | .error _ => false

def Environment.letsGo (env : Environment) (path : Text) : Bool :=
  match noteKey path with
  | .ok key => env.removes key
  | .error _ => true

section Observed

variable (path : Text)

theorem rowState_of_entities {db other : Database} (same : other.entities = db.entities) :
    other.rowState path = db.rowState path := by
  simp only [Database.rowState, Database.entityByPath, same]

theorem rowState_map (db : Database) (change : KnowledgeEntity → KnowledgeEntity)
    (kept : ∀ row, (change row).path = row.path) :
    ({ db with entities := db.entities.map change } : Database).rowState path =
      (db.entityByPath path).map fun row =>
        ((change row).origin, (change row).rev, (change row).mirroredRev) := by
  rw [Database.rowState, entityByPath_map _ _ _ kept, Option.map_map]
  rfl

theorem rowState_eq_none {db : Database} :
    db.rowState path = none ↔ db.entityByPath path = none := by
  simp [Database.rowState]

theorem rowState_commitExternalExtract (db : Database) (rev : Text)
    (batch : List ExtractedMemory) :
    (db.commitExternalExtract path rev batch).rowState path = db.rowState path := by
  have entities := commitExternalExtract_entities db path rev batch
  have same : (db.commitExternalExtract path rev batch).rowState path =
      ({ db with entities := _ } : Database).rowState path := rowState_of_entities path entities
  rw [same, rowState_map]
  · rw [Database.rowState]
    congr 1
    funext row
    split <;> rfl
  · intro row
    split <;> rfl

theorem rowState_deleteExternalRow (db : Database) (rev mirrored : Option Text) :
    (db.deleteExternalRow path).rowState path ≠ some (.external, rev, mirrored) := by
  intro found
  obtain ⟨row, found, same⟩ := Option.map_eq_some_iff.mp found
  exact entityByPath_deleteExternalRow db path found (congrArg Prod.fst same)

theorem rowState_mark (db : Database) (rev : Text) :
    (db.markExternalPageMirrored path rev).2.rowState path =
      (db.rowState path).map (RowState.mark rev) := by
  have kept : ∀ row : KnowledgeEntity,
      (if row.mirrors path rev then { row with mirroredRev := some rev } else row).path =
        row.path := by
    intro row
    split <;> rfl
  rw [Database.markExternalPageMirrored, rowState_map _ _ _ kept, Database.rowState,
    Option.map_map]
  refine Option.map_congr fun row found => ?_
  have here := entityByPath_path _ _ found
  by_cases marked : row.origin = .external ∧ row.rev = some rev <;>
    simp [KnowledgeEntity.mirrors, RowState.mark, here, marked]

theorem upsertExternal_cases (env : Environment) (content rev : Text) (world : World) :
    (∃ error, upsertExternal env path content rev world = (.error error, world)) ∨
      (∃ progress, upsertExternal env path content rev world = (.ok progress, world) ∧
        progress.rev = rev ∧ ∃ mirrored,
          world.db.rowState path = some (.external, some rev, mirrored)) ∨
      ∃ db mirrored, upsertExternal env path content rev world =
          (.ok ⟨rev, true, true⟩, { world with db }) ∧
        db.rowState path = some (.external, some rev, mirrored) := by
  have accept (db : Database) (mirrored : Option Text)
      (upserted : world.db.upsertExternalPage path content rev = .stored db)
      (stored : db.rowState path = some (.external, some rev, mirrored)) :
      (∃ error, upsertExternal env path content rev world = (.error error, world)) ∨
        ∃ db mirrored, upsertExternal env path content rev world =
            (.ok ⟨rev, true, true⟩, { world with db }) ∧
          db.rowState path = some (.external, some rev, mirrored) := by
    by_cases refused : env.refuses .externalPage
    · exact Or.inl ⟨.database, by simp [upsertExternal, upserted, refused]⟩
    · exact Or.inr ⟨db, mirrored, by simp [upsertExternal, upserted, refused], stored⟩
  cases found : world.db.entityByPath path with
  | none =>
      have upserted : world.db.upsertExternalPage path content rev =
          .stored (world.db.insertEntity path (lastSegment path) .external content (some rev)) := by
        simp [Database.upsertExternalPage, found]
      refine (accept _ none upserted ?_).imp_right Or.inr
      have missing := found
      rw [Database.entityByPath] at missing
      simp [Database.rowState, Database.entityByPath, Database.insertEntity, List.find?_append,
        missing]
  | some row =>
      by_cases origin : row.origin = .external
      · by_cases same : row.rev = some rev
        · refine Or.inr (Or.inl ⟨externalPageProgress row rev, ?_, rfl, row.mirroredRev, ?_⟩)
          · simp [upsertExternal, Database.upsertExternalPage, found, origin, same]
          · simp [Database.rowState, found, origin, same]
        · have upserted : world.db.upsertExternalPage path content rev =
              .stored (world.db.updateExternal path content rev) := by
            simp [Database.upsertExternalPage, found, origin, same]
          refine (accept _ row.mirroredRev upserted ?_).imp_right Or.inr
          have here := entityByPath_path _ _ found
          rw [Database.updateExternal, rowState_map, found]
          · simp [here, origin]
          · intro other
            split <;> rfl
      · refine Or.inl ⟨.conflict (cannotReplace path), ?_⟩
        simp [upsertExternal, Database.upsertExternalPage, found, origin]

theorem writeUserNote_cases (env : Environment) (content : Text) (world : World) :
    (env.takes path = false ∧ ∃ error,
        writeUserNote env path content world = (.error error, world)) ∨
      (env.takes path = true ∧ ∃ files, writeUserNote env path content world =
          (.ok (), { world with files }) ∧ noteFile path files = some content) := by
  cases named : noteKey path with
  | error error => exact Or.inl ⟨by simp [Environment.takes, named], error, by
      simp [writeUserNote, named]⟩
  | ok key =>
      by_cases accepted : env.accepts key
      · exact Or.inr ⟨by simp [Environment.takes, named, accepted], _, by
          simp only [writeUserNote, named, writeFile, accepted, Call.bind_apply,
            Call.fromExcept_apply, if_true]; rfl, by simp [noteFile, named]⟩
      · exact Or.inl ⟨by simp [Environment.takes, named, accepted], .internal writeFailed, by
          simp [writeUserNote, named, writeFile, accepted]⟩

theorem deleteUserNote_after (env : Environment) (world : World) :
    (Call.attempt (deleteUserNote env path) world).2.db = world.db ∧
      noteFile path (Call.attempt (deleteUserNote env path) world).2.files =
        if env.letsGo path then none else noteFile path world.files := by
  cases named : noteKey path with
  | error error => simp [deleteUserNote, noteFile, named, Environment.letsGo]
  | ok key =>
      cases removed : env.removes key <;>
        simp [deleteUserNote, noteFile, named, removeFile_after, freed, Environment.letsGo, removed]

end Observed

section Tracked

variable (service : PkmSyncService)

def PkmSyncService.OnDisk (file : Option Text) (rev : Option Text) : Prop :=
  ∃ content, file = some content ∧ rev = some (service.sha256Hex content)

structure PkmSyncService.Tracked (row : Option RowState) (file : Option Text)
    (calls : Nat → NoteCall) (lock : Option Nat) : Prop where
  locked : ∀ id, (calls id).holdsLock = true → lock = some id
  gone : row = none → file = none ∨ ∃ id, calls id = .rowDeleted
  kept : (∀ id, (calls id).isStored = false) →
    ∀ rev, row = some (.external, rev, rev) → service.OnDisk file rev
  stored : ∀ id content progress, calls id = .stored content progress →
    progress.rev = service.sha256Hex content ∧
      ∀ rev mirrored, row = some (.external, rev, mirrored) → rev = some progress.rev
  written : ∀ id content progress, calls id = .written content progress →
    ∀ rev mirrored, row = some (.external, rev, mirrored) →
      rev = some progress.rev ∧ service.OnDisk file rev

variable {service} {row : Option RowState} {file : Option Text} {calls : Nat → NoteCall}
  {lock : Option Nat} {id : Nat}

-- Any other call that holds the lock would hold it beside this one.
theorem PkmSyncService.Tracked.alone (tracked : service.Tracked row file calls lock)
    (holds : (calls id).holdsLock = true) {other : Nat}
    (also : (calls other).holdsLock = true) : other = id := by
  have first := tracked.locked id holds
  have second := tracked.locked other also
  exact Option.some.inj (second.symm.trans first)

theorem PkmSyncService.Tracked.goOn (tracked : service.Tracked row file calls lock)
    (id : Nat) (call : NoteCall) {lock' : Option Nat}
    (locks : ∀ other, (Function.update calls id call other).holdsLock = true →
      lock' = some other)
    (notStored : call.isStored = false) (notWritten : call.isWritten = false)
    (was : calls id ≠ .rowDeleted)
    (settled : (calls id).isStored = true →
      ∀ rev, row = some (.external, rev, rev) → service.OnDisk file rev) :
    service.Tracked row file (Function.update calls id call) lock' where
  locked := locks
  gone := by
    intro missing
    refine (tracked.gone missing).imp_right ?_
    intro ⟨other, deleted⟩
    have apart : other ≠ id := fun same => was (same ▸ deleted)
    exact ⟨other, by simp [apart, deleted]⟩
  kept := by
    intro none' rev marked
    by_cases stored : (calls id).isStored = true
    · exact settled stored rev marked
    · refine tracked.kept ?_ rev marked
      intro other
      by_cases same : other = id
      · simpa [same] using stored
      · simpa [same] using none' other
  stored := by
    intro other content progress here
    by_cases same : other = id
    · subst same
      simp only [Function.update_self] at here
      simp [here, NoteCall.isStored] at notStored
    · exact tracked.stored other content progress (by simpa [same] using here)
  written := by
    intro other content progress here
    by_cases same : other = id
    · subst same
      simp only [Function.update_self] at here
      simp [here, NoteCall.isWritten] at notWritten
    · exact tracked.written other content progress (by simpa [same] using here)

theorem PkmSyncService.Tracked.released (tracked : service.Tracked row file calls lock)
    (other : Nat) (holds : (Function.update calls id .idle other).holdsLock = true) :
    (if lock = some id then none else lock) = some other := by
  by_cases same : other = id
  · simp [same, NoteCall.holdsLock] at holds
  · have held := tracked.locked other (by simpa [same] using holds)
    simp [held, same]

theorem PkmSyncService.Tracked.accept (tracked : service.Tracked row file calls lock)
    (progress : ExternalPageProgress) (mirrored : Option Text) {content : Text}
    (holding : calls id = .holding content) (hashed : progress.rev = service.sha256Hex content) :
    service.Tracked (some (.external, some progress.rev, mirrored)) file
      (Function.update calls id (.stored content progress)) lock := by
  have holds : (calls id).holdsLock = true := by simp [holding, NoteCall.holdsLock]
  have only (other : Nat) (call : NoteCall) (active : call.holdsLock = true)
      (here : Function.update calls id (.stored content progress) other = call) : other = id := by
    by_contra apart
    have before : calls other = call := by simpa [apart] using here
    exact apart (tracked.alone holds (before ▸ active))
  constructor
  · intro other active
    obtain rfl := only other _ active rfl
    exact tracked.locked other holds
  · simp
  · intro noneStored
    simpa [NoteCall.isStored] using noneStored id
  · intro other text work here
    obtain rfl := only other _ rfl here
    simp only [Function.update_self, NoteCall.stored.injEq] at here
    obtain ⟨rfl, rfl⟩ := here
    exact ⟨hashed, by simp⟩
  · intro other text work here
    obtain rfl := only other _ rfl here
    simp at here

theorem PkmSyncService.Tracked.write (tracked : service.Tracked row file calls lock)
    {content : Text} {progress : ExternalPageProgress}
    (stored : calls id = .stored content progress)
    (answered : row ≠ none ∨ ∃ other, calls other = .rowDeleted) :
    service.Tracked row (some content) (Function.update calls id (.written content progress))
      lock := by
  have holds : (calls id).holdsLock = true := by simp [stored, NoteCall.holdsLock]
  have ⟨hashed, current⟩ := tracked.stored id content progress stored
  have only (other : Nat) (call : NoteCall) (active : call.holdsLock = true)
      (here : Function.update calls id (.written content progress) other = call) : other = id := by
    by_contra apart
    have before : calls other = call := by simpa [apart] using here
    exact apart (tracked.alone holds (before ▸ active))
  have onDisk (rev mirrored : Option Text) (held : row = some (.external, rev, mirrored)) :
      rev = some progress.rev ∧ service.OnDisk (some content) rev := by
    have same := current rev mirrored held
    exact ⟨same, content, rfl, by rw [same, hashed]⟩
  constructor
  · intro other active
    obtain rfl := only other _ active rfl
    exact tracked.locked other holds
  · intro missing
    obtain present | ⟨other, deleted⟩ := answered
    · exact absurd missing present
    · have apart : other ≠ id := by
        intro same
        simp [same, stored] at deleted
      exact Or.inr ⟨other, by simp [apart, deleted]⟩
  · intro _ rev marked
    exact (onDisk rev rev marked).2
  · intro other text work here
    obtain rfl := only other _ rfl here
    simp at here
  · intro other text work here
    obtain rfl := only other _ rfl here
    simp only [Function.update_self, NoteCall.written.injEq] at here
    obtain ⟨rfl, rfl⟩ := here
    exact onDisk

theorem PkmSyncService.Tracked.mark (tracked : service.Tracked row file calls lock)
    {content : Text} {progress : ExternalPageProgress}
    (written : calls id = .written content progress) :
    service.Tracked (row.map (RowState.mark progress.rev)) file calls lock := by
  have current := tracked.written id content progress written
  have before (rev mirrored : Option Text)
      (held : row.map (RowState.mark progress.rev) = some (.external, rev, mirrored)) :
      ∃ old, row = some (.external, rev, old) := by
    obtain ⟨⟨origin, revision, old⟩, found, same⟩ := Option.map_eq_some_iff.mp held
    refine ⟨old, ?_⟩
    by_cases marked : origin = .external ∧ revision = some progress.rev
    · simp_all [RowState.mark]
    · simp [RowState.mark, marked] at same
      simp [found, same]
  constructor
  · exact tracked.locked
  · intro missing
    exact tracked.gone (by simpa using missing)
  · intro _ rev marked
    have ⟨old, held⟩ := before rev rev marked
    exact (current rev old held).2
  · intro other text work here
    refine ⟨(tracked.stored other text work here).1, ?_⟩
    intro rev mirrored held
    have ⟨old, held⟩ := before rev mirrored held
    exact (tracked.stored other text work here).2 rev old held
  · intro other text work here rev mirrored held
    have ⟨old, held⟩ := before rev mirrored held
    exact tracked.written other text work here rev old held

theorem PkmSyncService.Tracked.dropRow (tracked : service.Tracked row file calls lock)
    (id : Nat) {left : Option RowState}
    (dropped : ∀ rev mirrored, left ≠ some (.external, rev, mirrored)) :
    service.Tracked left file (Function.update calls id .rowDeleted) lock := by
  have before (other : Nat) (call : NoteCall) (apart : call ≠ .rowDeleted)
      (here : Function.update calls id .rowDeleted other = call) : calls other = call := by
    by_cases same : other = id
    · rw [same, Function.update_self] at here
      exact absurd here.symm apart
    · simpa [same] using here
  constructor
  · intro other active
    have kept : calls other = Function.update calls id .rowDeleted other := by
      refine before other _ ?_ rfl
      intro same
      rw [same] at active
      simp [NoteCall.holdsLock] at active
    exact tracked.locked other (kept ▸ active)
  · exact fun _ => Or.inr ⟨id, by simp⟩
  · intro _ rev marked
    exact absurd marked (dropped rev rev)
  · intro other text work here
    have here := before other _ (by simp) here
    exact ⟨(tracked.stored other text work here).1, fun rev mirrored held =>
      absurd held (dropped rev mirrored)⟩
  · intro other text work here rev mirrored held
    exact absurd held (dropped rev mirrored)

theorem PkmSyncService.Tracked.dropFile (tracked : service.Tracked row file calls lock)
    (deleted : calls id = .rowDeleted)
    (unneeded : ∀ rev mirrored, row = some (.external, rev, mirrored) →
      (∃ other, (calls other).isStored = true) ∨
        (mirrored ≠ rev ∧ ∀ other, (calls other).isWritten = false)) :
    service.Tracked row none (Function.update calls id .idle)
      (if lock = some id then none else lock) := by
  have before (other : Nat) (call : NoteCall) (active : call ≠ .idle)
      (here : Function.update calls id .idle other = call) : calls other = call := by
    by_cases same : other = id
    · rw [same, Function.update_self] at here
      exact absurd here.symm active
    · simpa [same] using here
  constructor
  · exact tracked.released
  · exact fun _ => Or.inl rfl
  · intro noneStored rev marked
    exfalso
    obtain ⟨other, stored⟩ | ⟨unmarked, _⟩ := unneeded rev rev marked
    · have apart : other ≠ id := by
        intro same
        simp [same, deleted, NoteCall.isStored] at stored
      simpa [apart, stored] using noneStored other
    · exact unmarked rfl
  · intro other text work here
    exact tracked.stored other text work (before other _ (by simp) here)
  · intro other text work here rev mirrored held
    exfalso
    have here := before other _ (by simp) here
    obtain ⟨another, stored⟩ | ⟨_, unwritten⟩ := unneeded rev mirrored held
    · -- one call holds the lock, so it cannot be before and after its write
      have active : (calls another).holdsLock = true := by
        cases stage : calls another <;> simp_all [NoteCall.isStored, NoteCall.holdsLock]
      have same : another = other :=
        tracked.alone (by simp [here, NoteCall.holdsLock]) active
      simp [same, here, NoteCall.isStored] at stored
    · simpa [here, NoteCall.isWritten] using unwritten other

theorem PkmSyncService.Tracked.keepFile (tracked : service.Tracked row file calls lock)
    (deleted : calls id = .rowDeleted)
    (answered : row = none → file = none ∨ ∃ other, other ≠ id ∧ calls other = .rowDeleted) :
    service.Tracked row file (Function.update calls id .idle)
      (if lock = some id then none else lock) := by
  have before (other : Nat) (call : NoteCall) (active : call ≠ .idle)
      (here : Function.update calls id .idle other = call) : calls other = call := by
    by_cases same : other = id
    · rw [same, Function.update_self] at here
      exact absurd here.symm active
    · simpa [same] using here
  constructor
  · exact tracked.released
  · intro missing
    refine (answered missing).imp_right ?_
    intro ⟨other, apart, stage⟩
    exact ⟨other, by simp [apart, stage]⟩
  · intro noneStored
    refine tracked.kept fun other => ?_
    by_cases same : other = id
    · simp [same, deleted, NoteCall.isStored]
    · simpa [same] using noneStored other
  · intro other text work here
    exact tracked.stored other text work (before other _ (by simp) here)
  · intro other text work here
    exact tracked.written other text work (before other _ (by simp) here)

end Tracked

end Frona.Pkm
