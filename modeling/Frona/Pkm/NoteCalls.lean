import Frona.Machine.Run
import Frona.Pkm.Sync

set_option autoImplicit false

namespace Frona.Pkm

open Utf8 (Text)
open PkmSyncService (dropDerivedMemories)

structure ExtractedMemory where
  kind : MemoryKind
  content : Text
  evidence : List EvidenceSource

def Database.insertMemory (db : Database) (memory : ExtractedMemory) : Database :=
  { db with
    memories := db.memories ++ [{
      id := db.nextId, kind := memory.kind, content := memory.content, disposition := .none
      replacedBy := [], evidence := memory.evidence }]
    nextId := db.nextId + 1 }

def Database.markExtracted (db : Database) (path rev : Text) : Database :=
  { db with entities := db.entities.map fun row =>
      if row.mirrors path rev then { row with extractedRev := some rev } else row }

/--
`commit_external_extract_patch_with_checkpoint`: one transaction that replaces the memories of the
note, unless its row has moved on to another revision.
-/
def Database.commitExternalExtract (db : Database) (path rev : Text)
    (batch : List ExtractedMemory) : Database :=
  if db.entities.any fun row => row.mirrors path rev then
    let dropped := (db.derivedMemories path).foldl Database.deleteMemory db
    (batch.foldl Database.insertMemory dropped).markExtracted path rev
  else db

def deleteExternalPage (env : Environment) (path : Text) : Call Unit := do
  dropDerivedMemories env ((← Call.get).db.derivedMemories path)
  update env .deleteExternal fun db => db.deleteExternalRow path

inductive NoteCall where
  | idle
  | waiting (content : Text)
  | holding (content : Text)
  | stored (content : Text) (progress : ExternalPageProgress)
  | written (content : Text) (progress : ExternalPageProgress)
  | extracting (progress : ExternalPageProgress)
  | deleting
  | rowDeleted
  deriving DecidableEq

-- The guard of the page lock lives until the push returns; a delete takes none.
def NoteCall.holdsLock : NoteCall → Bool
  | .holding _ | .stored _ _ | .written _ _ | .extracting _ => true
  | .idle | .waiting _ | .deleting | .rowDeleted => false

def NoteCall.isStored : NoteCall → Bool
  | .stored _ _ => true
  | _ => false

def NoteCall.isWritten : NoteCall → Bool
  | .written _ _ => true
  | _ => false

structure NoteCalls where
  world : World
  calls : Nat → NoteCall
  lock : Option Nat

inductive NoteAction where
  | push (id : Nat) (content : Text)
  | delete (id : Nat)
  | turn (id : Nat) (env : Environment) (batch : Option (List ExtractedMemory))

namespace NoteCalls

def goOn (state : NoteCalls) (id : Nat) (call : NoteCall) (world : World) : NoteCalls :=
  { state with world, calls := Function.update state.calls id call }

def finish (state : NoteCalls) (id : Nat) (world : World) : NoteCalls where
  world := world
  calls := Function.update state.calls id .idle
  lock := if state.lock = some id then none else state.lock

def begin (state : NoteCalls) (id : Nat) (call : NoteCall) : Option NoteCalls :=
  if state.calls id = .idle then some (state.goOn id call state.world) else none

end NoteCalls

namespace PkmSyncService

variable (service : PkmSyncService) (path : Text)

def afterUpsert (state : NoteCalls) (id : Nat) (content : Text)
    (progress : ExternalPageProgress) (world : World) : NoteCalls :=
  if progress.isComplete then state.finish id world
  else if progress.mirrorPending then state.goOn id (.stored content progress) world
  else state.goOn id (.extracting progress) world

def turn (state : NoteCalls) (id : Nat) (env : Environment)
    (batch : Option (List ExtractedMemory)) : Option NoteCalls :=
  match state.calls id with
  | .idle => none
  | .waiting content =>
      if state.lock = none then
        some { state.goOn id (.holding content) state.world with lock := some id }
      else none
  | .holding content =>
      match upsertExternal env path content (service.sha256Hex content) state.world with
      | (.ok progress, world) => some (afterUpsert state id content progress world)
      | (.error _, world) => some (state.finish id world)
  | .stored content progress =>
      match writeUserNote env path content state.world with
      | (.ok _, world) => some (state.goOn id (.written content progress) world)
      | (.error _, world) => some (state.finish id world)
  | .written _ progress =>
      match statement env .externalMirrored
          (fun db => db.markExternalPageMirrored path progress.rev) state.world with
      | (.ok true, world) =>
          if progress.extractionPending then some (state.goOn id (.extracting progress) world)
          else some (state.finish id world)
      | (_, world) => some (state.finish id world)
  | .extracting progress =>
      match batch with
      | none => some (state.finish id state.world)
      | some batch =>
          let db := state.world.db.commitExternalExtract path progress.rev batch
          some (state.finish id { state.world with db })
  | .deleting =>
      match deleteExternalPage env path state.world with
      | (.ok _, world) => some (state.goOn id .rowDeleted world)
      | (.error _, world) => some (state.finish id world)
  | .rowDeleted => some (state.finish id (Call.attempt (deleteUserNote env path) state.world).2)

def noteStep (action : NoteAction) (state : NoteCalls) : Option NoteCalls :=
  match action with
  | .push id content => state.begin id (.waiting content)
  | .delete id => state.begin id .deleting
  | .turn id env batch => service.turn path state id env batch

end PkmSyncService

section Rows

variable (db : Database) (path : Text)

theorem entityByPath_map (change : KnowledgeEntity → KnowledgeEntity)
    (kept : ∀ row, (change row).path = row.path) :
    ({ db with entities := db.entities.map change } : Database).entityByPath path =
      (db.entityByPath path).map change := by
  have same : ((fun row : KnowledgeEntity => decide (row.path = path)) ∘ change) =
      fun row => decide (row.path = path) :=
    funext fun row => by simp [kept]
  simp only [Database.entityByPath, List.find?_map, same]

theorem entityByPath_path {row : KnowledgeEntity} (found : db.entityByPath path = some row) :
    row.path = path := by
  simpa using List.find?_some found

theorem entityByPath_mem {row : KnowledgeEntity} (found : db.entityByPath path = some row) :
    row ∈ db.entities := List.mem_of_find?_eq_some found

theorem entityByPath_deleteExternalRow {row : KnowledgeEntity}
    (found : (db.deleteExternalRow path).entityByPath path = some row) :
    row.origin ≠ .external := by
  have stays := List.mem_filter.mp (entityByPath_mem _ _ found)
  have here := entityByPath_path _ _ found
  simpa [here] using stays.2

theorem commitExternalExtract_entities (rev : Text) (batch : List ExtractedMemory) :
    (db.commitExternalExtract path rev batch).entities =
      db.entities.map fun row =>
        if row.mirrors path rev then { row with extractedRev := some rev } else row := by
  have inserts (rest : List ExtractedMemory) (start : Database) :
      (rest.foldl Database.insertMemory start).entities = start.entities := by
    induction rest generalizing start with
    | nil => rfl
    | cons memory rest ih => exact (ih (start.insertMemory memory)).trans rfl
  have deletes (ids : List Nat) (start : Database) :
      (ids.foldl Database.deleteMemory start).entities = start.entities := by
    induction ids generalizing start with
    | nil => rfl
    | cons id rest ih => exact (ih (start.deleteMemory id)).trans rfl
  rw [Database.commitExternalExtract]
  split
  · simp [Database.markExtracted, inserts, deletes]
  · next stale =>
    have unchanged : ∀ row ∈ db.entities,
        (if row.mirrors path rev then { row with extractedRev := some rev } else row) = row := by
      intro row member
      exact if_neg fun same => stale (List.any_eq_true.mpr ⟨row, member, same⟩)
    exact ((List.map_congr_left unchanged).trans (List.map_id _)).symm

theorem dropDerivedMemories_keeps (env : Environment) (ids : List Nat) (world : World) :
    (dropDerivedMemories env ids world).2.db.entities = world.db.entities ∧
      (dropDerivedMemories env ids world).2.files = world.files := by
  induction ids generalizing world with
  | nil => exact ⟨rfl, rfl⟩
  | cons id rest ih =>
      cases refused : env.refuses (.deleteMemory id) with
      | true => simp [dropDerivedMemories, update, statement, refused]
      | false =>
          simp only [dropDerivedMemories, update, statement, refused, Call.bind_apply,
            Bool.false_eq_true, if_false]
          exact ih { world with db := world.db.deleteMemory id }

theorem deleteExternalPage_cases (env : Environment) (world : World) :
    (∃ error after, deleteExternalPage env path world = (.error error, after) ∧
        after.db.entities = world.db.entities ∧ after.files = world.files) ∨
      ∃ (after : World) (between : Database), deleteExternalPage env path world = (.ok (), after) ∧
        after.db = between.deleteExternalRow path ∧ between.entities = world.db.entities ∧
          after.files = world.files := by
  have kept := dropDerivedMemories_keeps env (world.db.derivedMemories path) world
  simp only [deleteExternalPage, Call.bind_apply, Call.get_apply]
  revert kept
  cases dropDerivedMemories env (world.db.derivedMemories path) world with
  | mk result between =>
      intro kept
      cases result with
      | error error => exact Or.inl ⟨error, between, rfl, kept⟩
      | ok _ =>
          by_cases refused : env.refuses .deleteExternal
          · exact Or.inl ⟨.database, between, by simp [update, statement, refused], kept⟩
          · exact Or.inr ⟨{ between with db := between.db.deleteExternalRow path }, between.db,
              by simp [update, statement, refused], rfl, kept.1, kept.2⟩

end Rows

end Frona.Pkm
