import Mathlib.Data.List.TakeWhile
import Frona.Pkm.CallSpec

set_option autoImplicit false

namespace Frona.Pkm

open Utf8 (Text)

namespace Database

variable (db : Database) (path : Text) (write : PageEditWrite)

theorem applyMemoryOp_entities (op : PageEditMemoryOp) :
    (db.applyMemoryOp path op).entities = db.entities := by
  cases op <;> rfl

theorem applyMemoryOps_entities (ops : List PageEditMemoryOp) :
    (ops.foldl (fun db op => db.applyMemoryOp path op) db).entities = db.entities := by
  induction ops generalizing db with
  | nil => rfl
  | cons op ops ih => rw [List.foldl_cons, ih, applyMemoryOp_entities]

def rewrite (row : KnowledgeEntity) : KnowledgeEntity :=
  if row.path = path then
    { row with body := write.body, syncContent := some write.content, rev := some write.rev }
  else row

theorem applyPageEdit_entities :
    (db.applyPageEdit path write).entities =
      (db.insertMissing path write).entities.map (rewrite path write) := by
  simp only [applyPageEdit, writePage, applyMemoryOps_entities]
  rfl

theorem insertMissing_rows (row : KnowledgeEntity)
    (stored : row ∈ (db.insertMissing path write).entities) (other : row.path ≠ path) :
    row ∈ db.entities := by
  unfold insertMissing at stored
  split at stored
  · cases List.mem_append.mp stored with
    | inl present => exact present
    | inr new =>
        rw [List.mem_singleton.mp new] at other
        exact absurd rfl other
  · exact stored

theorem applyPageEdit_rows (row : KnowledgeEntity)
    (stored : row ∈ (db.applyPageEdit path write).entities) :
    (row.path = path ∧ row.rev = some write.rev) ∨ (row.path ≠ path ∧ row ∈ db.entities) := by
  rw [applyPageEdit_entities] at stored
  obtain ⟨old, present, rfl⟩ := List.mem_map.mp stored
  by_cases here : old.path = path
  · exact Or.inl (by simp [rewrite, here])
  · have same : rewrite path write old = old := if_neg here
    rw [same]
    exact Or.inr ⟨here, db.insertMissing_rows path write old present here⟩

end Database

namespace PkmSyncService

variable (service : PkmSyncService) (env : Environment)

def pageWrite (base : PageEditBase) (newPageName : Option Text) (content : Text)
    (memoryOps : List PageEditMemoryOp) : PageEditWrite where
  base := base
  newPageName := newPageName
  body := extractBody content
  content := content
  rev := service.sha256Hex content
  memoryOps := memoryOps

structure Commits (path head content : Text) (write : PageEditWrite) (db : Database) : Prop where
  planned : env.plan path head content = .ok write.memoryOps
  taken : env.refuses .pageEdit = false
  based : matchesBase write.base (db.entityByPath path) = true
  attached : db.attached path write.memoryOps = true

theorem commitEdit_committed (path head : Text) (base : PageEditBase) (newPageName : Option Text)
    (content : Text) (memoryOps : List PageEditMemoryOp) (world : World)
    (nameless : ¬(base = .missing ∧ newPageName = none))
    (commits : Commits env path head content
      (service.pageWrite base newPageName content memoryOps) world.db) :
    ∃ result, service.commitEdit env path head base newPageName content world =
      ((service.vault.writePage env path content >>= fun _ => pure result) : Call EditResult)
        { world with
          db := world.db.applyPageEdit path
            (service.pageWrite base newPageName content memoryOps) } := by
  have planned : env.plan path head content = .ok memoryOps := commits.planned
  have taken := commits.taken
  have current : matchesBase base (world.db.entityByPath path) = true ∧
    world.db.attached path memoryOps = true := ⟨commits.based, commits.attached⟩
  refine ⟨if newPageName.isSome then .created (service.sha256Hex content)
    else .accepted (service.sha256Hex content), ?_⟩
  simp [commitEdit, planned, commitPageEditCas, nameless, statement, taken,
    Database.tryCommitPageEdit, current, pageWrite]

theorem commitEdit_cases (path head : Text) (base : PageEditBase) (newPageName : Option Text)
    (content : Text) (world : World) (nameless : ¬(base = .missing ∧ newPageName = none)) :
    (∃ result, service.commitEdit env path head base newPageName content world = (result, world)) ∨
    ∃ memoryOps, Commits env path head content
        (service.pageWrite base newPageName content memoryOps) world.db ∧
      ((∃ key result, service.vault.names path key ∧ env.accepts key = true ∧
          service.commitEdit env path head base newPageName content world =
            (.ok result,
              { db := world.db.applyPageEdit path
                  (service.pageWrite base newPageName content memoryOps)
                files := Function.update world.files key (some content) })) ∨
        (∃ error, (∀ key, service.vault.names path key → env.accepts key = false) ∧
          service.commitEdit env path head base newPageName content world =
            (.error error,
              { world with
                db := world.db.applyPageEdit path
                  (service.pageWrite base newPageName content memoryOps) }))) := by
  cases planned : env.plan path head content with
  | error error => exact Or.inl ⟨.error error, by simp [commitEdit, planned]⟩
  | ok memoryOps =>
      by_cases commits : Commits env path head content
          (service.pageWrite base newPageName content memoryOps) world.db
      · right
        refine ⟨memoryOps, commits, ?_⟩
        obtain ⟨result, committed⟩ := service.commitEdit_committed env path head base newPageName
          content memoryOps world nameless commits
        rw [committed]
        cases named : service.vault.pageKey path with
        | error error =>
            exact Or.inr ⟨error, by simp [VaultScope.names, named],
              by simp [VaultScope.writePage, named]⟩
        | ok key =>
            by_cases accepted : env.accepts key
            · exact Or.inl ⟨key, result, named, accepted,
                by simp [VaultScope.writePage, named, writeFile, accepted]⟩
            · exact Or.inr ⟨.internal writeFailed, by simpa [VaultScope.names, named] using accepted,
                by simp [VaultScope.writePage, named, writeFile, accepted]⟩
      · left
        by_cases refused : env.refuses .pageEdit
        · exact ⟨.error .database, by
            simp [commitEdit, planned, commitPageEditCas, nameless, statement, refused]⟩
        · have outdated : ¬(matchesBase base (world.db.entityByPath path) = true ∧
              world.db.attached path memoryOps = true) := fun current =>
            commits ⟨planned, by simpa using refused, current.1, current.2⟩
          simp [commitEdit, planned, commitPageEditCas, nameless, statement, refused,
            Database.tryCommitPageEdit, outdated]

def commitOf (baseRev : Option Text) : EditGate → Option (Text × PageEditBase × Option Text)
  | .new clean => some ([], .missing, some (lastSegment clean))
  | .apply _ head => some (head, .revision (baseRev.getD []), none)
  | .conflict _ _ => none

theorem commitOf_named (baseRev : Option Text) (gate : EditGate) (head : Text)
    (base : PageEditBase) (newPageName : Option Text)
    (commit : commitOf baseRev gate = some (head, base, newPageName)) :
    ¬(base = .missing ∧ newPageName = none) := by
  rintro ⟨rfl, rfl⟩
  cases gate <;> simp [commitOf] at commit

theorem upsertPage_eq (path clean : Text) (baseRev : Option Text) (content : Text) (world : World)
    (start : service.vault.pageFromAny path = some clean) :
    (∃ result, service.upsertPage env path baseRev content world = (.ok result, world) ∧
      commitOf baseRev (service.gate clean baseRev world) = none) ∨
    ∃ head base newPageName,
      commitOf baseRev (service.gate clean baseRev world) = some (head, base, newPageName) ∧
      service.upsertPage env path baseRev content world =
        service.commitEdit env clean head base newPageName content world := by
  have checked : service.checkEdit path baseRev world =
      (.ok (service.gate clean baseRev world), world) := by
    simp [checkEdit, start]
  cases missing : world.db.entityByPath clean with
  | none =>
      right
      have gate : service.gate clean baseRev world = .new clean := by simp [PkmSyncService.gate, missing]
      exact ⟨[], .missing, some (lastSegment clean), by simp [gate, commitOf],
        by simp [upsertPage, checked, gate]⟩
  | some page =>
      by_cases current : baseRev = some (page.rev.getD []) ∧ page.rev.getD [] ≠ []
      · right
        have gate : service.gate clean baseRev world = .apply clean
            ((service.headContent page (page.rev.getD []) clean world.files).getD []) := by
          simp [PkmSyncService.gate, missing, current]
        exact ⟨_, _, _, congrArg (commitOf baseRev) gate, by simp [upsertPage, checked, gate]⟩
      · left
        have gate : service.gate clean baseRev world = .conflict (page.rev.getD [])
            ((service.headContent page (page.rev.getD []) clean world.files).getD []) := by
          simp only [PkmSyncService.gate, missing, current, if_false]
        exact ⟨.conflict (page.rev.getD []) _, by simp [upsertPage, checked, gate]; rfl,
          congrArg (commitOf baseRev) gate⟩

section Statements

-- A statement and what it does when the database takes it.
abbrev Statement := DbWrite × (Database → Database)

def updates : List Statement → Call Unit
  | [] => pure ()
  | (write, change) :: rest => do
      update env write change
      updates rest

def applied (statements : List Statement) (db : Database) : Database :=
  (statements.takeWhile fun statement => !env.refuses statement.1).foldl
    (fun db statement => statement.2 db) db

def stopped (statements : List Statement) : Bool :=
  statements.any fun statement => env.refuses statement.1

theorem updates_eq (statements : List Statement) (world : World) :
    updates env statements world =
      (if stopped env statements then .error .database else .ok (),
        { world with db := applied env statements world.db }) := by
  induction statements generalizing world with
  | nil => rfl
  | cons statement rest ih =>
      obtain ⟨write, change⟩ := statement
      cases refused : env.refuses write with
      | true => simp [updates, update, statement, refused, stopped, applied]
      | false =>
          have rest_stopped : stopped env ((write, change) :: rest) = stopped env rest := by
            simp [stopped, refused]
          rw [rest_stopped]
          simp [updates, update, statement, refused, applied, ih]

theorem updates_append (before after : List Statement) (world : World) :
    updates env (before ++ after) world =
      (updates env before >>= fun _ => updates env after) world := by
  induction before generalizing world with
  | nil => rfl
  | cons first rest ih =>
      obtain ⟨write, change⟩ := first
      simp only [List.cons_append, updates, Call.bind_apply]
      cases update env write change world with
      | mk result between =>
          cases result with
          | error error => rfl
          | ok _ => exact ih between

theorem applied_first (statements : List Statement) (db : Database)
    (first : ∀ entry ∈ statements.head?, env.refuses entry.1 = true) :
    applied env statements db = db := by
  cases statements with
  | nil => rfl
  | cons entry rest =>
      have refused := first entry rfl
      simp [applied, refused]

theorem removal_eq (first : List Statement) (write : DbWrite) (change : Database → Database)
    (remove : Call Unit) (gone : Files → Files)
    (removes : ∀ world, (remove world).2 = { world with files := gone world.files })
    (world : World) :
    ((do
      updates env first
      update env write change
      Call.attempt remove
      return .removed : Call EditResult) world) =
      if stopped env (first ++ [(write, change)]) then
        (.error .database, { world with db := applied env (first ++ [(write, change)]) world.db })
      else (.ok .removed,
        { db := applied env (first ++ [(write, change)]) world.db, files := gone world.files }) := by
  have last (between : World) : update env write change between =
      updates env [(write, change)] between := by
    simp only [updates, Call.bind_apply]
    cases update env write change between with
    | mk result after => cases result <;> rfl
  have run : updates env (first ++ [(write, change)]) world =
      match updates env first world with
      | (.ok _, between) => update env write change between
      | (.error error, between) => (.error error, between) := by
    simp only [updates_append, Call.bind_apply, last]
    cases updates env first world with
    | mk result between => cases result <;> rfl
  simp only [updates_eq] at run
  simp only [Call.bind_apply, updates_eq]
  by_cases early : stopped env first = true
  · have stops : stopped env (first ++ [(write, change)]) = true := by
      simp only [stopped, List.any_append] at early ⊢
      simp [early]
    simp only [early, stops, if_true] at run ⊢
    exact Prod.ext rfl (congrArg Prod.snd run).symm
  · simp only [early, Bool.false_eq_true, if_false] at run ⊢
    rw [← run]
    by_cases stops : stopped env (first ++ [(write, change)]) = true <;> simp [stops, removes]

def erroneousStatements (memories : List KnowledgeMemory) : List Statement :=
  (memories.filter fun memory => memory.disposition ≠ .erroneous).map fun memory =>
    (.disposition memory.id, fun db => db.setDisposition memory.id .erroneous)

def deleteStatements (path : Text) (db : Database) : List Statement :=
  erroneousStatements (db.memoriesForEntity path) ++ [(.deleteEntity, fun db => db.deleteEntity path)]

theorem markErroneous_eq (memories : List KnowledgeMemory) :
    markErroneous env memories = updates env (erroneousStatements memories) := by
  induction memories with
  | nil => rfl
  | cons memory rest ih =>
      funext world
      by_cases live : memory.disposition = .erroneous
      · simp [markErroneous, erroneousStatements, live, ih]
      · simp [markErroneous, erroneousStatements, live, ih, updates]

def removedPage (path : Text) (files : Files) : Files :=
  match service.vault.pageKey path with
  | .ok key => freed env key files
  | .error _ => files

def removedNote (path : Text) (files : Files) : Files :=
  match noteKey path with
  | .ok key => freed env key files
  | .error _ => files

theorem deletePage_eq (path : Text) (world : World) :
    service.deletePage env path world =
      if stopped env (deleteStatements path world.db) then
        (.error .database, { world with db := applied env (deleteStatements path world.db) world.db })
      else (.ok .removed,
        { db := applied env (deleteStatements path world.db) world.db
          files := service.removedPage env path world.files }) := by
  have removes (between : World) : (service.vault.deletePage env path between).2 =
      { between with files := service.removedPage env path between.files } := by
    cases named : service.vault.pageKey path <;>
      simp [VaultScope.deletePage, removedPage, named, removeFile_after]
  have run := removal_eq env (erroneousStatements (world.db.memoriesForEntity path)) .deleteEntity
    (fun db => db.deleteEntity path) _ _ removes world
  rw [deleteStatements, ← run, ← markErroneous_eq]
  rfl

def derivedStatements (ids : List Nat) : List Statement :=
  ids.map fun id => (.deleteMemory id, fun db => db.deleteMemory id)

def noteStatements (path : Text) (db : Database) : List Statement :=
  derivedStatements (db.derivedMemories path) ++
    [(.deleteExternal, fun db => db.deleteExternalRow path)]

theorem dropDerivedMemories_eq (ids : List Nat) :
    dropDerivedMemories env ids = updates env (derivedStatements ids) := by
  induction ids with
  | nil => rfl
  | cons id rest ih =>
      funext world
      simp [dropDerivedMemories, derivedStatements, ih, updates]

theorem ingestDelete_eq (path : Text) (world : World) :
    ingestDelete env path world =
      if stopped env (noteStatements path world.db) then
        (.error .database, { world with db := applied env (noteStatements path world.db) world.db })
      else (.ok .removed,
        { db := applied env (noteStatements path world.db) world.db
          files := removedNote env path world.files }) := by
  have removes (between : World) : (deleteUserNote env path between).2 =
      { between with files := removedNote env path between.files } := by
    cases named : noteKey path <;> simp [deleteUserNote, removedNote, named, removeFile_after]
  have run := removal_eq env (derivedStatements (world.db.derivedMemories path)) .deleteExternal
    (fun db => db.deleteExternalRow path) _ _ removes world
  rw [noteStatements, ← run, ← dropDerivedMemories_eq]
  rfl

theorem applied_induction (holds : Database → Prop) (statements : List Statement) (db : Database)
    (start : holds db) (step : ∀ entry ∈ statements, ∀ db, holds db → holds (entry.2 db)) :
    holds (applied env statements db) := by
  have made : ∀ entry ∈ statements.takeWhile fun entry => !env.refuses entry.1,
      ∀ db, holds db → holds (entry.2 db) :=
    fun entry member => step entry (List.takeWhile_subset _ member)
  unfold applied
  generalize (statements.takeWhile fun entry => !env.refuses entry.1) = rest at made
  induction rest generalizing db with
  | nil => exact start
  | cons entry rest ih =>
      exact ih (entry.2 db) (made entry (by simp) db start)
        fun later member => made later (by simp [member])

theorem deleteStatements_rows (path : Text) (db : Database) (row : KnowledgeEntity)
    (stored : row ∈ (applied env (deleteStatements path db) db).entities) : row ∈ db.entities := by
  refine applied_induction env (fun other => ∀ row ∈ other.entities, row ∈ db.entities)
    (deleteStatements path db) db (fun _ present => present) ?_ row stored
  intro entry member other kept row stored
  cases List.mem_append.mp member with
  | inl disposed =>
      obtain ⟨memory, _, rfl⟩ := List.mem_map.mp disposed
      exact kept row stored
  | inr deleted =>
      obtain rfl := List.mem_singleton.mp deleted
      exact kept row (List.mem_of_mem_filter stored)

theorem noteStatements_rows (path : Text) (db : Database) (row : KnowledgeEntity)
    (stored : row ∈ (applied env (noteStatements path db) db).entities) : row ∈ db.entities := by
  refine applied_induction env (fun other => ∀ row ∈ other.entities, row ∈ db.entities)
    (noteStatements path db) db (fun _ present => present) ?_ row stored
  intro entry member other kept row stored
  cases List.mem_append.mp member with
  | inl derived =>
      obtain ⟨id, _, rfl⟩ := List.mem_map.mp derived
      exact kept row stored
  | inr deleted =>
      obtain rfl := List.mem_singleton.mp deleted
      exact kept row (List.mem_of_mem_filter stored)

end Statements

section Notes

def noteRow (path content : Text) (db : Database) : Option (Database × ExternalPageProgress) :=
  match db.upsertExternalPage path content (service.sha256Hex content) with
  | .refused _ => none
  | .unchanged progress => some (db, progress)
  | .stored stored => some (stored, ⟨service.sha256Hex content, true, true⟩)

-- The tables with a new revision of a note.
def acceptNote (path content : Text) (db : Database) : Database :=
  match db.entityByPath path with
  | some _ => db.updateExternal path content (service.sha256Hex content)
  | none => db.insertEntity path (lastSegment path) .external content
      (some (service.sha256Hex content))

-- The note's row has this revision already.
def Held (path rev : Text) (db : Database) : Prop :=
  ∃ row, db.entityByPath path = some row ∧ row.rev = some rev

theorem noteRow_cases (path content : Text) (before after : Database)
    (progress : ExternalPageProgress)
    (accepted : service.noteRow path content before = some (after, progress)) :
    (∀ row, before.entityByPath path = some row → row.origin = .external) ∧
    ((∃ row, before.entityByPath path = some row ∧ row.rev = some (service.sha256Hex content) ∧
        after = before ∧ progress = externalPageProgress row (service.sha256Hex content)) ∨
      (¬Held path (service.sha256Hex content) before ∧
        after = service.acceptNote path content before ∧
        progress = ⟨service.sha256Hex content, true, true⟩)) := by
  unfold noteRow Database.upsertExternalPage at accepted
  cases found : before.entityByPath path with
  | none =>
      obtain ⟨rfl, rfl⟩ : _ = after ∧ _ = progress := by simpa [found] using accepted
      exact ⟨by simp, Or.inr ⟨by simp [Held, found], by simp [acceptNote, found], rfl⟩⟩
  | some row =>
      by_cases origin : row.origin = .external
      · refine ⟨by simpa using origin, ?_⟩
        by_cases held : row.rev = some (service.sha256Hex content)
        · obtain ⟨rfl, rfl⟩ : _ = after ∧ _ = progress := by
            simpa [found, origin, held] using accepted
          exact Or.inl ⟨row, rfl, held, rfl, rfl⟩
        · obtain ⟨rfl, rfl⟩ : _ = after ∧ _ = progress := by
            simpa [found, origin, held] using accepted
          exact Or.inr ⟨by simp [Held, found, held], by simp [acceptNote, found], rfl⟩
      · simp [found, origin] at accepted

theorem acceptNote_rows (path content : Text) (db : Database) (row : KnowledgeEntity)
    (stored : row ∈ (service.acceptNote path content db).entities) :
    (row.path = path ∧ row.rev = some (service.sha256Hex content)) ∨
      (row.path ≠ path ∧ row ∈ db.entities) := by
  unfold acceptNote at stored
  split at stored
  next =>
    obtain ⟨old, present, rfl⟩ := List.mem_map.mp stored
    by_cases here : old.path = path
    · exact Or.inl (by simp [here])
    · simp only [here, if_false]
      exact Or.inr ⟨here, present⟩
  next missing =>
    cases List.mem_append.mp stored with
    | inl present =>
        refine Or.inr ⟨?_, present⟩
        simpa using List.find?_eq_none.mp missing row present
    | inr new =>
        rw [List.mem_singleton.mp new]
        exact Or.inl ⟨rfl, rfl⟩

def Extracted (path content : Text) (before after : Database) : Prop :=
  after = before ∨ env.extract path content before = .ok after

def mirrored (path rev : Text) (db : Database) : Database :=
  (db.markExternalPageMirrored path rev).2

theorem mirrored_rows (path rev : Text) (db : Database) (row : KnowledgeEntity)
    (stored : row ∈ (mirrored path rev db).entities) :
    ∃ old ∈ db.entities, old.path = row.path ∧ old.rev = row.rev ∧ old.origin = row.origin := by
  obtain ⟨old, present, rfl⟩ := List.mem_map.mp stored
  refine ⟨old, present, ?_⟩
  split <;> exact ⟨rfl, rfl, rfl⟩

theorem finishIngest_cases (path content : Text) (progress : ExternalPageProgress)
    (world : World) :
    ∃ db, Extracted env path content world.db db ∧
      finishIngest env path content progress world = (.ok .indexed, { world with db }) := by
  by_cases pending : progress.extractionPending
  · cases extracted : env.extract path content world.db with
    | error error =>
        exact ⟨world.db, Or.inl rfl, by simp [finishIngest, pending, extractExternal, extracted]⟩
    | ok db =>
        exact ⟨db, Or.inr extracted, by simp [finishIngest, pending, extractExternal, extracted]⟩
  · exact ⟨world.db, Or.inl rfl, by simp [finishIngest, pending]⟩

-- What follows once the tables hold the note.
def Mirrors (path content : Text) (progress : ExternalPageProgress) (world : World)
    (ran : Except AppError EditResult × World) : Prop :=
  (∃ error, (∀ key, noteKey path = .ok key → env.accepts key = false) ∧ ran = (.error error, world)) ∨
  ∃ key, noteKey path = .ok key ∧ env.accepts key = true ∧
    ((env.refuses .externalMirrored = true ∧
        ran = (.error .database,
          { world with files := Function.update world.files key (some content) })) ∨
      (env.refuses .externalMirrored = false ∧
        ∃ db, Extracted env path content (mirrored path progress.rev world.db) db ∧
          ran = (.ok .indexed, { db, files := Function.update world.files key (some content) })))

theorem mirrorNote_mirrors (path content : Text) (progress : ExternalPageProgress)
    (world : World) :
    Mirrors env path content progress world ((do
      if ← mirrorNote env path content progress.rev then finishIngest env path content progress
      else return .indexed : Call EditResult) world) := by
  cases named : noteKey path with
  | error error =>
      exact Or.inl ⟨error, by simp [named], by simp [mirrorNote, writeUserNote, named]⟩
  | ok key =>
      by_cases accepted : env.accepts key
      · refine Or.inr ⟨key, named, accepted, ?_⟩
        by_cases refused : env.refuses .externalMirrored
        · exact Or.inl ⟨refused, by
            simp [mirrorNote, writeUserNote, named, writeFile, accepted, statement, refused]⟩
        · refine Or.inr ⟨by simpa using refused, ?_⟩
          simp only [mirrorNote, writeUserNote, named, writeFile, accepted, statement, refused,
            Call.bind_apply, Call.fromExcept_apply, if_true, if_false, Bool.false_eq_true]
          split
          · exact finishIngest_cases env path content progress
              { db := mirrored path progress.rev world.db
                files := Function.update world.files key (some content) }
          · exact ⟨_, Or.inl rfl, rfl⟩
      · exact Or.inl ⟨.internal writeFailed, by simpa [named] using accepted, by
          simp [mirrorNote, writeUserNote, named, writeFile, accepted]⟩

theorem ingestUpsert_cases (path content : Text) (world : World) :
    (∃ result, service.ingestUpsert env path content world = (result, world)) ∨
    ∃ db progress, service.noteRow path content world.db = some (db, progress) ∧
      ((progress.mirrorPending = false ∧ ∃ after, Extracted env path content db after ∧
          service.ingestUpsert env path content world = (.ok .indexed, { world with db := after })) ∨
        (progress.mirrorPending = true ∧
          Mirrors env path content progress { world with db }
            (service.ingestUpsert env path content world))) := by
  have rest (db : Database) (progress : ExternalPageProgress)
      (accepted : upsertExternal env path content (service.sha256Hex content) world =
        (.ok progress, { world with db })) :
      service.ingestUpsert env path content world =
        if progress.isComplete then (.ok .unchanged, { world with db })
        else if progress.mirrorPending then (do
          if ← mirrorNote env path content progress.rev then finishIngest env path content progress
          else return .indexed : Call EditResult) { world with db }
        else finishIngest env path content progress { world with db } := by
    cases complete : progress.isComplete <;> cases mirror : progress.mirrorPending <;>
      simp [ingestUpsert, accepted, complete, mirror]
  have work (db : Database) (progress : ExternalPageProgress)
      (pending : progress.isComplete = false)
      (accepted : upsertExternal env path content (service.sha256Hex content) world =
        (.ok progress, { world with db })) :
      (progress.mirrorPending = false ∧ ∃ after, Extracted env path content db after ∧
          service.ingestUpsert env path content world = (.ok .indexed, { world with db := after })) ∨
        (progress.mirrorPending = true ∧
          Mirrors env path content progress { world with db }
            (service.ingestUpsert env path content world)) := by
    rw [rest db progress accepted, pending]
    cases mirror : progress.mirrorPending with
    | true =>
        have mirrors := mirrorNote_mirrors env path content progress { world with db }
        exact Or.inr ⟨rfl, by simpa using mirrors⟩
    | false =>
        have finished := finishIngest_cases env path content progress { world with db }
        exact Or.inl ⟨rfl, by simpa using finished⟩
  cases upserted : world.db.upsertExternalPage path content (service.sha256Hex content) with
  | refused message =>
      exact Or.inl ⟨.error (.conflict message), by simp [ingestUpsert, upsertExternal, upserted]⟩
  | unchanged progress =>
      have accepted : upsertExternal env path content (service.sha256Hex content) world =
          (.ok progress, { world with db := world.db }) := by
        simp [upsertExternal, upserted]
      cases complete : progress.isComplete with
      | true => exact Or.inl ⟨.ok .unchanged, by rw [rest _ _ accepted, complete]; rfl⟩
      | false =>
          exact Or.inr ⟨world.db, progress, by simp [noteRow, upserted],
            work world.db progress complete accepted⟩
  | stored db =>
      by_cases refused : env.refuses .externalPage
      · exact Or.inl ⟨.error .database, by
          simp [ingestUpsert, upsertExternal, upserted, refused]⟩
      · have accepted : upsertExternal env path content (service.sha256Hex content) world =
            (.ok ⟨service.sha256Hex content, true, true⟩, { world with db }) := by
          simp [upsertExternal, upserted, refused]
        exact Or.inr ⟨db, _, by simp [noteRow, upserted], work db _ rfl accepted⟩

end Notes

end PkmSyncService

end Frona.Pkm
