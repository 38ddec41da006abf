import Mathlib.Data.List.Dedup
import Frona.Pkm.EditSpec
import Frona.Pkm.PathSpec
import Frona.Pkm.RecoveryRestores
import Frona.Pkm.Sync

set_option autoImplicit false

namespace Frona.Pkm

open Utf8 (Text)

structure Frame where
  keeps : World → World → Prop
  refl : ∀ world, keeps world world
  trans : ∀ {first second third}, keeps first second → keeps second third → keeps first third

namespace Frame

variable (frame : Frame)

-- The file may be written and may go.
def TakesFile (key : FileKey) : Prop :=
  ∀ world content, frame.keeps world { world with files := Function.update world.files key content }

def TakesChange (change : Database → Database) : Prop :=
  ∀ world, frame.keeps world { world with db := change world.db }

end Frame

variable {A B : Type} {frame : Frame}

def Call.Within (frame : Frame) (call : Call A) : Prop := ∀ world, frame.keeps world (call world).2

namespace Call.Within

theorem pure (value : A) : Within frame (Pure.pure value : Call A) := frame.refl

theorem fail (error : AppError) : Within frame (Call.fail error : Call A) := frame.refl

theorem get : Within frame Call.get := frame.refl

theorem fromExcept (result : Except AppError A) : Within frame (Call.fromExcept result) := by
  intro world
  rw [Call.fromExcept_apply]
  exact frame.refl world

theorem bind {call : Call A} {next : A → Call B} (first : Within frame call)
    (rest : ∀ value, Within frame (next value)) : Within frame (call >>= next) := by
  intro world
  have start := first world
  rw [Call.bind_apply]
  split
  next value between ran =>
    rw [ran] at start
    exact frame.trans start (rest value between)
  next error between ran =>
    rw [ran] at start
    exact start

theorem attempt {call : Call A} (kept : Within frame call) : Within frame (Call.attempt call) := kept

theorem branch {condition : Prop} [Decidable condition] {yes no : Call A}
    (left : Within frame yes) (right : Within frame no) :
    Within frame (if condition then yes else no) := by
  split
  · exact left
  · exact right

end Call.Within

section Statements

variable (env : Environment)

theorem statement_within (write : DbWrite) (change : Database → A × Database)
    (taken : frame.TakesChange fun db => (change db).2) :
    Call.Within frame (statement env write change) := by
  intro world
  rw [statement]
  split
  · exact frame.refl world
  · exact taken world

theorem update_within (write : DbWrite) (change : Database → Database)
    (taken : frame.TakesChange change) : Call.Within frame (update env write change) :=
  statement_within env write _ taken

theorem writeFile_within (key : FileKey) (content : Text) (taken : frame.TakesFile key) :
    Call.Within frame (writeFile env key content) := by
  intro world
  rw [writeFile]
  split
  · exact taken world (some content)
  · exact frame.refl world

theorem removeFile_within (failed : Text) (key : FileKey) (taken : frame.TakesFile key) :
    Call.Within frame (removeFile env failed key) := by
  intro world
  rw [removeFile]
  split
  · exact frame.refl world
  · exact taken world none

-- A call on the file that a path names, if it names one.
theorem named_within (named : Except AppError FileKey) (call : FileKey → Call A)
    (kept : ∀ key, named = .ok key → Call.Within frame (call key)) :
    Call.Within frame (Call.fromExcept named >>= call) := by
  intro world
  rw [Call.bind_apply, Call.fromExcept_apply]
  cases found : named with
  | ok key => exact kept key found world
  | error error => exact frame.refl world

theorem writeUserNote_within (path content : Text)
    (taken : ∀ key, noteKey path = .ok key → frame.TakesFile key) :
    Call.Within frame (writeUserNote env path content) :=
  named_within _ _ fun key named => writeFile_within env key content (taken key named)

theorem deleteUserNote_within (path : Text)
    (taken : ∀ key, noteKey path = .ok key → frame.TakesFile key) :
    Call.Within frame (deleteUserNote env path) :=
  named_within _ _ fun key named => removeFile_within env _ key (taken key named)

namespace VaultScope

variable (vault : VaultScope)

theorem writePage_within (path content : Text)
    (taken : ∀ key, vault.pageKey path = .ok key → frame.TakesFile key) :
    Call.Within frame (vault.writePage env path content) :=
  named_within _ _ fun key named => writeFile_within env key content (taken key named)

theorem deletePage_within (path : Text)
    (taken : ∀ key, vault.pageKey path = .ok key → frame.TakesFile key) :
    Call.Within frame (vault.deletePage env path) :=
  named_within _ _ fun key named => removeFile_within env _ key (taken key named)

theorem movePageFile_within (source target : Text)
    (taken : ∀ path key, vault.pageKey path = .ok key → frame.TakesFile key) :
    Call.Within frame (vault.movePageFile env source target) := by
  refine Call.Within.bind Call.Within.get fun world => ?_
  split
  · exact Call.Within.pure _
  · exact Call.Within.bind (vault.writePage_within env target _ (taken target))
      fun _ => vault.deletePage_within env source (taken source)

end VaultScope

end Statements

def Database.externalEntities (db : Database) : List KnowledgeEntity :=
  db.entities.filter fun row => row.origin = .external

section Cleanup

namespace Recovery

variable (recovery : Recovery) (boot : Boot)

-- Every page is composed again from what the tables say.
def materialize : List KnowledgeEntity → Call Unit
  | [] => pure ()
  | page :: pages => do
      let file := boot.composePage page (← Call.get).db
      let _ ← recovery.writePageAndRev boot.toEnvironment page.path file
      materialize pages

def sweepFiles (canonical : List Text) : List Text → Call Unit
  | [] => pure ()
  | path :: paths => do
      if path ∉ canonical then recovery.vault.deletePage boot.toEnvironment path
      sweepFiles canonical paths

def reconcileEntityFiles (entities : List KnowledgeEntity) : Call Unit := do
  let authored := entities.filter fun entity => entity.rev.isSome
  recovery.materialize boot authored
  let listed := recovery.listPageFiles boot (← Call.get).files
  recovery.sweepFiles boot (authored.map KnowledgeEntity.path) (listed.map Prod.fst)

end Recovery

end Cleanup

section Lists

variable {A B V : Type}

theorem filter_map_elsewhere (looked : A → Bool) (change : A → A) (values : List A)
    (kept : ∀ a ∈ values, looked a = true → change a = a)
    (apart : ∀ a ∈ values, looked a = false → looked (change a) = false) :
    (values.map change).filter looked = values.filter looked := by
  induction values with
  | nil => rfl
  | cons a values ih =>
      have rest := ih (fun b member => kept b (List.mem_cons_of_mem a member))
        fun b member => apart b (List.mem_cons_of_mem a member)
      cases here : looked a with
      | true => simp [kept a List.mem_cons_self here, here, rest]
      | false => simp [apart a List.mem_cons_self here, here, rest]

theorem foldl_view (view : A → V) (step : A → B → A) (kept : ∀ a b, view (step a b) = view a)
    (values : List B) (start : A) : view (values.foldl step start) = view start := by
  induction values generalizing start with
  | nil => rfl
  | cons b values ih => exact (ih (step start b)).trans (kept start b)

end Lists

section Projection

/-- A projection of pages writes their revisions and the files of the Memory directory. -/
structure Projected (vault : VaultScope) (before after : World) : Prop where
  kinds : after.db.kinds = before.db.kinds
  links : after.db.links = before.db.links
  sources : after.db.sources = before.db.sources
  memories : after.db.memories = before.db.memories
  outside : ∀ key, ¬ vault.holds key → after.files key = before.files key

def Owned (paths : List Text) (db : Database) : Prop :=
  ∀ row ∈ db.kinds, row.1 ∈ paths → row.2 = .internal

variable (vault : VaultScope) (paths : List Text)

def projecting : Frame where
  keeps before after := Projected vault before after ∧
    (Owned paths before.db → after.db.externalEntities = before.db.externalEntities)
  refl _ := ⟨⟨rfl, rfl, rfl, rfl, fun _ _ => rfl⟩, fun _ => rfl⟩
  trans := by
    intro first second third ⟨left, leftRows⟩ ⟨right, rightRows⟩
    constructor
    · exact ⟨right.kinds.trans left.kinds, right.links.trans left.links,
        right.sources.trans left.sources, right.memories.trans left.memories,
        fun key out => (right.outside key out).trans (left.outside key out)⟩
    · intro owned
      have still : Owned paths second.db := by
        rw [Owned, left.kinds]
        exact owned
      exact (rightRows still).trans (leftRows owned)

theorem projecting_file (path : Text) (key : FileKey) (named : vault.pageKey path = .ok key) :
    (projecting vault paths).TakesFile key := by
  intro world content
  refine ⟨⟨rfl, rfl, rfl, rfl, fun other outside => ?_⟩, fun _ => rfl⟩
  have different : other ≠ key := fun same =>
    outside (same ▸ vault.pageKey_holds path key named)
  exact Function.update_of_ne different _ _

theorem externalEntities_setPageProjection (db : Database) (path content rev : Text)
    (owned : ∀ row ∈ db.entities, row.path = path → row.origin = .internal) :
    (db.setPageProjection path content rev).externalEntities = db.externalEntities := by
  apply filter_map_elsewhere
  · intro row stored noted
    have elsewhere : row.path ≠ path := fun here => by simp [owned row stored here] at noted
    simp [elsewhere]
  · intro row _ noted
    split <;> exact noted

theorem projecting_rows (path content rev : Text) (listed : path ∈ paths) :
    (projecting vault paths).TakesChange fun db => db.setPageProjection path content rev := by
  intro world
  refine ⟨⟨Database.kinds_setPageProjection _ _ _ _, rfl, rfl, rfl, fun _ _ => rfl⟩, fun owned => ?_⟩
  apply externalEntities_setPageProjection
  intro row stored here
  exact owned (row.path, row.origin) (List.mem_map.mpr ⟨row, stored, rfl⟩) (here ▸ listed)

end Projection

section Passes

namespace Recovery

variable (recovery : Recovery) (boot : Boot) {frame : Frame} {paths : List Text}

variable (frame paths) in
structure Projects (vault : VaultScope) : Prop where
  files : ∀ path key, vault.pageKey path = .ok key → frame.TakesFile key
  rows : ∀ path content rev, path ∈ paths →
    frame.TakesChange fun db => db.setPageProjection path content rev

variable (projects : Projects frame paths recovery.vault)

include projects

theorem setPageProjection_within (env : Environment) (path content rev : Text)
    (listed : path ∈ paths) : Call.Within frame (setPageProjection env path content rev) :=
  update_within env _ _ (projects.rows path content rev listed)

theorem writePageAndRev_within (env : Environment) (path content : Text) (listed : path ∈ paths) :
    Call.Within frame (recovery.writePageAndRev env path content) :=
  (recovery.setPageProjection_within projects env path content _ listed).bind fun _ =>
    (recovery.vault.writePage_within env path content (projects.files path)).bind fun _ =>
      Call.Within.pure _

theorem adoptLegacyFile_within (page : KnowledgeEntity) (listed : page.path ∈ paths) :
    Call.Within frame (recovery.adoptLegacyFile boot page) := by
  apply Call.Within.get.bind
  intro world
  split
  · exact Call.Within.pure _
  · exact recovery.setPageProjection_within projects _ _ _ _ listed

theorem mirrorPage_within (page : KnowledgeEntity) (report : ReconcileReport)
    (listed : page.path ∈ paths) : Call.Within frame (recovery.mirrorPage boot page report) := by
  have fingerprint : Call.Within frame (recovery.pageFingerprint page.path) :=
    (Call.Within.fromExcept _).bind fun _ => Call.Within.get.bind fun _ => Call.Within.pure _
  apply fingerprint.bind
  intro held
  cases held with
  | none => exact Call.Within.pure _
  | some held =>
      cases page.syncContent with
      | some content =>
          apply Call.Within.branch _ (Call.Within.pure _)
          exact (recovery.vault.writePage_within _ _ _ (projects.files _)).bind fun _ =>
            Call.Within.pure _
      | none =>
          exact (recovery.adoptLegacyFile_within boot projects page listed).bind fun _ =>
            Call.Within.pure _

theorem mirrorPages_within (pages : List KnowledgeEntity) (report : ReconcileReport)
    (listed : ∀ page ∈ pages, page.path ∈ paths) :
    Call.Within frame (recovery.mirrorPages boot pages report) := by
  induction pages generalizing report with
  | nil => exact Call.Within.pure _
  | cons page pages ih =>
      apply (recovery.mirrorPage_within boot projects page report (listed page (by simp))).bind
      intro outcome
      exact (ih outcome.2 fun other member => listed other (by simp [member])).bind fun _ =>
        Call.Within.pure _

theorem deleteAll_within (copies : List Text) : Call.Within frame (recovery.deleteAll boot copies) := by
  induction copies with
  | nil => exact Call.Within.pure _
  | cons copy copies ih =>
      have deleted : Call.Within frame 
          (Call.result (recovery.vault.deletePage boot.toEnvironment copy)) :=
        recovery.vault.deletePage_within _ copy (projects.files copy)
      exact deleted.bind fun _ => ih.bind fun _ => Call.Within.pure _

theorem restorePage_within (listed : List (Text × Option Text)) (page : KnowledgeEntity)
    (report : ReconcileReport) (known : page.path ∈ paths) :
    Call.Within frame (recovery.restorePage boot listed page report) := by
  have dedup (copies : List Text) (report : ReconcileReport) :
      Call.Within frame (recovery.dedup boot copies report) :=
    (recovery.deleteAll_within boot projects copies).bind fun _ => Call.Within.pure _
  have relocated (source : Text) : Call.Within frame (recovery.relocate boot page source report) := by
    have moved : Call.Within frame
        (Call.result (recovery.vault.movePageFile boot.toEnvironment source page.path)) :=
      recovery.vault.movePageFile_within _ source page.path projects.files
    apply moved.bind
    intro moved
    cases moved with
    | error error => exact Call.Within.pure _
    | ok _ =>
        exact (recovery.adoptLegacyFile_within boot projects page known).bind fun _ =>
          Call.Within.pure _
  have rendered : Call.Within frame (Call.result (recovery.renderPageFromDb boot page)) := by
    change Call.Within frame (recovery.renderPageFromDb boot page)
    rw [renderPageFromDb]
    split
    · exact recovery.writePageAndRev_within projects _ _ _ known
    · exact Call.Within.get.bind fun _ => recovery.writePageAndRev_within projects _ _ _ known
  rw [restorePage]
  apply Call.Within.branch (dedup _ _)
  split
  · exact (recovery.vault.writePage_within _ _ _ (projects.files _)).bind fun _ => dedup _ _
  · split
    · exact (relocated _).bind fun _ => dedup _ _
    · apply rendered.bind
      intro result
      cases result <;> exact Call.Within.pure _

theorem restorePages_within (listed : List (Text × Option Text)) (pages : List KnowledgeEntity)
    (report : ReconcileReport) (known : ∀ page ∈ pages, page.path ∈ paths) :
    Call.Within frame (recovery.restorePages boot listed pages report) := by
  induction pages generalizing report with
  | nil => exact Call.Within.pure _
  | cons page pages ih =>
      apply (recovery.restorePage_within boot projects listed page report (known page (by simp))).bind
      intro report
      exact ih report fun other member => known other (by simp [member])

theorem reconcileUserFiles_within (pages : List KnowledgeEntity)
    (known : ∀ page ∈ pages, page.path ∈ paths) :
    Call.Within frame (recovery.reconcileUserFiles boot pages) := by
  apply Call.Within.branch (Call.Within.pure _)
  apply (recovery.mirrorPages_within boot projects pages _ known).bind
  intro outcome
  apply Call.Within.branch (Call.Within.pure _)
  exact Call.Within.get.bind fun _ => recovery.restorePages_within boot projects _ pages _ known

theorem reconcileEntityFiles_within (entities : List KnowledgeEntity)
    (known : ∀ page ∈ entities, page.path ∈ paths) :
    Call.Within frame (recovery.reconcileEntityFiles boot entities) := by
  have materialized (pages : List KnowledgeEntity) (known : ∀ page ∈ pages, page.path ∈ paths) :
      Call.Within frame (recovery.materialize boot pages) := by
    induction pages with
    | nil => exact Call.Within.pure _
    | cons page pages ih =>
        apply Call.Within.get.bind
        intro world
        exact (recovery.writePageAndRev_within projects _ _ _ (known page (by simp))).bind fun _ =>
          ih fun other member => known other (by simp [member])
  have swept (canonical files : List Text) :
      Call.Within frame (recovery.sweepFiles boot canonical files) := by
    induction files with
    | nil => exact Call.Within.pure _
    | cons path files ih =>
        have deleted := recovery.vault.deletePage_within boot.toEnvironment path (projects.files path)
        rw [sweepFiles]
        split
        · exact deleted.bind fun _ => ih
        · exact ih
  apply (materialized _ fun page member => known page (List.mem_filter.mp member).1).bind
  intro _
  exact Call.Within.get.bind fun _ => swept _ _

end Recovery

end Passes

section Edits

structure PageEdited (path : Text) (touched : Nat → Prop) (before after : Database) : Prop where
  rows : (after.entities.filter fun row => row.path ≠ path) =
    before.entities.filter fun row => row.path ≠ path
  links : (after.links.filter fun link => link.fromEntityPath ≠ path ∧ link.toEntityPath ≠ path) =
    before.links.filter fun link => link.fromEntityPath ≠ path ∧ link.toEntityPath ≠ path
  memories : ∀ memory ∈ before.memories, ¬ touched memory.id → memory ∈ after.memories
  derived : ∀ note, after.derivedMemories note = before.derivedMemories note
  attached : ∀ other, other ≠ path → (∀ id, touched id → ⟨id, other⟩ ∉ before.sources) →
    ∀ id, ⟨id, other⟩ ∈ after.sources ↔ ⟨id, other⟩ ∈ before.sources

namespace PageEdited

variable {path : Text} {touched : Nat → Prop} {first second third : Database}

theorem refl (db : Database) : PageEdited path touched db db :=
  ⟨rfl, rfl, fun _ present _ => present, fun _ => rfl, fun _ _ _ _ => Iff.rfl⟩

theorem trans (left : PageEdited path touched first second)
    (right : PageEdited path touched second third) : PageEdited path touched first third where
  rows := right.rows.trans left.rows
  links := right.links.trans left.links
  memories memory present untouched :=
    right.memories memory (left.memories memory present untouched) untouched
  derived note := (right.derived note).trans (left.derived note)
  attached other elsewhere apart id := by
    have still := left.attached other elsewhere apart
    exact (right.attached other elsewhere (fun id member => by
      rw [still]
      exact apart id member) id).trans (still id)

end PageEdited

variable (db : Database) (path : Text) (touched : Nat → Prop)

theorem derivedMemories_map (change : KnowledgeMemory → KnowledgeMemory)
    (ids : ∀ memory, (change memory).id = memory.id)
    (evidence : ∀ memory, (change memory).evidence = memory.evidence) (note : Text) :
    ({ db with memories := db.memories.map change } : Database).derivedMemories note =
      db.derivedMemories note := by
  simp [Database.derivedMemories, List.filter_map, Function.comp_def, ids, evidence]

theorem memories_map (change : KnowledgeMemory → KnowledgeMemory)
    (ids : ∀ memory, (change memory).id = memory.id)
    (evidence : ∀ memory, (change memory).evidence = memory.evidence)
    (own : ∀ memory, ¬ touched memory.id → change memory = memory) :
    PageEdited path touched db { db with memories := db.memories.map change } where
  rows := rfl
  links := rfl
  memories memory present untouched := List.mem_map.mpr ⟨memory, present, own memory untouched⟩
  derived := derivedMemories_map db change ids evidence
  attached _ _ _ _ := Iff.rfl

theorem setDisposition_edited (id : Nat) (disposition : Disposition) (own : touched id) :
    PageEdited path touched db (db.setDisposition id disposition) := by
  apply memories_map
  · intro memory
    split <;> rfl
  · intro memory
    split <;> rfl
  · intro memory untouched
    exact if_neg fun same : memory.id = id => untouched (same ▸ own)

theorem deleteEntity_edited : PageEdited path touched db (db.deleteEntity path) where
  rows := by simp [Database.deleteEntity, List.filter_filter]
  links := by simp [Database.deleteEntity, List.filter_filter]
  memories _ present _ := present
  derived _ := rfl
  attached _ _ _ _ := Iff.rfl

theorem insertHumanMemory_edited (kind : MemoryKind) (content : Text) :
    PageEdited path touched db (db.insertHumanMemory path kind content) where
  rows := rfl
  links := rfl
  memories _ present _ := List.mem_append_left _ present
  derived note := by simp [Database.derivedMemories, Database.insertHumanMemory]
  attached other elsewhere _ id := by simp [Database.insertHumanMemory, elsewhere]

theorem supersede_edited (olderId : Nat) (kind : MemoryKind) (content note : Text)
    (own : touched olderId) :
    PageEdited path touched db (db.supersede path olderId kind content note) := by
  have inserted := insertHumanMemory_edited db path touched kind content
  have pointed := memories_map (db.insertHumanMemory path kind content) path touched
    (fun memory => if memory.id = olderId then
      { memory with replacedBy := memory.replacedBy ++ [⟨db.nextId, note⟩] } else memory)
    (fun memory => by split <;> rfl) (fun memory => by split <;> rfl)
    fun memory untouched => if_neg fun same : memory.id = olderId => untouched (same ▸ own)
  have edited := inserted.trans pointed
  refine ⟨edited.rows, edited.links, edited.memories, edited.derived, ?_⟩
  intro other elsewhere apart id
  have alone : other ∉ (db.insertHumanMemory path kind content).memoryEntityPaths olderId := by
    intro member
    obtain ⟨⟨id, place⟩, attached, rfl⟩ := List.mem_map.mp (List.mem_dedup.mp member)
    obtain ⟨stored, rfl⟩ : _ ∧ id = olderId := by simpa using attached
    exact apart id own ((inserted.attached place elsewhere apart id).mp stored)
  have before := inserted.attached other elsewhere apart id
  rw [← before]
  simp [Database.supersede, alone]

theorem applyMemoryOp_edited (op : PageEditMemoryOp) (own : ∀ id ∈ op.memoryId?, touched id) :
    PageEdited path touched db (db.applyMemoryOp path op) := by
  cases op with
  | add kind content => exact insertHumanMemory_edited db path touched kind content
  | supersede olderId kind content note =>
      exact supersede_edited db path touched olderId kind content note (own olderId rfl)
  | setDisposition id disposition =>
      exact setDisposition_edited db path touched id disposition (own id rfl)

theorem applyMemoryOps_edited (ops : List PageEditMemoryOp)
    (own : ∀ op ∈ ops, ∀ id ∈ op.memoryId?, touched id) :
    PageEdited path touched db (ops.foldl (fun db op => db.applyMemoryOp path op) db) := by
  induction ops generalizing db with
  | nil => exact PageEdited.refl db
  | cons op ops ih =>
      exact (applyMemoryOp_edited db path touched op (own op (by simp))).trans
        (ih _ fun later member => own later (by simp [member]))

theorem insertMissing_edited (write : PageEditWrite) :
    PageEdited path touched db (db.insertMissing path write) := by
  rw [Database.insertMissing]
  split
  · exact ⟨by simp [Database.insertEntity], rfl, fun _ present _ => present, fun _ => rfl,
      fun _ _ _ _ => Iff.rfl⟩
  · exact PageEdited.refl db

theorem writePage_edited (write : PageEditWrite) :
    PageEdited path touched db (db.writePage path write) := by
  refine ⟨?_, rfl, fun _ present _ => present, fun _ => rfl, fun _ _ _ _ => Iff.rfl⟩
  apply filter_map_elsewhere
  · intro row _ elsewhere
    exact if_neg (by simpa using elsewhere)
  · intro row _ here
    simp [show row.path = path by simpa using here]

theorem applyPageEdit_edited (write : PageEditWrite)
    (own : ∀ op ∈ write.memoryOps, ∀ id ∈ op.memoryId?, touched id) :
    PageEdited path touched db (db.applyPageEdit path write) :=
  ((insertMissing_edited db path touched write).trans
    (applyMemoryOps_edited _ path touched write.memoryOps own)).trans
    (writePage_edited _ path touched write)

/-- An edit of one page, and of no file but its own. -/
structure PageTouched (vault : VaultScope) (path : Text) (before after : World) : Prop where
  tables : PageEdited path (fun id => ⟨id, path⟩ ∈ before.db.sources) before.db after.db
  files : ∀ key, vault.pageKey path ≠ .ok key → after.files key = before.files key

namespace PkmSyncService

variable (service : PkmSyncService) (env : Environment)

theorem deletePage_touched (path : Text) (world : World) :
    PageTouched service.vault path world (service.deletePage env path world).2 := by
  have tables : PageEdited path (fun id => ⟨id, path⟩ ∈ world.db.sources) world.db
      (applied env (deleteStatements path world.db) world.db) := by
    apply applied_induction env _ _ _ (PageEdited.refl world.db)
    intro entry member db edited
    cases List.mem_append.mp member with
    | inl disposed =>
        obtain ⟨memory, listed, rfl⟩ := List.mem_map.mp disposed
        have stored := List.mem_reverse.mp (List.mem_filter.mp listed).1
        exact edited.trans (setDisposition_edited db path _ memory.id .erroneous
          (by simpa using (List.mem_filter.mp stored).2))
    | inr deleted =>
        obtain rfl := List.mem_singleton.mp deleted
        exact edited.trans (deleteEntity_edited db path _)
  rw [deletePage_eq]
  split
  · exact ⟨tables, fun _ _ => rfl⟩
  · refine ⟨tables, fun key other => ?_⟩
    cases named : service.vault.pageKey path with
    | error error => simp [removedPage, named]
    | ok own =>
        have different : key ≠ own := fun same => other (by rw [named, same])
        simp only [removedPage, named, freed]
        split <;> simp [different]

theorem commitEdit_touched (path head : Text) (base : PageEditBase) (newPageName : Option Text)
    (content : Text) (world : World) (nameless : ¬(base = .missing ∧ newPageName = none)) :
    PageTouched service.vault path world
      (service.commitEdit env path head base newPageName content world).2 := by
  have committed (memoryOps : List PageEditMemoryOp)
      (commits : Commits env path head content
        (service.pageWrite base newPageName content memoryOps) world.db) :
      PageEdited path (fun id => ⟨id, path⟩ ∈ world.db.sources) world.db
        (world.db.applyPageEdit path (service.pageWrite base newPageName content memoryOps)) := by
    apply applyPageEdit_edited
    intro op member id named
    have attached := List.all_eq_true.mp commits.attached op member
    rw [Option.mem_def.mp named] at attached
    simpa using attached
  cases service.commitEdit_cases env path head base newPageName content world nameless with
  | inl idle =>
      obtain ⟨result, ran⟩ := idle
      rw [ran]
      exact ⟨PageEdited.refl _, fun _ _ => rfl⟩
  | inr commit =>
      obtain ⟨memoryOps, commits, written | refused⟩ := commit
      · obtain ⟨own, result, named, _, ran⟩ := written
        rw [ran]
        refine ⟨committed memoryOps commits, fun key other => ?_⟩
        have different : key ≠ own := fun same => other (same ▸ named)
        exact Function.update_of_ne different _ _
      · obtain ⟨error, _, ran⟩ := refused
        rw [ran]
        exact ⟨committed memoryOps commits, fun _ _ => rfl⟩

theorem applyEdit_touched (op : EditOp) (path : Text) (world : World)
    (routed : service.vault.pageFromAny op.path = some path) :
    PageTouched service.vault path world (service.applyEdit env op world).2 := by
  have idle : PageTouched service.vault path world world := ⟨PageEdited.refl _, fun _ _ => rfl⟩
  by_cases reset : env.resetInProgress
  · simpa [applyEdit, reset] using idle
  · cases op with
    | delete input =>
        simpa [applyEdit, reset, routed] using service.deletePage_touched env path world
    | upsert input baseRev content =>
        have pushed : service.applyEdit env (.upsert input baseRev content) world =
            service.upsertPage env input baseRev content world := by
          simp [applyEdit, reset, routed]
        rw [pushed]
        cases service.upsertPage_eq env input path baseRev content world routed with
        | inl conflict =>
            obtain ⟨result, ran, _⟩ := conflict
            rw [ran]
            exact idle
        | inr commit =>
            obtain ⟨head, base, newPageName, commits, ran⟩ := commit
            rw [ran]
            exact service.commitEdit_touched env path head base newPageName content world
              (commitOf_named baseRev _ head base newPageName commits)

end PkmSyncService

end Edits

section Notes

def ingesting (path : Text) : Frame where
  keeps before after := before.db.paths.Nodup →
    after.db.paths.Nodup ∧ after.db.internalEntities = before.db.internalEntities ∧
      after.db.links = before.db.links ∧
      ∀ key, noteKey path ≠ .ok key → after.files key = before.files key
  refl _ unique := ⟨unique, rfl, rfl, fun _ _ => rfl⟩
  trans := by
    intro first second third left right unique
    obtain ⟨between, rows, links, files⟩ := left unique
    obtain ⟨still, rows', links', files'⟩ := right between
    exact ⟨still, rows'.trans rows, links'.trans links,
      fun key other => (files' key other).trans (files key other)⟩

variable (path : Text)

theorem ingesting_file (key : FileKey) (own : noteKey path = .ok key) :
    (ingesting path).TakesFile key := by
  intro world content unique
  refine ⟨unique, rfl, rfl, fun other different => ?_⟩
  exact Function.update_of_ne (fun same : other = key => different (same ▸ own)) _ _

theorem internalEntities_map (db : Database) (change : KnowledgeEntity → KnowledgeEntity)
    (origins : ∀ row, (change row).origin = row.origin)
    (own : ∀ row ∈ db.entities, row.origin = .internal → change row = row) :
    ({ db with entities := db.entities.map change } : Database).internalEntities =
      db.internalEntities := by
  apply filter_map_elsewhere
  · intro row stored internal
    exact own row stored (by simpa using internal)
  · intro row _ external
    simpa [origins] using external

theorem ingesting_map (change : KnowledgeEntity → KnowledgeEntity)
    (paths : ∀ row, (change row).path = row.path) (origins : ∀ row, (change row).origin = row.origin)
    (own : ∀ row, row.origin = .internal → change row = row) :
    (ingesting path).TakesChange fun db => { db with entities := db.entities.map change } := by
  intro world unique
  have same : (world.db.entities.map change).map KnowledgeEntity.path = world.db.paths := by
    simp [Database.paths, Function.comp_def, paths]
  rw [← same] at unique
  exact ⟨unique, internalEntities_map world.db change origins fun row _ => own row, rfl,
    fun _ _ => rfl⟩

theorem ingesting_rows (change : Database → Database)
    (entities : ∀ db, (change db).entities = db.entities) (links : ∀ db, (change db).links = db.links) :
    (ingesting path).TakesChange change := by
  intro world unique
  refine ⟨?_, ?_, links world.db, fun _ _ => rfl⟩
  · simpa [Database.paths, entities] using unique
  · simp [Database.internalEntities, entities]

theorem upsertExternalPage_kept {db stored : Database} {body rev : Text}
    (unique : db.paths.Nodup) (accepted : db.upsertExternalPage path body rev = .stored stored) :
    stored.paths.Nodup ∧ stored.internalEntities = db.internalEntities ∧ stored.links = db.links := by
  rw [Database.upsertExternalPage] at accepted
  split at accepted
  next row found =>
    split at accepted
    · cases accepted
    next external =>
      split at accepted
      · cases accepted
      · obtain rfl := ExternalUpsert.stored.inj accepted
        have paths : (db.updateExternal path body rev).paths = db.paths := by
          simp only [Database.updateExternal, Database.paths, List.map_map, Function.comp_def]
          congr 1
          funext other
          split <;> rfl
        rw [paths]
        refine ⟨unique, internalEntities_map db _ (fun other => by split <;> rfl) ?_, rfl⟩
        intro other present internal
        apply if_neg
        intro here
        -- The note's row is the only one at its path.
        have same := List.inj_on_of_nodup_map unique present (entityByPath_mem _ _ found)
          (here.trans (entityByPath_path _ _ found).symm)
        rw [same] at internal
        simp [internal] at external
  next missing =>
    obtain rfl := ExternalUpsert.stored.inj accepted
    have fresh : path ∉ db.paths := by
      rw [← Database.entityByPath_isSome, missing]
      simp
    refine ⟨?_, by simp [Database.internalEntities, Database.insertEntity], rfl⟩
    simpa [Database.insertEntity, Database.paths, List.nodup_append, List.nodup_cons] using
      ⟨unique, fun row stored same => fresh (List.mem_map.mpr ⟨row, stored, same⟩)⟩

theorem upsertExternal_within (env : Environment) (content rev : Text) :
    Call.Within (ingesting path) (PkmSyncService.upsertExternal env path content rev) := by
  intro world
  rw [PkmSyncService.upsertExternal]
  split
  next => exact (ingesting path).refl world
  next => exact (ingesting path).refl world
  next db accepted =>
    split
    · exact (ingesting path).refl world
    · intro unique
      obtain ⟨paths, rows, links⟩ := upsertExternalPage_kept path unique accepted
      exact ⟨paths, rows, links, fun _ _ => rfl⟩

theorem commitExternalExtract_links (db : Database) (rev : Text) (batch : List ExtractedMemory) :
    (db.commitExternalExtract path rev batch).links = db.links := by
  rw [Database.commitExternalExtract]
  split
  · have inserted := foldl_view Database.links Database.insertMemory (fun _ _ => rfl) batch
    have dropped := foldl_view Database.links Database.deleteMemory (fun _ _ => rfl)
      (db.derivedMemories path) db
    exact (inserted _).trans dropped
  · rfl

theorem commitExternalExtract_within (db : Database) (rev : Text) (batch : List ExtractedMemory)
    (unique : db.paths.Nodup) :
    (db.commitExternalExtract path rev batch).paths.Nodup ∧
      (db.commitExternalExtract path rev batch).internalEntities = db.internalEntities := by
  have paths : (db.commitExternalExtract path rev batch).paths = db.paths := by
    simp only [Database.paths, commitExternalExtract_entities, List.map_map, Function.comp_def]
    congr 1
    funext row
    split <;> rfl
  refine ⟨paths ▸ unique, ?_⟩
  rw [Database.internalEntities, commitExternalExtract_entities]
  apply internalEntities_map db
  · intro row
    split <;> rfl
  · intro row _ internal
    exact if_neg (by simp [KnowledgeEntity.mirrors, internal])

namespace PkmSyncService

variable (service : PkmSyncService) (env : Environment)

def extracting (answers : Text → Text → Database → Except AppError (List ExtractedMemory)) :
    Environment :=
  { env with extract := fun path content db =>
      (answers path content db).map fun batch =>
        db.commitExternalExtract path (service.sha256Hex content) batch }

variable (answers : Text → Text → Database → Except AppError (List ExtractedMemory))

theorem extractExternal_within (content : Text) :
    Call.Within (ingesting path)
      (extractExternal (service.extracting env answers) path content) := by
  intro world
  rw [extractExternal]
  cases found : answers path content world.db with
  | error error => simpa [extracting, found, Except.map] using (ingesting path).refl world
  | ok batch =>
      intro unique
      obtain ⟨paths, rows⟩ :=
        commitExternalExtract_within path world.db (service.sha256Hex content) batch unique
      have links := commitExternalExtract_links path world.db (service.sha256Hex content) batch
      simpa [extracting, found, Except.map] using ⟨paths, rows, links⟩

theorem mirrorNote_within (content rev : Text) :
    Call.Within (ingesting path) (mirrorNote env path content rev) := by
  apply (writeUserNote_within env path content (ingesting_file path)).bind
  intro _
  apply statement_within
  apply ingesting_map
  · intro row
    split <;> rfl
  · intro row
    split <;> rfl
  · intro row internal
    exact if_neg (by simp [KnowledgeEntity.mirrors, internal])

theorem ingestUpsert_within (content : Text) :
    Call.Within (ingesting path)
      (service.ingestUpsert (service.extracting env answers) path content) := by
  have finished (progress : ExternalPageProgress) : Call.Within (ingesting path)
      (finishIngest (service.extracting env answers) path content progress) := by
    rw [finishIngest]
    split
    · exact (service.extractExternal_within path env answers content).bind fun _ =>
        Call.Within.pure _
    · exact Call.Within.pure _
  apply (upsertExternal_within path _ content _).bind
  intro progress
  apply Call.Within.branch (Call.Within.pure _)
  apply Call.Within.branch _ (finished progress)
  apply (mirrorNote_within path _ content progress.rev).bind
  intro current
  exact Call.Within.branch (finished progress) (Call.Within.pure _)

theorem ingestDelete_within : Call.Within (ingesting path) (ingestDelete env path) := by
  have dropped (ids : List Nat) : Call.Within (ingesting path) (dropDerivedMemories env ids) := by
    induction ids with
    | nil => exact Call.Within.pure _
    | cons id ids ih =>
        have taken : (ingesting path).TakesChange fun db => db.deleteMemory id :=
          ingesting_rows path _ (fun _ => rfl) fun _ => rfl
        exact (update_within env (.deleteMemory id) _ taken).bind fun _ => ih
  have deleted : (ingesting path).TakesChange fun db => db.deleteExternalRow path := by
    intro world unique
    refine ⟨unique.sublist (List.filter_sublist.map _), ?_, rfl, fun _ _ => rfl⟩
    simp only [Database.internalEntities, Database.deleteExternalRow, List.filter_filter]
    congr 1
    funext row
    cases row.origin <;> simp
  apply Call.Within.get.bind
  intro world
  apply (dropped _).bind
  intro _
  apply (update_within env _ _ deleted).bind
  intro _
  exact (deleteUserNote_within env path (ingesting_file path)).attempt.bind fun _ => Call.Within.pure _

theorem ingestExternal_within (op : EditOp) :
    Call.Within (ingesting (trimEndMd op.path))
      (service.ingestExternal (service.extracting env answers) op) := by
  cases op with
  | upsert path baseRev content => exact service.ingestUpsert_within _ env answers content
  | delete path => exact ingestDelete_within _ _

theorem applyEdit_ingests (op : EditOp) (routed : service.vault.pageFromAny op.path = none) :
    Call.Within (ingesting (trimEndMd op.path))
      (service.applyEdit (service.extracting env answers) op) := by
  intro world
  by_cases reset : env.resetInProgress
  · simpa [applyEdit, extracting, reset] using (ingesting (trimEndMd op.path)).refl world
  · have ingested := service.ingestExternal_within env answers op world
    have same : service.applyEdit (service.extracting env answers) op world =
        service.ingestExternal (service.extracting env answers) op world := by
      simp [applyEdit, extracting, reset, routed]
    rw [same]
    exact ingested

end PkmSyncService

end Notes

section Apart

open Recovery (plainRecovery)

/-- What the pages and the notes leave of each other, over any store with one row at a path. -/
theorem pages_and_notes_apart (recovery : Recovery) (world : World)
    (unique : world.db.paths.Nodup) :
    (∀ vaultPath baseRev, (recovery.checkEdit vaultPath baseRev world).2 = world) ∧
    (∀ env op path, recovery.vault.pageFromAny op.path = some path →
      PageTouched recovery.vault path world (recovery.applyEdit env op world).2) ∧
    (∀ boot pages, (∀ page ∈ pages, page ∈ world.db.internalEntities) →
      Projected recovery.vault world (recovery.reconcileUserFiles boot pages world).2 ∧
        (recovery.reconcileUserFiles boot pages world).2.db.externalEntities =
          world.db.externalEntities) ∧
    (∀ boot entities,
      Projected recovery.vault world (recovery.reconcileEntityFiles boot entities world).2) ∧
    ∀ env answers op after, recovery.vault.pageFromAny op.path = none →
      (recovery.applyEdit (recovery.extracting env answers) op world).2 = after →
      after.db.internalEntities = world.db.internalEntities ∧
        after.db.links = world.db.links ∧
        (∀ key, noteKey (trimEndMd op.path) ≠ .ok key → after.files key = world.files key) ∧
        (¬ recovery.vault.Dotted (trimEndMd op.path) →
          ∀ key, recovery.vault.holds key → after.files key = world.files key) := by
  have projects (paths : List Text) :
      Recovery.Projects (projecting recovery.vault paths) paths recovery.vault :=
    ⟨projecting_file recovery.vault paths, projecting_rows recovery.vault paths⟩
  refine ⟨?_, ?_, ?_, ?_, ?_⟩
  · intro vaultPath baseRev
    rw [PkmSyncService.checkEdit]
    cases recovery.vault.pageFromAny vaultPath <;> rfl
  · intro env op path routed
    exact recovery.applyEdit_touched env op path world routed
  · intro boot pages listed
    have kept := recovery.reconcileUserFiles_within boot (projects (pages.map KnowledgeEntity.path))
      pages (fun page member => List.mem_map.mpr ⟨page, member, rfl⟩) world
    refine ⟨kept.1, kept.2 ?_⟩
    intro kind stored own
    obtain ⟨row, present, rfl⟩ := List.mem_map.mp stored
    obtain ⟨page, member, same⟩ := List.mem_map.mp own
    obtain ⟨stored', internal⟩ := List.mem_filter.mp (listed page member)
    have here := List.inj_on_of_nodup_map unique present stored' same.symm
    rw [here]
    simpa using internal
  · intro boot entities
    exact (recovery.reconcileEntityFiles_within boot
      (projects (entities.map KnowledgeEntity.path)) entities
      (fun page member => List.mem_map.mpr ⟨page, member, rfl⟩) world).1
  · intro env answers op after routed ran
    have kept := recovery.applyEdit_ingests env answers op routed world
    rw [ran] at kept
    obtain ⟨_, rows, links, files⟩ := kept unique
    refine ⟨rows, links, files, fun plain key inside => files key ?_⟩
    exact fun own => recovery.vault.noteKey_outside op.path key plain routed own inside

def minedNote : World where
  db := {
    entities := [storedPage 0 ['p'] [], { storedPage 1 ['n'] [] with origin := .external }]
    links := []
    sources := [⟨2, ['p']⟩]
    memories := [{
      id := 2, kind := .fact, content := [], disposition := .none, replacedBy := []
      evidence := [.externalNote ['n']] }]
    nextId := 3 }
  files _ := none

theorem minedNote_apart :
    PageTouched memoryVault ['p'] minedNote
        (plainRecovery.applyEdit plainEnvironment (.delete "Memory/p.md".toList) minedNote).2 ∧
      (plainRecovery.applyEdit (plainRecovery.extracting plainEnvironment fun _ _ _ => .ok [])
          (.delete "n.md".toList) minedNote).2.db.internalEntities =
        minedNote.db.internalEntities := by
  obtain ⟨_, edits, _, _, notes⟩ :=
    pages_and_notes_apart plainRecovery minedNote (by decide)
  refine ⟨edits plainEnvironment (.delete "Memory/p.md".toList) ['p'] (by decide), ?_⟩
  exact (notes plainEnvironment (fun _ _ _ => .ok []) (.delete "n.md".toList) _
    (by decide) rfl).1

def Database.noteMemories (db : Database) (note : Text) : List KnowledgeMemory :=
  db.memories.filter fun memory => .externalNote note ∈ memory.evidence

theorem noteMemories_retired :
    plainRecovery.vault.pageFromAny "Memory/p.md".toList = some ['p'] ∧
    (plainRecovery.applyEdit plainEnvironment (.delete "Memory/p.md".toList) minedNote).1 =
      .ok .removed ∧
    (plainRecovery.applyEdit plainEnvironment (.delete "Memory/p.md".toList)
        minedNote).2.db.noteMemories ['n'] ≠ minedNote.db.noteMemories ['n'] := by
  decide

end Apart

end Frona.Pkm
