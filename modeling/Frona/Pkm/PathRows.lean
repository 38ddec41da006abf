import Frona.Pkm.CleanPath
import Frona.Pkm.Origins

set_option autoImplicit false

namespace Frona.Pkm

open Utf8 (Text)

section Rows

def KnowledgeEntity.spot (row : KnowledgeEntity) : Text × EntityOrigin := (row.path, row.origin)

def Database.spots (db : Database) : List (Text × EntityOrigin) :=
  db.entities.map KnowledgeEntity.spot

theorem Database.spots_fst (db : Database) : db.spots.map Prod.fst = db.paths := by
  simp [spots, paths, KnowledgeEntity.spot, Function.comp_def]

theorem spots_map (rows : List KnowledgeEntity) (change : KnowledgeEntity → KnowledgeEntity)
    (paths : ∀ row, (change row).path = row.path)
    (origins : ∀ row, (change row).origin = row.origin) :
    (rows.map change).map KnowledgeEntity.spot = rows.map KnowledgeEntity.spot := by
  simp [KnowledgeEntity.spot, paths, origins, Function.comp_def]

namespace VaultScope

variable {vault : VaultScope} {db after : Database}

theorem CleanRows.fewer (rows : vault.CleanRows db) (sublist : after.spots.Sublist db.spots) :
    vault.CleanRows after := by
  have old (row : KnowledgeEntity) (member : row ∈ after.entities) :
      ∃ old ∈ db.entities, old.path = row.path ∧ old.origin = row.origin := by
    obtain ⟨old, present, same⟩ := List.mem_map.mp
      (sublist.subset (List.mem_map.mpr ⟨row, member, rfl⟩))
    exact ⟨old, present, congrArg Prod.fst same, congrArg Prod.snd same⟩
  constructor
  · rw [← Database.spots_fst]
    exact (Database.spots_fst db ▸ rows.unique).sublist (sublist.map Prod.fst)
  · intro row member
    obtain ⟨old, present, path, -⟩ := old row member
    exact path ▸ rows.clean old present
  · intro row member external
    obtain ⟨old, present, path, origin⟩ := old row member
    exact path ▸ rows.notes old present (origin.trans external)

theorem CleanRows.insert (rows : vault.CleanRows db) {path : Text} (clean : Clean path)
    (fresh : path ∉ db.paths) (name : Text) (origin : EntityOrigin)
    (note : origin = .external → vault.Outside path) (body : Text) (rev : Option Text) :
    vault.CleanRows (db.insertEntity path name origin body rev) := by
  constructor
  · have apart : ∀ other ∈ db.paths, other ≠ path := fun other member same => fresh (same ▸ member)
    have paths : (db.insertEntity path name origin body rev).paths = db.paths ++ [path] := by
      simp [Database.insertEntity, Database.paths]
    rw [paths, List.nodup_append]
    exact ⟨rows.unique, by simp, by simpa using apart⟩
  · intro row member
    rcases List.mem_append.mp member with old | new
    · exact rows.clean row old
    · rw [List.mem_singleton.mp new]
      exact clean
  · intro row member external
    rcases List.mem_append.mp member with old | new
    · exact rows.notes row old external
    · rw [List.mem_singleton.mp new] at external ⊢
      exact note external

end VaultScope

theorem fresh_of_missing {db : Database} {path : Text} (missing : db.entityByPath path = none) :
    path ∉ db.paths := by
  rw [← Database.entityByPath_isSome, missing]
  simp

def tidy (vault : VaultScope) : Frame where
  keeps before after := vault.CleanRows before.db → vault.CleanRows after.db
  refl _ rows := rows
  trans first second rows := second (first rows)

variable {vault : VaultScope}

theorem tidy_file (key : FileKey) : (tidy vault).TakesFile key := fun _ _ rows => rows

theorem tidy_fewer (change : Database → Database)
    (sublist : ∀ db, (change db).spots.Sublist db.spots) : (tidy vault).TakesChange change :=
  fun world rows => rows.fewer (sublist world.db)

theorem tidy_rows (change : Database → Database)
    (same : ∀ db, (change db).entities = db.entities) : (tidy vault).TakesChange change := by
  apply tidy_fewer
  intro db
  rw [Database.spots, same]
  exact List.Sublist.refl _

theorem tidy_map (change : Database → Database) (row : Database → KnowledgeEntity → KnowledgeEntity)
    (entities : ∀ db, (change db).entities = db.entities.map (row db))
    (paths : ∀ db old, (row db old).path = old.path)
    (origins : ∀ db old, (row db old).origin = old.origin) : (tidy vault).TakesChange change := by
  apply tidy_fewer
  intro db
  rw [Database.spots, entities, spots_map _ _ (paths db) (origins db)]
  exact List.Sublist.refl _

end Rows

namespace PkmSyncService

variable (service : PkmSyncService) (env : Environment)

section Edits

theorem applyPageEdit_tidy {path : Text} (clean : Clean path) (write : PageEditWrite) :
    (tidy service.vault).TakesChange fun db => db.applyPageEdit path write := by
  intro world rows
  have inserted : service.vault.CleanRows (world.db.insertMissing path write) := by
    unfold Database.insertMissing
    split
    next missing =>
      exact rows.insert clean (fresh_of_missing missing) _ .internal nofun [] none
    next => exact rows
  refine inserted.fewer ?_
  rw [Database.spots, Database.applyPageEdit_entities, spots_map]
  · exact List.Sublist.refl _
  · intro row
    unfold Database.rewrite
    split <;> rfl
  · intro row
    unfold Database.rewrite
    split <;> rfl

theorem upsertPage_tidy {path page : Text} (start : service.vault.pageFromAny path = some page)
    (clean : Clean page) (baseRev : Option Text) (content : Text) :
    Call.Within (tidy service.vault) (service.upsertPage env path baseRev content) := by
  intro world rows
  rcases service.upsertPage_eq env path page baseRev content world start with
    ⟨result, same, -⟩ | ⟨head, base, newPageName, commit, same⟩
  · rw [same]
    exact rows
  · rw [same]
    rcases service.commitEdit_cases env page head base newPageName content world
        (commitOf_named baseRev _ head base newPageName commit) with
      ⟨result, nothing⟩ | ⟨memoryOps, -, ⟨key, result, -, -, ran⟩ | ⟨error, -, ran⟩⟩
    · rw [nothing]
      exact rows
    · rw [ran]
      exact service.applyPageEdit_tidy clean _ world rows
    · rw [ran]
      exact service.applyPageEdit_tidy clean _ world rows

theorem applied_tidy (statements : List Statement)
    (each : ∀ entry ∈ statements, (tidy service.vault).TakesChange entry.2) (world : World)
    (rows : service.vault.CleanRows world.db) :
    service.vault.CleanRows (applied env statements world.db) :=
  applied_induction env service.vault.CleanRows statements world.db rows
    fun entry member db kept => each entry member { world with db } kept

theorem deletePage_tidy (path : Text) :
    Call.Within (tidy service.vault) (service.deletePage env path) := by
  intro world rows
  have each : ∀ entry ∈ deleteStatements path world.db,
      (tidy service.vault).TakesChange entry.2 := by
    intro entry member
    rcases List.mem_append.mp member with disposed | deleted
    · obtain ⟨memory, -, rfl⟩ := List.mem_map.mp disposed
      exact tidy_rows _ fun _ => rfl
    · rw [List.mem_singleton.mp deleted]
      exact tidy_fewer _ fun db => List.filter_sublist.map _
  have kept := service.applied_tidy env _ each world rows
  rw [deletePage_eq]
  split
  · exact kept
  · exact kept

theorem ingestDelete_tidy (path : Text) :
    Call.Within (tidy service.vault) (ingestDelete env path) := by
  intro world rows
  have each : ∀ entry ∈ noteStatements path world.db, (tidy service.vault).TakesChange entry.2 := by
    intro entry member
    rcases List.mem_append.mp member with derived | deleted
    · obtain ⟨id, -, rfl⟩ := List.mem_map.mp derived
      exact tidy_rows _ fun _ => rfl
    · rw [List.mem_singleton.mp deleted]
      exact tidy_fewer _ fun db => List.filter_sublist.map _
  have kept := service.applied_tidy env _ each world rows
  rw [ingestDelete_eq]
  split
  · exact kept
  · exact kept

variable (answers : Text → Text → Database → Except AppError (List ExtractedMemory))

theorem extractExternal_tidy (path content : Text) :
    Call.Within (tidy service.vault)
      (extractExternal (service.extracting env answers) path content) := by
  intro world rows
  rw [extractExternal]
  cases found : answers path content world.db with
  | error error => simpa [extracting, found, Except.map] using rows
  | ok batch =>
      have kept : service.vault.CleanRows
          (world.db.commitExternalExtract path (service.sha256Hex content) batch) := by
        refine rows.fewer ?_
        rw [Database.spots, commitExternalExtract_entities, spots_map]
        · exact List.Sublist.refl _
        · intro row
          split <;> rfl
        · intro row
          split <;> rfl
      simpa [extracting, found, Except.map] using kept

theorem upsertExternal_tidy {path : Text} (clean : Clean path) (outside : service.vault.Outside path)
    (content rev : Text) :
    Call.Within (tidy service.vault) (upsertExternal env path content rev) := by
  intro world rows
  rw [upsertExternal]
  split
  next => exact rows
  next => exact rows
  next db accepted =>
    split
    next => exact rows
    next =>
      rw [Database.upsertExternalPage] at accepted
      split at accepted
      next row found =>
        split at accepted
        · cases accepted
        · split at accepted
          · cases accepted
          · obtain rfl := ExternalUpsert.stored.inj accepted
            refine rows.fewer ?_
            rw [Database.spots, Database.updateExternal, spots_map]
            · exact List.Sublist.refl _
            · intro row
              split <;> rfl
            · intro row
              split <;> rfl
      next missing =>
        obtain rfl := ExternalUpsert.stored.inj accepted
        exact rows.insert clean (fresh_of_missing missing) _ .external (fun _ => outside) _ _

theorem mirrorNote_tidy (path content rev : Text) :
    Call.Within (tidy service.vault) (mirrorNote env path content rev) := by
  apply (writeUserNote_within env path content fun key _ => tidy_file key).bind
  intro _
  apply statement_within
  refine tidy_map _ (fun _ row => if row.mirrors path rev then { row with mirroredRev := some rev }
    else row) (fun _ => rfl) (fun _ row => ?_) fun _ row => ?_
  · split <;> rfl
  · split <;> rfl

theorem ingestUpsert_tidy {path : Text} (clean : Clean path) (outside : service.vault.Outside path)
    (content : Text) :
    Call.Within (tidy service.vault)
      (service.ingestUpsert (service.extracting env answers) path content) := by
  have finished (progress : ExternalPageProgress) : Call.Within (tidy service.vault)
      (finishIngest (service.extracting env answers) path content progress) := by
    rw [finishIngest]
    split
    · exact (service.extractExternal_tidy env answers path content).bind fun _ =>
        Call.Within.pure _
    · exact Call.Within.pure _
  apply (service.upsertExternal_tidy _ clean outside content _).bind
  intro progress
  apply Call.Within.branch (Call.Within.pure _)
  apply Call.Within.branch _ (finished progress)
  apply (service.mirrorNote_tidy _ path content progress.rev).bind
  intro current
  exact Call.Within.branch (finished progress) (Call.Within.pure _)

def EditClean (op : EditOp) : Prop :=
  match op with
  | .upsert path _ _ => Clean ((service.vault.pageFromAny path).getD (trimEndMd path))
  | .delete _ => True

theorem applyEdit_tidy (plain : service.vault.directory ≠ ['.']) {op : EditOp}
    (clean : service.EditClean op) :
    Call.Within (tidy service.vault) (service.applyEdit (service.extracting env answers) op) := by
  unfold applyEdit
  apply Call.Within.branch (Call.Within.fail _)
  cases op with
  | upsert path baseRev content =>
      cases routed : service.vault.pageFromAny path with
      | none =>
          simp only [EditClean, routed, Option.getD_none] at clean
          simp only [EditOp.path, routed]
          exact service.ingestUpsert_tidy env answers clean
            (VaultScope.outside_of_routed plain clean routed) content
      | some page =>
          simp only [EditClean, routed, Option.getD_some] at clean
          simp only [EditOp.path, routed]
          exact service.upsertPage_tidy _ routed clean baseRev content
  | delete path =>
      cases routed : service.vault.pageFromAny path with
      | none =>
          simp only [EditOp.path, routed]
          exact service.ingestDelete_tidy _ _
      | some page =>
          simp only [EditOp.path, routed]
          exact service.deletePage_tidy _ page

end Edits

section Renames

theorem renameEntities_spots (db renamed : Database) (aborts : Bool) (moves : List (Text × Text))
    (unique : db.paths.Nodup) (stored : db.renameEntities aborts moves = some renamed) :
    renamed.paths.Nodup ∧ ∀ row ∈ renamed.entities, ∃ old ∈ db.entities, old.origin = row.origin ∧
      (old.path = row.path ∨ old.path ∈ moves.map Prod.fst ∧ row.path ∈ moves.map Prod.snd) := by
  induction moves generalizing db with
  | nil =>
      obtain rfl : db = renamed := by simpa [Database.renameEntities] using stored
      exact ⟨unique, fun row member => ⟨row, member, rfl, .inl rfl⟩⟩
  | cons move rest ih =>
      obtain ⟨source, target⟩ := move
      simp only [Database.renameEntities] at stored
      split at stored
      next =>
        split at stored
        next => cases stored
        next =>
          obtain ⟨kept, rows⟩ := ih (db.repointEdges source target) unique stored
          refine ⟨kept, fun row member => ?_⟩
          obtain ⟨old, present, origin, place⟩ := rows row member
          refine ⟨old, present, origin, place.imp_right fun moved => ?_⟩
          exact ⟨List.mem_cons_of_mem _ moved.1, List.mem_cons_of_mem _ moved.2⟩
      next free =>
        have paths : ((db.repointEdges source target).moveRow source target).paths =
            db.paths.map (repoint source target) := by
          simp [Database.moveRow, Database.repointEdges, Database.paths, Function.comp_def]
        have unique' : ((db.repointEdges source target).moveRow source target).paths.Nodup := by
          rw [paths, List.nodup_map_iff_inj_on unique]
          intro left here right there same
          unfold repoint at same
          by_cases away : source = target
          · subst away
            split at same <;> split at same <;> simp_all
          · have one : ¬ (source ∈ db.paths ∧ target ∈ db.paths) := fun both => free ⟨away, both⟩
            split at same <;> split at same <;> simp_all
        obtain ⟨kept, rows⟩ := ih _ unique' stored
        refine ⟨kept, fun row member => ?_⟩
        obtain ⟨between, present, origin, place⟩ := rows row member
        obtain ⟨old, found, rfl⟩ := List.mem_map.mp present
        refine ⟨old, found, origin, ?_⟩
        by_cases here : old.path = source
        · right
          refine ⟨by simp [here], ?_⟩
          rcases place with still | later
          · simp [← still, repoint, here]
          · exact List.mem_cons_of_mem _ later.2
        · have stays : repoint source target old.path = old.path := if_neg here
          rcases place with still | later
          · exact .inl (stays.symm.trans still)
          · rw [stays] at later
            exact .inr ⟨List.mem_cons_of_mem _ later.1, List.mem_cons_of_mem _ later.2⟩

structure MovesClean (moves : List (Text × Text)) (db : Database) : Prop where
  targets : ∀ move ∈ moves, Clean move.2
  notes : ∀ row ∈ db.entities, row.origin = .external → row.path ∈ moves.map Prod.fst →
    ∀ move ∈ moves, service.vault.Outside move.2

theorem renameEntities_tidy (moves : List (Text × Text)) (world : World)
    (rows : service.vault.CleanRows world.db)
    (clean : service.MovesClean moves world.db) :
    service.vault.CleanRows (renameEntities env moves world).2.db := by
  unfold renameEntities
  split
  next => exact rows
  next =>
    split
    next => exact rows
    next =>
      split
      next => exact rows
      next renamed stored =>
        obtain ⟨unique, spots⟩ := renameEntities_spots _ _ _ _ rows.unique stored
        refine ⟨unique, fun row member => ?_, fun row member external => ?_⟩
        · obtain ⟨old, present, -, still | ⟨-, moved⟩⟩ := spots row member
          · exact still ▸ rows.clean old present
          · obtain ⟨move, member, same⟩ := List.mem_map.mp moved
            exact same ▸ clean.targets move member
        · obtain ⟨old, present, origin, still | ⟨source, moved⟩⟩ := spots row member
          · exact still ▸ rows.notes old present (origin.trans external)
          · obtain ⟨move, member, same⟩ := List.mem_map.mp moved
            exact same ▸ clean.notes old present (origin.trans external) source move member

end Renames

end PkmSyncService

end Frona.Pkm
