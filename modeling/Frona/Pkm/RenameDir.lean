import Frona.Pkm.CallSpec

set_option autoImplicit false

namespace Frona.Pkm

open Utf8 (Text)

def KnowledgeEntity.place (row : KnowledgeEntity) : Nat × Text := (row.id, row.path)

def Database.places (db : Database) : List (Nat × Text) := db.entities.map KnowledgeEntity.place

theorem Database.places_snd (db : Database) : db.places.map Prod.snd = db.paths := by
  simp [Database.places, Database.paths, KnowledgeEntity.place, Function.comp_def]

theorem Database.places_setPageProjection (db : Database) (path content rev : Text) :
    (db.setPageProjection path content rev).places = db.places := by
  simp only [Database.places, Database.setPageProjection, List.map_map]
  apply List.map_congr_left
  intro row _
  by_cases same : row.path = path <;> simp [KnowledgeEntity.place, same]

namespace VaultScope

variable (vault : VaultScope) (env : Environment)

def movedFiles (moves : List (Text × Text)) (files : Files) : Files :=
  Moves.moveAll env.accepts env.removes (moves.filterMap vault.keyedMove) files

theorem movedFiles_cons (move : Text × Text) (rest : List (Text × Text)) (files : Files) :
    vault.movedFiles env (move :: rest) files =
      vault.movedFiles env rest (vault.movedFile env move files) := by
  cases keyed : vault.keyedMove move <;>
    simp [movedFiles, movedFile, keyed, Moves.moveAll]

def relinkedAll (db : Database) (moves : List (Text × Text)) (files : Files) : Files :=
  moves.foldl (fun files move =>
    vault.relinkedFiles env (db.entitiesLinkingTo move.2) move.1 move.2 files) files

end VaultScope

namespace PkmSyncService

variable (service : PkmSyncService) (env : Environment)

theorem moveFiles_ok (moves : List (Text × Text)) (world after : World)
    (ran : service.moveFiles env moves world = (.ok (), after)) :
    after.files = service.vault.movedFiles env moves world.files ∧
      after.db.links = world.db.links ∧ after.db.places = world.db.places := by
  induction moves generalizing world with
  | nil =>
      obtain rfl : world = after := congrArg Prod.snd ran
      exact ⟨rfl, rfl, rfl⟩
  | cons move rest ih =>
      obtain ⟨_, moved, first, ran⟩ := Call.bind_ok ran
      obtain ⟨rev, stamped, second, ran⟩ := Call.bind_ok ran
      obtain ⟨files, links, places⟩ := ih stamped ran
      obtain ⟨sameFiles, db, _⟩ := service.restampRev_after env move.2 moved stamped rev second
      have moved_eq : moved =
          { world with files := service.vault.movedFile env move world.files } := by
        rw [← VaultScope.movePageFile_after]
        exact (congrArg Prod.snd first).symm
      refine ⟨?_, ?_, ?_⟩
      · rw [files, sameFiles, moved_eq, VaultScope.movedFiles_cons]
      · rw [links, db, moved_eq]
        split <;> rfl
      · rw [places, db, moved_eq]
        split
        · rfl
        · exact Database.places_setPageProjection _ _ _ _

theorem relinkMoves_eq (moves : List (Text × Text)) (world : World) :
    service.relinkMoves env moves world =
      (.ok (), { world with files :=
        service.vault.relinkedAll env world.db moves world.files }) := by
  induction moves generalizing world with
  | nil => rfl
  | cons move rest ih =>
      simp [relinkMoves, rewriteLinksAfterMove, VaultScope.rewriteLinks_eq, ih,
        VaultScope.relinkedAll]

theorem renameEntities_ok (moves : List (Text × Text)) (world after : World)
    (ran : renameEntities env moves world = (.ok (), after)) :
    ∃ db, world.db.renameEntities env.uniqueAborts moves = some db ∧ after = { world with db } := by
  by_cases empty : moves = []
  · subst empty
    obtain rfl : world = after := by simpa [renameEntities] using ran
    exact ⟨world.db, rfl, rfl⟩
  · by_cases refused : env.refuses .renameEntities
    · simp [renameEntities, empty, refused] at ran
    · cases stored : world.db.renameEntities env.uniqueAborts moves with
      | none => simp [renameEntities, empty, refused, stored] at ran
      | some db =>
          exact ⟨db, rfl, by simpa [renameEntities, empty, refused, stored] using ran.symm⟩

theorem pageEverywhere_ok (source target : Text) (world renamed : World)
    (committed : renameEntities env [(source, target)] world = (.ok (), renamed)) :
    service.pageEverywhere env source target world = (.ok (),
      { db := renamed.db
        files := service.vault.relinkedFiles env (world.db.entitiesLinkingTo source) source target
          (service.vault.movedFile env (source, target) renamed.files) }) := by
  simp only [pageEverywhere, Call.bind_apply, Call.get_apply, committed, Call.attempt_apply,
    VaultScope.movePageFile_after, VaultScope.rewriteLinks_eq]

theorem pageEverywhere_error (source target : Text) (world after : World) (error : AppError)
    (refused : renameEntities env [(source, target)] world = (.error error, after)) :
    service.pageEverywhere env source target world = (.error error, after) := by
  simp only [pageEverywhere, Call.bind_apply, Call.get_apply, refused]

theorem moveDir_ok (moves : List (Text × Text)) (world after : World) (result : EditResult)
    (ran : service.moveDir env moves world = (.ok result, after)) :
    ∃ moved, world.db.renameEntities env.uniqueAborts moves = some moved ∧
      after.db.links = moved.links ∧ after.db.places = moved.places ∧
      after.files = service.vault.relinkedAll env moved moves
        (service.vault.movedFiles env moves world.files) := by
  obtain ⟨_, renamed, committed, ran⟩ := Call.bind_ok ran
  obtain ⟨_, placed, moved, ran⟩ := Call.bind_ok ran
  obtain ⟨_, relinked, linked, ran⟩ := Call.bind_ok ran
  obtain ⟨_, rfl⟩ : _ ∧ relinked = after := by simpa using ran
  obtain ⟨db, stored, rfl⟩ := renameEntities_ok env moves world renamed committed
  obtain ⟨files, links, places⟩ := service.moveFiles_ok env moves _ placed moved
  obtain rfl : _ = relinked := by simpa [relinkMoves_eq] using congrArg Prod.snd linked
  refine ⟨db, stored, links, places, ?_⟩
  simp only [files, VaultScope.relinkedAll, Database.entitiesLinkingTo, links]

theorem renameDir_ok (fromPath toPath : Text) (world after : World) (result : EditResult)
    (ran : service.renameDir env fromPath toPath world = (.ok result, after)) :
    ∃ source target, service.vault.pageFromAny fromPath = some source ∧
      service.vault.pageFromAny toPath = some target ∧
      occupiedTarget (dirMoves source target world.db) world.db = none ∧
      service.moveDir env (dirMoves source target world.db) world = (.ok result, after) := by
  cases fromPage : service.vault.pageFromAny fromPath with
  | none => simp [renameDir, vaultToPage, fromPage] at ran
  | some source =>
      cases toPage : service.vault.pageFromAny toPath with
      | none => simp [renameDir, vaultToPage, fromPage, toPage] at ran
      | some target =>
          by_cases empty : dirMoves source target world.db = []
          · simp [renameDir, vaultToPage, fromPage, toPage, empty] at ran
          · cases free : occupiedTarget (dirMoves source target world.db) world.db with
            | some new => simp [renameDir, vaultToPage, fromPage, toPage, empty, free] at ran
            | none =>
                exact ⟨source, target, rfl, rfl, free,
                  by simpa [renameDir, vaultToPage, fromPage, toPage, empty, free] using ran⟩

end PkmSyncService

end Frona.Pkm
