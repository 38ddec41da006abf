import Frona.Machine.Run
import Frona.Pkm.RenameSound
import Frona.Pkm.Stamped

set_option autoImplicit false

namespace Frona.Pkm

open Utf8 (Text)
open Moves (sequential)

theorem Database.renameEntities_rows (db renamed : Database) (aborts : Bool)
    (moves : List (Text × Text)) (stored : db.renameEntities aborts moves = some renamed)
    (row : KnowledgeEntity) (present : row ∈ renamed.entities) :
    ∃ old ∈ db.entities, old.rev = row.rev ∧
      (old.path = row.path ∨ row.path ∈ moves.map Prod.snd) := by
  induction moves generalizing db with
  | nil =>
      obtain rfl : db = renamed := by simpa [renameEntities] using stored
      exact ⟨row, present, rfl, Or.inl rfl⟩
  | cons move rest ih =>
      obtain ⟨source, target⟩ := move
      simp only [renameEntities] at stored
      split at stored
      · split at stored
        · simp at stored
        · obtain ⟨old, member, rev, place⟩ := ih _ stored
          exact ⟨old, member, rev, place.imp_right (List.mem_cons_of_mem target)⟩
      · obtain ⟨between, member, rev, place⟩ := ih _ stored
        obtain ⟨old, found, rfl⟩ := List.mem_map.mp member
        refine ⟨old, found, rev, ?_⟩
        cases place with
        | inr later => exact Or.inr (List.mem_cons_of_mem target later)
        | inl here =>
            by_cases moved : old.path = source
            · exact Or.inr (by simp [← here, repoint, moved])
            · exact Or.inl (by simpa [repoint, moved] using here)

namespace VaultScope

variable (vault : VaultScope) (env : Environment)

theorem relinkedFiles_keeps (linkers : List Text) (source target : Text) (files : Files)
    (key : FileKey)
    (keeps : ∀ linker ∈ linkers, vault.names linker key →
      ∀ content, files key = some content → vault.rewritten content source target = content) :
    vault.relinkedFiles env linkers source target files key = files key := by
  induction linkers generalizing files with
  | nil => rfl
  | cons linker linkers ih =>
      have first : vault.relinkedFile env linker source target files key = files key := by
        cases named : vault.pageKey linker with
        | error error => simp [relinkedFile, named]
        | ok key' =>
            by_cases accepted : env.accepts key'
            · by_cases same : key' = key
              · subst same
                cases stored : files key' with
                | none => simp [relinkedFile, named, accepted, stored]
                | some content =>
                    simp [relinkedFile, named, accepted, stored,
                      keeps linker (by simp) named content stored]
              · simp [relinkedFile, named, accepted, Ne.symm same]
            · simp [relinkedFile, named, accepted]
      change vault.relinkedFiles env linkers source target
        (vault.relinkedFile env linker source target files) key = files key
      rw [ih, first]
      intro other member named content stored
      exact keeps other (by simp [member]) named content (first.symm.trans stored)

theorem relinkedAll_keeps (db : Database) (moves : List (Text × Text)) (files : Files)
    (key : FileKey)
    (keeps : ∀ move ∈ moves, ∀ linker ∈ db.entitiesLinkingTo move.2, vault.names linker key →
      ∀ content, files key = some content → vault.rewritten content move.1 move.2 = content) :
    vault.relinkedAll env db moves files key = files key := by
  induction moves generalizing files with
  | nil => rfl
  | cons move rest ih =>
      have first := vault.relinkedFiles_keeps env (db.entitiesLinkingTo move.2) move.1 move.2 files
        key (keeps move (by simp))
      change vault.relinkedAll env db rest
        (vault.relinkedFiles env (db.entitiesLinkingTo move.2) move.1 move.2 files) key = files key
      rw [ih, first]
      intro later member linker linked named content stored
      exact keeps later (by simp [member]) linker linked named content (first.symm.trans stored)

theorem movedFile_origin (move : Text × Text) (files : Files) (key : FileKey) (content : Text)
    (stored : vault.movedFile env move files key = some content) :
    files key = some content ∨
      (vault.names move.2 key ∧ vault.readPage move.1 files = some content) := by
  cases keyed : vault.keyedMove move with
  | none => exact Or.inl (by simpa [movedFile, keyed] using stored)
  | some keys =>
      obtain ⟨start, stop⟩ := (vault.keyedMove_eq_some move keys).mp keyed
      simp only [movedFile, keyed] at stored
      by_cases stays : files keys.1 = none ∨ env.accepts keys.2 = false
      · rw [Moves.moveOne_stays _ _ _ _ stays] at stored
        exact Or.inl stored
      · obtain ⟨filled, accepted⟩ := not_or.mp stays
        obtain ⟨moved, held⟩ := Option.ne_none_iff_exists'.mp filled
        rw [Moves.moveOne_at _ _ _ _ held (by simpa using accepted)] at stored
        split at stored
        · simp at stored
        · split at stored
          · next arrived =>
              right
              exact ⟨arrived ▸ stop,
                (vault.readPage_eq_some _ _ _).mpr ⟨_, start, held.trans stored⟩⟩
          · exact Or.inl stored

end VaultScope

namespace PkmSyncService

variable (service : PkmSyncService) (env : Environment)

theorem movePage_ok (source target rev : Text) (world after : World)
    (ran : service.movePage env source target world = (.ok rev, after)) :
    ∃ renamed, world.db.renameEntities env.uniqueAborts [(source, target)] = some renamed ∧
      ∃ stamp, service.restampRev env target
        { db := renamed
          files := service.vault.relinkedFiles env (world.db.entitiesLinkingTo source) source target
            (service.vault.movedFile env (source, target) world.files) } = (.ok stamp, after) := by
  obtain ⟨_, moved, first, ran⟩ := Call.bind_ok ran
  obtain ⟨stamp, stamped, second, ran⟩ := Call.bind_ok ran
  obtain rfl : stamped = after := congrArg Prod.snd ran
  cases committed : renameEntities env [(source, target)] world with
  | mk result renamed =>
      cases result with
      | error error =>
          rw [service.pageEverywhere_error env source target world renamed error committed] at first
          simp at first
      | ok done =>
          obtain ⟨db, stored, rfl⟩ := renameEntities_ok env _ world renamed committed
          rw [service.pageEverywhere_ok env source target world _ committed] at first
          obtain rfl : _ = moved := congrArg Prod.snd first
          exact ⟨db, stored, stamp, second⟩

theorem renameOne_ok (fromPath toPath : Text) (result : EditResult) (world after : World)
    (ran : service.renameOne env fromPath toPath world = (.ok result, after)) :
    after = world ∨ ∃ source target rev, service.vault.pageFromAny fromPath = some source ∧
      service.vault.pageFromAny toPath = some target ∧ world.db.entityByPath target = none ∧
      service.movePage env source target world = (.ok rev, after) := by
  cases fromPage : service.vault.pageFromAny fromPath with
  | none => simp [renameOne, vaultToPage, fromPage] at ran
  | some source =>
      cases toPage : service.vault.pageFromAny toPath with
      | none => simp [renameOne, vaultToPage, fromPage, toPage] at ran
      | some target =>
          cases free : world.db.entityByPath target with
          | some occupant =>
              left
              simp only [renameOne, vaultToPage, fromPage, toPage, free, Call.bind_apply,
                Call.fromExcept_apply, Call.get_apply] at ran
              exact (congrArg Prod.snd ran).symm
          | none =>
              right
              simp only [renameOne, vaultToPage, fromPage, toPage, free, Call.bind_apply,
                Call.fromExcept_apply, Call.get_apply] at ran
              obtain ⟨rev, moved, first, ran⟩ := Call.bind_ok ran
              obtain rfl : moved = after := congrArg Prod.snd ran
              exact ⟨source, target, rev, rfl, rfl, free, first⟩

section Page

structure PageMoves (source target : Text) (world : World) : Prop where
  file : ∀ key content, service.vault.names target key →
    service.vault.readPage source world.files = some content →
      service.Agrees (fun _ => False) key content world.db
  links : ∀ row ∈ world.db.entities, row.rev ≠ none → row.path ≠ source →
    ∀ key, service.vault.names row.path key →
      ∀ linker ∈ world.db.entitiesLinkingTo source, service.vault.names linker key →
        ∀ content, (world.files key = some content ∨
            (service.vault.names target key ∧
              service.vault.readPage source world.files = some content)) →
          service.vault.rewritten content source target = content

theorem renamed_source (db renamed : Database) (aborts : Bool) (source target : Text)
    (free : db.entityByPath target = none)
    (stored : db.renameEntities aborts [(source, target)] = some renamed)
    (row : KnowledgeEntity) (present : row ∈ renamed.entities) (away : row.path ≠ target) :
    row.path ≠ source := by
  have unoccupied : ¬db.Occupied source target := by
    rintro ⟨_, _, page⟩
    obtain ⟨row, stored, named⟩ := List.mem_map.mp page
    have other := List.find?_eq_none.mp free row stored
    simp [named] at other
  obtain rfl : _ = renamed := by simpa [Database.renameEntities, unoccupied] using stored
  obtain ⟨old, _, rfl⟩ := List.mem_map.mp present
  by_cases moved : old.path = source
  · simp [repoint, moved] at away
  · simp [repoint, moved]

theorem movePage_stamped (source target rev : Text) (world after : World)
    (free : world.db.entityByPath target = none) (stamped : service.Stamped world)
    (moves : service.PageMoves source target world)
    (ran : service.movePage env source target world = (.ok rev, after)) :
    service.Stamped after := by
  obtain ⟨renamed, stored, stamp, restamped⟩ := service.movePage_ok env source target rev world
    after ran
  have exempt : service.StampedExcept (fun other => other = target)
      { db := renamed
        files := service.vault.relinkedFiles env (world.db.entitiesLinkingTo source) source target
          (service.vault.movedFile env (source, target) world.files) } := by
    refine StampedExcept.change service
      (StampedExcept.mono service stamped fun _ none => none.elim) ?_ ?_
    · intro row present away rev has
      obtain ⟨old, member, same, place⟩ :=
        Database.renameEntities_rows _ _ _ _ stored row present
      exact ⟨old, member, place.resolve_right (by simpa using away), same.trans has⟩
    · intro row present away rev has content read
      obtain ⟨old, member, same, place⟩ :=
        Database.renameEntities_rows _ _ _ _ stored row present
      have still : old.path = row.path := place.resolve_right (by simpa using away)
      have filled : old.rev ≠ none := by simp [same, has]
      have left : old.path ≠ source :=
        still ▸ renamed_source _ _ _ _ _ free stored row present away
      obtain ⟨key, named, bytes⟩ := (service.vault.readPage_eq_some _ _ _).mp read
      have unlinked := service.vault.relinkedFiles_keeps env (world.db.entitiesLinkingTo source)
        source target (service.vault.movedFile env (source, target) world.files) key
        fun linker linked names other held =>
          moves.links old member filled left key (still ▸ named) linker linked names other
            (service.vault.movedFile_origin env (source, target) world.files key other held)
      cases service.vault.movedFile_origin env (source, target) world.files key content
          (unlinked.symm.trans bytes) with
      | inl kept => exact Or.inl ((service.vault.readPage_eq_some _ _ _).mpr ⟨key, named, kept⟩)
      | inr moved =>
          right
          exact moves.file key content moved.1 moved.2 old member not_false (still ▸ named) rev
            (same.trans has)
  have last := service.restampRev_stamped env target _ after stamp exempt restamped
  exact StampedExcept.mono service last fun other both => both.2 both.1

end Page

section Directory

theorem moveFiles_stamped (watched : Text → Prop) (moves : List (Text × Text))
    (world after : World)
    (apart : ∀ move ∈ moves, ∀ path, watched path → path ≠ move.2 → ∀ key,
      service.vault.names path key → ¬service.vault.names move.2 key)
    (targets : ∀ move ∈ moves, watched move.2)
    (rows : ∀ row ∈ world.db.entities, row.rev ≠ none → watched row.path)
    (stamped : service.StampedExcept (fun other => other ∈ moves.map Prod.snd) world)
    (ran : service.moveFiles env moves world = (.ok (), after)) :
    service.Stamped after ∧ ∀ row ∈ after.db.entities, row.rev ≠ none → watched row.path := by
  induction moves generalizing world with
  | nil =>
      obtain rfl : world = after := congrArg Prod.snd ran
      exact ⟨StampedExcept.mono service stamped fun _ none => by simp at none, rows⟩
  | cons move rest ih =>
      obtain ⟨source, target⟩ := move
      obtain ⟨_, moved, first, ran⟩ := Call.bind_ok ran
      obtain ⟨rev, restamped, second, tail⟩ := Call.bind_ok ran
      obtain rfl : { world with files := service.vault.movedFile env (source, target) world.files } = moved := by
        rw [← VaultScope.movePageFile_after]
        exact congrArg Prod.snd first
      have exempt : service.StampedExcept (fun other => other ∈ ((source, target) :: rest).map Prod.snd)
          { world with files := service.vault.movedFile env (source, target) world.files } := by
        refine StampedExcept.change service stamped
          (fun row present _ rev has => ⟨row, present, rfl, has⟩) ?_
        intro row present away rev has content read
        left
        have other : row.path ≠ target := by
          intro same
          exact away (by simp [same])
        obtain ⟨key, named, bytes⟩ := (service.vault.readPage_eq_some _ _ _).mp read
        refine (service.vault.readPage_eq_some _ _ _).mpr ⟨key, named, ?_⟩
        cases service.vault.movedFile_origin env (source, target) world.files key content bytes with
        | inl kept => exact kept
        | inr arrived =>
            exact absurd arrived.1 (apart (source, target) (by simp) row.path
              (rows row present (by simp [has])) other key named)
      have hashed := service.restampRev_stamped env target _ restamped rev exempt second
      refine ih restamped (fun later member => apart later (by simp [member]))
        (fun later member => targets later (by simp [member])) ?_ ?_ tail
      · obtain ⟨_, db, _⟩ := service.restampRev_after env target _ restamped rev second
        intro row present filled
        rw [db] at present
        split at present
        · exact rows row present filled
        · obtain ⟨old, member, rfl⟩ := List.mem_map.mp present
          by_cases here : old.path = target
          · simpa [here] using targets (source, target) (by simp)
          · simp only [here, if_false] at filled ⊢
            exact rows old member filled
      · refine StampedExcept.mono service hashed ?_
        rintro other ⟨some_of, away⟩
        simpa [away] using some_of

def Watched (moves : List (Text × Text)) (db : Database) (path : Text) : Prop :=
  (∃ row ∈ db.entities, row.rev ≠ none ∧ row.path = path) ∨ path ∈ moves.map Prod.snd

structure FilesMove (moves : List (Text × Text)) (world : World) : Prop where
  apart : ∀ move ∈ moves, ∀ path, Watched moves world.db path → path ≠ move.2 → ∀ key,
    service.vault.names path key → ¬service.vault.names move.2 key
  links : ∀ path, Watched moves world.db path → ∀ key, service.vault.names path key →
    ∀ origin content,
      Moves.Carried env.accepts env.removes (moves.filterMap service.vault.keyedMove) origin key →
        world.files origin = some content →
      ∀ move ∈ moves, ∀ link ∈ world.db.links, sequential moves link.toEntityPath = move.2 →
        service.vault.names (sequential moves link.fromEntityPath) key →
          service.vault.rewritten content move.1 move.2 = content

theorem moveDir_stamped (moves : List (Text × Text)) (result : EditResult) (world after : World)
    (stamped : service.Stamped world) (files : service.FilesMove env moves world)
    (ran : service.moveDir env moves world = (.ok result, after)) : service.Stamped after := by
  obtain ⟨_, renamed, committed, ran⟩ := Call.bind_ok ran
  obtain ⟨_, placed, moved, ran⟩ := Call.bind_ok ran
  obtain ⟨_, relinked, linked, ran⟩ := Call.bind_ok ran
  obtain rfl : relinked = after := congrArg Prod.snd ran
  obtain ⟨db, stored, rfl⟩ := renameEntities_ok env moves world renamed committed
  obtain ⟨bytes, links, _⟩ := service.moveFiles_ok env moves _ placed moved
  obtain rfl : _ = relinked := by simpa [relinkMoves_eq] using congrArg Prod.snd linked
  have origin (row : KnowledgeEntity) (present : row ∈ db.entities) :=
    Database.renameEntities_rows _ _ _ _ stored row present
  have exempt : service.StampedExcept (fun other => other ∈ moves.map Prod.snd)
      { world with db } := by
    refine StampedExcept.change service
      (StampedExcept.mono service stamped fun _ none => none.elim) ?_
      fun _ _ _ _ _ _ read => Or.inl read
    intro row present away rev has
    obtain ⟨old, member, same, place⟩ := origin row present
    exact ⟨old, member, place.resolve_right away, same.trans has⟩
  have rows : ∀ row ∈ db.entities, row.rev ≠ none → Watched moves world.db row.path := by
    intro row present filled
    obtain ⟨old, member, same, place⟩ := origin row present
    cases place with
    | inl still => exact Or.inl ⟨old, member, by rwa [same], still⟩
    | inr target => exact Or.inr target
  obtain ⟨settled, watched⟩ := service.moveFiles_stamped env (Watched moves world.db) moves _ placed
    files.apart (fun move member => Or.inr (List.mem_map.mpr ⟨move, member, rfl⟩)) rows exempt moved
  refine StampedExcept.change service settled
    (fun row present _ rev has => ⟨row, present, rfl, has⟩) ?_
  intro row present _ rev has content read
  left
  obtain ⟨key, named, held⟩ := (service.vault.readPage_eq_some _ _ _).mp read
  have kept := service.vault.relinkedAll_keeps env placed.db moves placed.files key ?_
  · exact (service.vault.readPage_eq_some _ _ _).mpr ⟨key, named, kept.symm.trans held⟩
  · intro move member linker linked names other there
    rw [bytes] at there
    obtain ⟨from_, goes, bytes'⟩ := Moves.moveAll_origin env.accepts env.removes _ world.files key
      other there
    rw [Database.entitiesLinkingTo, links, Database.renameEntities_links _ _ _ _ stored] at linked
    obtain ⟨edge, found, rfl⟩ := List.mem_map.mp linked
    obtain ⟨mapped, onto⟩ := List.mem_filter.mp found
    obtain ⟨link, recorded, rfl⟩ := List.mem_map.mp mapped
    exact files.links row.path (watched row present (by simp [has])) key named from_ other goes
      bytes' move member link recorded (by simpa using onto) names

end Directory

section Service

def RenameAgrees (fromPath toPath : Text) (world : World) : Prop :=
  ∀ source target, service.vault.pageFromAny fromPath = some source →
    service.vault.pageFromAny toPath = some target →
      if namesFile fromPath then
        world.db.entityByPath target = none → service.PageMoves source target world
      else service.FilesMove env (dirMoves source target world.db) world

theorem rename_stamped (fromPath toPath : Text) (result : EditResult) (world after : World)
    (stamped : service.Stamped world) (agrees : service.RenameAgrees env fromPath toPath world)
    (ran : service.rename env fromPath toPath world = (.ok result, after)) :
    service.Stamped after := by
  unfold rename at ran
  by_cases reset : env.resetInProgress
  · simp [reset] at ran
  · by_cases page : namesFile fromPath = true
    · simp only [reset, page, Bool.false_eq_true, if_false, if_true] at ran
      cases service.renameOne_ok env fromPath toPath result world after ran with
      | inl same => exact same ▸ stamped
      | inr moved =>
          obtain ⟨source, target, rev, start, stop, free, moved⟩ := moved
          have moves := agrees source target start stop
          rw [if_pos page] at moves
          exact service.movePage_stamped env source target rev world after free stamped (moves free)
            moved
    · simp only [reset, page, Bool.false_eq_true, if_false] at ran
      obtain ⟨source, target, start, stop, _, moved⟩ :=
        service.renameDir_ok env fromPath toPath world after result ran
      have moves := agrees source target start stop
      rw [if_neg page] at moves
      exact service.moveDir_stamped env _ result world after stamped moves moved

inductive SyncOp where
  | edit (op : EditOp)
  | rename (fromPath toPath : Text)
  | writePageAndRev (path file : Text)
  | restampRev (path : Text)
  | rewriteLinks (linkers : List Text) (source target : Text)

def perform : SyncOp → Call Unit
  | .edit op => do
      let _ ← service.applyEdit env op
  | .rename fromPath toPath => do
      let _ ← service.rename env fromPath toPath
  | .writePageAndRev path file => do
      let _ ← service.writePageAndRev env path file
  | .restampRev path => do
      let _ ← service.restampRev env path
  | .rewriteLinks linkers source target => service.vault.rewriteLinks env linkers source target

/-- No file of a page with a revision is written but with the bytes that are hashed for it. -/
def Keeps : SyncOp → World → Prop
  | .edit op, world => service.EditAgrees env op world
  | .rename fromPath toPath, world => service.RenameAgrees env fromPath toPath world
  | .writePageAndRev path file, world => ∀ key, service.vault.names path key →
      service.Agrees (fun other => other = path) key file world.db
  | .restampRev _, _ => True
  | .rewriteLinks linkers source target, world => ∀ row ∈ world.db.entities, row.rev ≠ none →
      ∀ key, service.vault.names row.path key → ∀ linker ∈ linkers, service.vault.names linker key →
        ∀ content, world.files key = some content →
          service.vault.rewritten content source target = content

def step (request : Environment × SyncOp) (world : World) : Option World :=
  match service.perform request.1 request.2 world with
  | (.ok _, after) => some after
  | (.error _, _) => none

theorem step_of_ok (op : SyncOp) (world : World)
    (ran : (service.perform env op world).1 = .ok ()) :
    service.step (env, op) world = some (service.perform env op world).2 := by
  have whole : service.perform env op world = (.ok (), (service.perform env op world).2) :=
    Prod.ext ran rfl
  simp only [step]
  rw [whole]

theorem perform_stamped (op : SyncOp) (world after : World) (stamped : service.Stamped world)
    (keeps : service.Keeps env op world)
    (ran : service.perform env op world = (.ok (), after)) : service.Stamped after := by
  cases op with
  | edit op =>
      obtain ⟨result, edited, first, last⟩ := Call.bind_ok ran
      obtain rfl : edited = after := congrArg Prod.snd last
      exact service.applyEdit_stamped env op result world edited stamped keeps first
  | rename fromPath toPath =>
      obtain ⟨result, renamed, first, last⟩ := Call.bind_ok ran
      obtain rfl : renamed = after := congrArg Prod.snd last
      exact service.rename_stamped env fromPath toPath result world renamed stamped keeps first
  | writePageAndRev path file =>
      obtain ⟨rev, written, first, last⟩ := Call.bind_ok ran
      obtain rfl : written = after := congrArg Prod.snd last
      exact service.writePageAndRev_stamped env path file rev world written stamped keeps first
  | restampRev path =>
      obtain ⟨rev, restamped, first, last⟩ := Call.bind_ok ran
      obtain rfl : restamped = after := congrArg Prod.snd last
      have hashed := service.restampRev_stamped env path world restamped rev stamped first
      exact StampedExcept.mono service hashed fun _ both => both.1
  | rewriteLinks linkers source target =>
      obtain rfl : _ = after := by
        simpa [perform, VaultScope.rewriteLinks_eq] using congrArg Prod.snd ran
      refine StampedExcept.change service stamped
        (fun row present _ rev has => ⟨row, present, rfl, has⟩) ?_
      intro row present _ rev has content read
      left
      obtain ⟨key, named, bytes⟩ := (service.vault.readPage_eq_some _ _ _).mp read
      have kept := service.vault.relinkedFiles_keeps env linkers source target world.files key
        (keeps row present (by simp [has]) key named)
      exact (service.vault.readPage_eq_some _ _ _).mpr ⟨key, named, kept.symm.trans bytes⟩

end Service

end PkmSyncService

/--
Through every run whose steps write no file of a page with a revision but with the bytes that they
hash for it, the revision of each page is that of its file, and of what is served for it.
-/
theorem revisionsAgree_run (service : PkmSyncService)
    (requests : List (Environment × PkmSyncService.SyncOp)) (world last : World)
    (stamped : service.Stamped world)
    (guarded : Machine.Guarded service.step (fun request => service.Keeps request.1 request.2)
      requests world)
    (reached : Machine.run service.step requests world = some last) :
    service.RevisionsAgree last := by
  apply PkmSyncService.Stamped.agrees
  refine Machine.invariant_run service.step _ service.Stamped ?_ requests world last stamped
    guarded reached
  intro request world next stamped keeps taken
  obtain ⟨env, op⟩ := request
  cases ran : service.perform env op world with
  | mk result after =>
      cases result with
      | error error => simp [PkmSyncService.step, ran] at taken
      | ok _ =>
          obtain rfl : after = next := by simpa [PkmSyncService.step, ran] using taken
          exact service.perform_stamped env op world after stamped keeps ran

example : (plainService.step (plainEnvironment, .restampRev pageX) linkedPages).any (fun next =>
    (next.db.entityByPath pageX).bind (·.rev) =
      (memoryVault.readPage pageX next.files).map plainService.sha256Hex) = true := by
  decide +kernel

section Runs

open PkmSyncService (SyncOp)

theorem linkedPages_stamped : plainService.Stamped linkedPages := by
  intro row stored _ rev has content read
  have rows : linkedPages.db.entities = [storedPage 0 pageX linkToY, storedPage 1 pageY []] := rfl
  rw [rows, List.mem_pair] at stored
  cases stored with
  | inl first =>
      subst first
      have bytes : memoryVault.readPage pageX linkedPages.files = some linkToY := by decide
      obtain rfl : linkToY = content := Option.some.inj (bytes.symm.trans read)
      exact (Option.some.inj has).symm
  | inr second =>
      subst second
      have bytes : memoryVault.readPage pageY linkedPages.files = some [] := by decide
      obtain rfl : [] = content := Option.some.inj (bytes.symm.trans read)
      exact (Option.some.inj has).symm

def newPage : SyncOp := .edit (.upsert "Memory/c.md".toList none "New".toList)

def moveX : SyncOp := .rename "Memory/a/x.md".toList "Memory/b/x.md".toList

def moveY : SyncOp := .rename "Memory/a/y.md".toList "Memory/a/z.md".toList

def linkToZ : Text := "See [[Memory/a/z]].".toList

def pageC : Text := "c".toList

def afterNew : World := (plainService.perform plainEnvironment newPage linkedPages).2

theorem newPage_step : plainService.step (plainEnvironment, newPage) linkedPages = some afterNew :=
  plainService.step_of_ok plainEnvironment newPage linkedPages (by decide)

def keyC : FileKey := ["Memory".toList, "c.md".toList]

def keyBX : FileKey := ["Memory".toList, "b".toList, "x.md".toList]

theorem agrees_unnamed (exempt : Text → Prop) (path content : Text) (key key' : FileKey)
    (db : Database) (named : memoryVault.names path key) (named' : memoryVault.names path key')
    (unnamed : ∀ row ∈ db.entities, ¬memoryVault.names row.path key) :
    plainService.Agrees exempt key' content db := by
  intro row stored _ other
  obtain rfl : key = key' := by simpa using named.symm.trans named'
  exact absurd other (unnamed row stored)

theorem newPage_keeps : plainService.Keeps plainEnvironment newPage linkedPages := by
  have start : plainService.vault.pageFromAny "Memory/c.md".toList = some pageC := by decide
  unfold PkmSyncService.Keeps PkmSyncService.EditAgrees newPage
  simp only [EditOp.path, start]
  intro _ key named
  exact agrees_unnamed _ pageC _ keyC key _ (by decide) named (by decide)

theorem moveX_keeps : plainService.Keeps plainEnvironment moveX afterNew := by
  intro source target start stop
  obtain rfl : pageX = source := Option.some.inj
    ((show memoryVault.pageFromAny "Memory/a/x.md".toList = some pageX by decide).symm.trans start)
  obtain rfl : movedX = target := Option.some.inj
    ((show memoryVault.pageFromAny "Memory/b/x.md".toList = some movedX by decide).symm.trans stop)
  rw [if_pos (by decide)]
  intro _
  constructor
  · intro key content named _
    exact agrees_unnamed _ movedX _ keyBX key _ (by decide) named (by decide)
  · intro row _ _ _ key _ linker linked
    have none : afterNew.db.entitiesLinkingTo pageX = [] := by decide
    simp [none] at linked

theorem newPage_moveX_agrees :
    plainService.RevisionsAgree (plainService.perform plainEnvironment moveX afterNew).2 := by
  have second : plainService.step (plainEnvironment, moveX) afterNew =
      some (plainService.perform plainEnvironment moveX afterNew).2 :=
    plainService.step_of_ok plainEnvironment moveX afterNew (by decide)
  apply revisionsAgree_run plainService [(plainEnvironment, newPage), (plainEnvironment, moveX)]
    linkedPages _ linkedPages_stamped
  · refine ⟨newPage_keeps, ?_⟩
    rw [newPage_step]
    refine ⟨moveX_keeps, ?_⟩
    rw [second]
    trivial
  · simp only [Machine.run, newPage_step, second]

theorem moveY_unstamped :
    ¬∀ (service : PkmSyncService) (requests : List (Environment × SyncOp)) (world last : World),
        Function.Injective service.sha256Hex → service.Stamped world →
        Machine.run service.step requests world = some last → service.RevisionsAgree last := by
  intro claimed
  have reached : Machine.run plainService.step [(plainEnvironment, moveY)] linkedPages =
      some (plainService.perform plainEnvironment moveY linkedPages).2 := by
    rw [Machine.run, plainService.step_of_ok plainEnvironment moveY linkedPages (by decide)]
    rfl
  have agrees := claimed plainService _ linkedPages _ (fun _ _ same => same) linkedPages_stamped reached
  have stored : storedPage 0 pageX linkToY ∈
      (plainService.perform plainEnvironment moveY linkedPages).2.db.entities := by
    decide
  have read : memoryVault.readPage pageX
      (plainService.perform plainEnvironment moveY linkedPages).2.files = some linkToZ := by
    decide
  have stale : linkToY = linkToZ := agrees.rows _ stored rfl linkToY rfl linkToZ read
  exact absurd stale (by decide)

end Runs

end Frona.Pkm
