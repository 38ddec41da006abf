import Frona.Pkm.RenameSound
import Frona.Reconcile.TrialRuns

set_option autoImplicit false

namespace Frona.Reconcile

open Utf8 (Text)
open Pkm (AppError Call Database FileKey Files PkmSyncService World)

structure Recorded where
  path : Text
  entity : Option WorkingEntity
  promotions : List ReconcilePromotion
  retractions : List (Text × Text)
  commit : ReconcileCommit
  proposals : ProposalSet WorkingEntity
  deriving DecidableEq

structure StepEnvironment extends Pkm.Environment where
  redirected : WorkingEntity → Bool
  projectionErrors : ProposalSet WorkingEntity → Option Text
  commits : Recorded → Bool

section Step

variable (service : PkmSyncService) (env : StepEnvironment) (pass : Pass) (state : EntityState)

def moveTarget (path : Text) : List Move → Option Text
  | [] => none
  | move :: _ =>
      match pass.normalizePath move.source, pass.normalizePath move.target with
      | some source, some target =>
          if source = path ∧ target ≠ source ∧ pass.entityByPath target = none then some target
          else none
      | _, _ => none

def askedMove (answer : Option EntityVerdict) : Option Text :=
  if state.current = [] then none
  else match answer with
  | none => none
  | some parsed =>
      if (stageVerdict pass state parsed).reconcileDirty then none
      else moveTarget pass state.path parsed.moves

-- A rename that fails is logged, and the step goes on.
def applyMove (path : Text) : Option Text → Call Unit
  | none => pure ()
  | some target => Call.attempt (service.pageEverywhere env.toEnvironment path target)

def recordOutcome (path : Text) (outcome : EntityOutcome) (proposals : ProposalSet WorkingEntity) : Recorded where
  path := path
  entity := outcome.pageUpdate.bind fun update =>
    (applyUpdate pass path (some update) proposals).inputEntity path
  promotions := outcome.promotions
  retractions := outcome.retractions
  commit := outcome.commit
  proposals := stageOutcome pass path outcome proposals

def invalidProjection (details : Text) : Text :=
  "reconcile invariant: staged A-box/T-box projection is invalid: ".toList ++ details

def settle (recorded : Recorded) : Except AppError Recorded :=
  if recorded.entity.any env.redirected then .error .database
  else match env.projectionErrors recorded.proposals with
  | some details => .error (.internal (invalidProjection details))
  | none => if env.commits recorded then .ok recorded else .error .database

def recordedFor (answer : Option EntityVerdict) : Recorded :=
  recordOutcome pass state.path (reconcileEntity pass state answer) state.proposals

/-- What `run` does for one entity of the worklist. -/
def processEntity (answer : Option EntityVerdict) : Call Recorded := do
  applyMove service env state.path (askedMove pass state answer)
  Call.fromExcept (settle env (recordedFor pass state answer))

end Step

section Atomic

variable (service : PkmSyncService) (env : StepEnvironment) (pass : Pass) (state : EntityState)
  (answer : Option EntityVerdict) (world : World)

structure Untouched (before after : World) : Prop where
  rows : after.db.entities = before.db.entities
  links : after.db.links = before.db.links
  files : after.files = before.files

def AtRecordedPath (path : Text) (before after : Database) (recorded : Recorded) : Prop :=
  ∀ row ∈ before.entities, row.path = path →
    ∃ now ∈ after.entities, now.id = row.id ∧ now.path = recorded.path

def Atomic : Prop :=
  match processEntity service env pass state answer world with
  | (.error _, after) => Untouched world after
  | (.ok recorded, after) => AtRecordedPath state.path world.db after.db recorded

def Renames (source target : Text) : Prop :=
  env.refuses .renameEntities = false ∧
    ¬(world.db.Occupied source target ∧ env.uniqueAborts = true)

instance (source target : Text) : Decidable (Renames env world source target) :=
  inferInstanceAs (Decidable (_ ∧ _))

def RowStays (source target : Text) : Prop := source ∈ world.db.paths → target ∈ world.db.paths

def Unlinked (path : Text) : Prop :=
  ∀ link ∈ world.db.links, link.fromEntityPath ≠ path ∧ link.toEntityPath ≠ path

-- There is no file to move, or the disk refuses the new one, or it has these bytes already and the
-- old one is not deleted.
def FileStays (source target : Text) : Prop :=
  ∀ keys, service.vault.keyedMove (source, target) = some keys →
    world.files keys.1 = none ∨ env.accepts keys.2 = false ∨
      env.removes keys.1 = false ∧ world.files keys.2 = world.files keys.1

def Fails (recorded : Recorded) : Prop :=
  recorded.entity.any env.redirected = true ∨
    (env.projectionErrors recorded.proposals).isSome = true ∨ env.commits recorded = false

/-- A move that is carried out moves no row, and nothing at all when a later check fails. -/
def Harmless : Prop :=
  ∀ target, askedMove pass state answer = some target → Renames env world state.path target →
    RowStays world state.path target ∧
      (Fails env (recordedFor pass state answer) →
        Unlinked world state.path ∧ FileStays service env world state.path target)

end Atomic

section Rename

variable (service : PkmSyncService) (env : StepEnvironment) (world : World) (source target : Text)

def renamedTables : Database :=
  if world.db.Occupied source target then world.db.repointEdges source target
  else (world.db.repointEdges source target).moveRow source target

theorem renameEntities_one :
    Pkm.renameEntities env.toEnvironment [(source, target)] world =
      if Renames env world source target then
        (.ok (), { world with db := renamedTables world source target })
      else (.error .database, world) := by
  cases refused : env.refuses .renameEntities with
  | true => simp [Pkm.renameEntities, Renames, refused]
  | false =>
      by_cases occupied : world.db.Occupied source target
      · cases aborts : env.uniqueAborts <;>
          simp [Pkm.renameEntities, Renames, refused, occupied, aborts, Database.renameEntities,
            renamedTables]
      · simp [Pkm.renameEntities, Renames, refused, occupied, Database.renameEntities, renamedTables]

variable (away : target ≠ source)

include away

theorem renamedTables_rows :
    (renamedTables world source target).entities = world.db.entities ↔
      RowStays world source target := by
  by_cases occupied : world.db.Occupied source target
  · have kept : (renamedTables world source target).entities = world.db.entities := by
      simp [renamedTables, occupied, Database.repointEdges]
    exact iff_of_true kept fun _ => occupied.2.2
  · have moved : (renamedTables world source target).entities = world.db.entities.map fun row =>
        { row with path := Pkm.repoint source target row.path } := by
      simp [renamedTables, occupied, Database.repointEdges, Database.moveRow]
    rw [moved]
    constructor
    · intro same page
      exfalso
      obtain ⟨row, member, here⟩ := List.mem_map.mp page
      rw [← same] at member
      obtain ⟨old, _, rfl⟩ := List.mem_map.mp member
      -- No row stands at the source once all of them are repointed.
      simp only [Pkm.repoint] at here
      split at here
      next => exact away here
      next elsewhere => exact elsewhere here
    · intro stays
      have absent : source ∉ world.db.paths := fun page =>
        occupied ⟨away.symm, page, stays page⟩
      have fixed : ∀ row ∈ world.db.entities,
          { row with path := Pkm.repoint source target row.path } = row := by
        intro row member
        have elsewhere : row.path ≠ source := fun here =>
          absent (List.mem_map.mpr ⟨row, member, here⟩)
        simp [Pkm.repoint, elsewhere]
      simpa using List.map_congr_left fixed

theorem renamedTables_links :
    (renamedTables world source target).links = world.db.links ↔ Unlinked world source := by
  have moved : (renamedTables world source target).links = world.db.links.map fun link =>
      { link with
        fromEntityPath := Pkm.repoint source target link.fromEntityPath
        toEntityPath := Pkm.repoint source target link.toEntityPath } := by
    rw [renamedTables]
    split <;> rfl
  rw [moved]
  constructor
  · intro same link member
    rw [← same] at member
    obtain ⟨old, _, rfl⟩ := List.mem_map.mp member
    simp only [Pkm.repoint]
    constructor <;> split <;> simp_all
  · intro unlinked
    have fixed : ∀ link ∈ world.db.links,
        { link with
          fromEntityPath := Pkm.repoint source target link.fromEntityPath
          toEntityPath := Pkm.repoint source target link.toEntityPath } = link := by
      intro link member
      simp [Pkm.repoint, unlinked link member]
    simpa using List.map_congr_left fixed

theorem renamedTables_recorded (recorded : Recorded) (here : recorded.path = source) :
    AtRecordedPath source world.db (renamedTables world source target) recorded ↔
      RowStays world source target := by
  rw [← renamedTables_rows world source target away]
  constructor
  · intro placed
    by_contra moved
    rw [renamedTables_rows world source target away, RowStays, Classical.not_imp] at moved
    obtain ⟨page, free⟩ := moved
    obtain ⟨row, member, stands⟩ := List.mem_map.mp page
    obtain ⟨now, present, _, there⟩ := placed row member stands
    have unoccupied : ¬world.db.Occupied source target := fun occupied => free occupied.2.2
    simp only [renamedTables, unoccupied, if_false, Database.moveRow, Database.repointEdges] at present
    obtain ⟨old, _, rfl⟩ := List.mem_map.mp present
    simp only [Pkm.repoint, here] at there
    split at there
    next => exact away there
    next elsewhere => exact elsewhere there
  · intro same row member stands
    exact ⟨row, same ▸ member, rfl, stands.trans here.symm⟩

omit away in
theorem movedFile_eq_self :
    service.vault.movedFile env.toEnvironment (source, target) world.files = world.files ↔
      FileStays service env world source target := by
  cases keyed : service.vault.keyedMove (source, target) with
  | none => simp [Pkm.VaultScope.movedFile, FileStays, keyed]
  | some keys => simp [Pkm.VaultScope.movedFile, FileStays, keyed, Moves.moveOne_eq_self]

theorem renamed_untouched :
    Untouched world
        { db := renamedTables world source target
          files := service.vault.relinkedFiles env.toEnvironment
            (world.db.entitiesLinkingTo source) source target
            (service.vault.movedFile env.toEnvironment (source, target) world.files) } ↔
      RowStays world source target ∧ Unlinked world source ∧
        FileStays service env world source target := by
  have relinked (unlinked : Unlinked world source) : service.vault.relinkedFiles env.toEnvironment
      (world.db.entitiesLinkingTo source) source target
        (service.vault.movedFile env.toEnvironment (source, target) world.files) =
      service.vault.movedFile env.toEnvironment (source, target) world.files := by
    have linkers : world.db.entitiesLinkingTo source = [] := by
      simp only [Database.entitiesLinkingTo, List.map_eq_nil_iff, List.filter_eq_nil_iff,
        decide_eq_true_eq]
      exact fun link member => (unlinked link member).2
    rw [linkers, Pkm.VaultScope.relinkedFiles, List.foldl_nil]
  constructor
  · intro same
    have unlinked := (renamedTables_links world source target away).mp same.links
    have files := (relinked unlinked).symm.trans same.files
    rw [movedFile_eq_self] at files
    exact ⟨(renamedTables_rows world source target away).mp same.rows, unlinked, files⟩
  · intro stays
    obtain ⟨row, unlinked, file⟩ := stays
    have files := (movedFile_eq_self service env world source target).mpr file
    exact ⟨(renamedTables_rows world source target away).mpr row,
      (renamedTables_links world source target away).mpr unlinked,
      (relinked unlinked).trans files⟩

end Rename

section Settle

variable (env : StepEnvironment) (recorded : Recorded)

theorem settle_cases :
    (Fails env recorded ∧ ∃ error, settle env recorded = .error error) ∨
      (¬Fails env recorded ∧ settle env recorded = .ok recorded) := by
  by_cases redirected : recorded.entity.any env.redirected = true
  · exact Or.inl ⟨Or.inl redirected, .database, by rw [settle, if_pos redirected]⟩
  · cases rejected : env.projectionErrors recorded.proposals with
    | some details =>
        refine Or.inl ⟨Or.inr (Or.inl (by simp [rejected])), .internal (invalidProjection details), ?_⟩
        simp [settle, redirected, rejected]
    | none =>
        cases committed : env.commits recorded with
        | false =>
            refine Or.inl ⟨Or.inr (Or.inr committed), .database, ?_⟩
            simp [settle, redirected, rejected, committed]
        | true =>
            refine Or.inr ⟨by simp [Fails, redirected, rejected, committed], ?_⟩
            simp [settle, redirected, rejected, committed]

end Settle

section Whole

variable (service : PkmSyncService) (env : StepEnvironment) (pass : Pass) (state : EntityState)
  (answer : Option EntityVerdict) (world : World)

theorem processEntity_eq :
    processEntity service env pass state answer world =
      (settle env (recordedFor pass state answer),
        (applyMove service env state.path (askedMove pass state answer) world).2) := by
  cases asked : askedMove pass state answer with
  | none => simp [processEntity, applyMove, asked]
  | some target => simp [processEntity, applyMove, asked]

theorem atomic_error (error : AppError)
    (failed : (processEntity service env pass state answer world).1 = .error error) :
    Atomic service env pass state answer world ↔
      Untouched world (processEntity service env pass state answer world).2 := by
  cases ran : processEntity service env pass state answer world with
  | mk result after =>
      obtain rfl : result = .error error := by simpa [ran] using failed
      simp [Atomic, ran]

theorem atomic_ok (recorded : Recorded)
    (settled : (processEntity service env pass state answer world).1 = .ok recorded) :
    Atomic service env pass state answer world ↔
      AtRecordedPath state.path world.db (processEntity service env pass state answer world).2.db
        recorded := by
  cases ran : processEntity service env pass state answer world with
  | mk result after =>
      obtain rfl : result = .ok recorded := by simpa [ran] using settled
      simp [Atomic, ran]

theorem moveTarget_away (path target : Text) (moves : List Move)
    (asked : moveTarget pass path moves = some target) : target ≠ path := by
  unfold moveTarget at asked
  split at asked
  · simp at asked
  · split at asked
    next source target' _ _ =>
      split at asked
      next goes =>
        obtain rfl : target' = target := by simpa using asked
        exact goes.1 ▸ goes.2.1
      next => simp at asked
    next => simp at asked

theorem askedMove_away (target : Text) (asked : askedMove pass state answer = some target) :
    target ≠ state.path := by
  unfold askedMove at asked
  split at asked
  · simp at asked
  · cases answer with
    | none => simp at asked
    | some parsed =>
        simp only at asked
        split at asked
        · simp at asked
        · exact moveTarget_away pass state.path target parsed.moves asked

theorem atomic_of_unmoved
    (still : (applyMove service env state.path (askedMove pass state answer) world).2 = world) :
    Atomic service env pass state answer world := by
  rw [Atomic, processEntity_eq, still]
  cases settle_cases env (recordedFor pass state answer) with
  | inl failed =>
      obtain ⟨_, error, failed⟩ := failed
      rw [failed]
      exact ⟨rfl, rfl, rfl⟩
  | inr settled =>
      rw [settled.2]
      intro row member here
      exact ⟨row, member, rfl, here⟩

/-- A step is atomic exactly when the move that it makes, if any, is harmless. -/
theorem atomic_iff_harmless : Atomic service env pass state answer world ↔
    Harmless service env pass state answer world := by
  cases asked : askedMove pass state answer with
  | none =>
      have still : (applyMove service env state.path (askedMove pass state answer) world).2 = world := by
        simp [asked, applyMove]
      exact iff_of_true (atomic_of_unmoved service env pass state answer world still)
        (by simp [Harmless, asked])
  | some target =>
      have away := askedMove_away pass state answer target asked
      have committed := renameEntities_one env world state.path target
      by_cases renames : Renames env world state.path target
      · rw [if_pos renames] at committed
        have moved := service.pageEverywhere_ok env.toEnvironment state.path target world _ committed
        have harmless : Harmless service env pass state answer world ↔
            RowStays world state.path target ∧ (Fails env (recordedFor pass state answer) →
              Unlinked world state.path ∧ FileStays service env world state.path target) := by
          constructor
          · exact fun safe => safe target asked renames
          · intro safe other same _
            obtain rfl : target = other := by simpa [asked] using same
            exact safe
        rw [harmless, Atomic, processEntity_eq, asked, applyMove, Call.attempt_apply, moved]
        cases settle_cases env (recordedFor pass state answer) with
        | inl failed =>
            obtain ⟨fails, error, failed⟩ := failed
            rw [failed]
            have kept := renamed_untouched service env world state.path target away
            simpa [fails] using kept
        | inr settled =>
            obtain ⟨passes, settled⟩ := settled
            rw [settled]
            have placed := renamedTables_recorded world state.path target away
              (recordedFor pass state answer) rfl
            simpa [passes] using placed
      · rw [if_neg renames] at committed
        have kept := service.pageEverywhere_error env.toEnvironment state.path target world _ _ committed
        have still :
            (applyMove service env state.path (askedMove pass state answer) world).2 = world := by
          rw [asked, applyMove, Call.attempt_apply, kept]
        refine iff_of_true (atomic_of_unmoved service env pass state answer world still) ?_
        intro other same goes
        obtain rfl : target = other := by simpa [asked] using same
        exact absurd goes renames

end Whole

section Moved

open Pkm (linkedPages movedX pageX pageY plainEnvironment plainService)

def committing (commits : Bool) : StepEnvironment where
  toEnvironment := plainEnvironment
  redirected := fun _ => false
  projectionErrors := fun _ => none
  commits := fun _ => commits

def placed : EntityState where
  path := pageX
  entity := ⟨pageX, pageX, [], [], .object ∅, [], []⟩
  links := []
  allMemories := [told ['1'] .none]
  memoryEntities := fun _ => some [pageX]
  proposals := ⟨∅, ∅, ∅, [], ∅, ∅, []⟩

def moving : EntityVerdict where
  relations := []
  entityRelations := []
  relationRetractions := []
  outdated := []
  attributes := .object ∅
  attributeSources := []
  name := pageX
  description := []
  moves := [⟨pageX, movedX⟩]
  declarations := []

theorem moved_before_commit :
    passesValidation plainPass openGate placed moving = true ∧
      (processEntity plainService (committing false) plainPass placed (some moving) linkedPages).1 =
        .error .database ∧
      (processEntity plainService (committing false) plainPass placed (some moving)
        linkedPages).2.db.paths = [movedX, pageY] ∧
      ¬Atomic plainService (committing false) plainPass placed (some moving) linkedPages ∧
      (processEntity plainService (committing true) plainPass placed (some moving) linkedPages).1 =
        .ok (recordedFor plainPass placed (some moving)) ∧
      (recordedFor plainPass placed (some moving)).path = pageX ∧
      ¬Atomic plainService (committing true) plainPass placed (some moving) linkedPages := by
  have refused : (processEntity plainService (committing false) plainPass placed (some moving)
      linkedPages).1 = .error .database := by
    decide
  have settled : (processEntity plainService (committing true) plainPass placed (some moving)
      linkedPages).1 = .ok (recordedFor plainPass placed (some moving)) := by
    rw [processEntity_eq]
    rfl
  have gone (commits : Bool) : (processEntity plainService (committing commits) plainPass placed
      (some moving) linkedPages).2.db.paths = [movedX, pageY] := by
    cases commits <;> decide
  refine ⟨by decide, refused, gone false, ?_, settled, rfl, ?_⟩
  · rw [atomic_error _ _ _ _ _ _ _ refused]
    intro same
    have paths := (congrArg (List.map Pkm.KnowledgeEntity.path) same.rows).symm.trans (gone false)
    exact absurd paths (by decide)
  · rw [atomic_ok _ _ _ _ _ _ _ settled]
    intro stands
    obtain ⟨now, present, _, here⟩ := stands _ (List.mem_cons_self ..) rfl
    have member : now.path ∈ [movedX, pageY] := gone true ▸ List.mem_map.mpr ⟨now, present, rfl⟩
    rw [here] at member
    exact absurd member (by decide)

end Moved

end Frona.Reconcile
