import Frona.Pkm.RenameDir

set_option autoImplicit false

namespace Frona.Pkm

open Utf8 (Text stripPrefix stripPrefix_eq_some)
open Moves (sequential simultaneous Ordered)

section DirMoves

variable (source target : Text) (db : Database)

theorem mem_dirMoves (old new : Text) :
    (old, new) ∈ PkmSyncService.dirMoves source target db ↔
      old ∈ db.paths ∧ ∃ rest, old = source ++ '/' :: rest ∧ new = target ++ '/' :: rest := by
  simp only [PkmSyncService.dirMoves, List.mem_filterMap, Option.map_eq_some_iff,
    stripPrefix_eq_some, Prod.mk.injEq]
  constructor
  · rintro ⟨path, member, rest, same, rfl, rfl⟩
    exact ⟨member, rest, by simpa using same, rfl⟩
  · rintro ⟨member, rest, same, rfl⟩
    exact ⟨old, member, rest, by simpa using same, rfl, rfl⟩

theorem dirMoves_self (same : source = target) (move : Text × Text)
    (member : move ∈ PkmSyncService.dirMoves source target db) : move.1 = move.2 := by
  obtain ⟨_, rest, old, new⟩ := (mem_dirMoves source target db move.1 move.2).mp member
  rw [old, new, same]

theorem dirMoves_away (away : source ≠ target) (move : Text × Text)
    (member : move ∈ PkmSyncService.dirMoves source target db) : move.1 ≠ move.2 := by
  obtain ⟨_, rest, old, new⟩ := (mem_dirMoves source target db move.1 move.2).mp member
  rw [old, new]
  intro same
  exact away (List.append_cancel_right same)

theorem dirMoves_fst :
    (PkmSyncService.dirMoves source target db).map Prod.fst =
      db.paths.filter fun path => (stripPrefix (source ++ ['/']) path).isSome := by
  unfold PkmSyncService.dirMoves
  induction db.paths with
  | nil => rfl
  | cons path paths ih =>
      cases found : stripPrefix (source ++ ['/']) path <;> simp [found, ih]

theorem dirMoves_sources (unique : db.paths.Nodup) :
    ((PkmSyncService.dirMoves source target db).map Prod.fst).Nodup := by
  rw [dirMoves_fst]
  exact unique.filter _

theorem dirMoves_targets (unique : db.paths.Nodup) :
    ((PkmSyncService.dirMoves source target db).map Prod.snd).Nodup := by
  have sources := dirMoves_sources source target db unique
  rw [List.nodup_map_iff_inj_on (List.Nodup.of_map _ sources)]
  rintro ⟨old, new⟩ member ⟨old', new'⟩ member' same
  obtain ⟨_, rest, rfl, rfl⟩ := (mem_dirMoves source target db _ _).mp member
  obtain ⟨_, rest', rfl, rfl⟩ := (mem_dirMoves source target db _ _).mp member'
  obtain rfl : rest = rest' := by simpa using same
  rfl

theorem target_moves (free : PkmSyncService.occupiedTarget
      (PkmSyncService.dirMoves source target db) db = none)
    (old new : Text) (member : (old, new) ∈ PkmSyncService.dirMoves source target db)
    (page : new ∈ db.paths) : new ∈ (PkmSyncService.dirMoves source target db).map Prod.fst := by
  by_contra unmoved
  have found := List.find?_eq_none.mp free new (List.mem_map.mpr ⟨_, member, rfl⟩)
  obtain ⟨row, stored, rfl⟩ := List.mem_map.mp page
  have occupied : (db.entityByPath row.path).isSome = true := by
    simp only [Database.entityByPath, List.find?_isSome]
    exact ⟨row, stored, by simp⟩
  simp [unmoved, occupied] at found

end DirMoves

namespace Database

def mapLinks (db : Database) (f : Text → Text) : List KnowledgeEntityLink :=
  db.links.map fun link =>
    { link with fromEntityPath := f link.fromEntityPath, toEntityPath := f link.toEntityPath }

def mapPlaces (db : Database) (f : Text → Text) : List (Nat × Text) :=
  db.places.map fun place => (place.1, f place.2)

theorem places_repointEdges (db : Database) (source target : Text) :
    (db.repointEdges source target).places = db.places := rfl

theorem places_moveRow (db : Database) (source target : Text) :
    (db.moveRow source target).places = db.mapPlaces (repoint source target) := by
  simp [places, mapPlaces, moveRow, KnowledgeEntity.place, Function.comp_def]

theorem links_repointEdges (db : Database) (source target : Text) :
    (db.repointEdges source target).links = db.mapLinks (repoint source target) := rfl

theorem renameEntities_links (db renamed : Database) (aborts : Bool) (moves : List (Text × Text))
    (stored : db.renameEntities aborts moves = some renamed) :
    renamed.links = db.mapLinks (sequential moves) := by
  induction moves generalizing db with
  | nil =>
      obtain rfl : db = renamed := by simpa [renameEntities] using stored
      simp [mapLinks, sequential]
  | cons move rest ih =>
      obtain ⟨source, target⟩ := move
      have step : renamed.links = ((db.repointEdges source target).mapLinks (sequential rest)) := by
        simp only [renameEntities] at stored
        split at stored
        · split at stored
          · simp at stored
          · exact ih _ stored
        · have tail := ih _ stored
          exact tail
      rw [step, mapLinks, links_repointEdges, mapLinks, mapLinks, List.map_map]
      rfl

theorem renameEntities_places (db renamed : Database) (aborts : Bool) (moves : List (Text × Text))
    (ordered : Ordered moves) (targets : (moves.map Prod.snd).Nodup)
    (free : ∀ move ∈ moves, move.2 ∈ db.paths → move.2 ∈ moves.map Prod.fst)
    (stored : db.renameEntities aborts moves = some renamed) :
    renamed.places = db.mapPlaces (sequential moves) := by
  induction moves generalizing db with
  | nil =>
      obtain rfl : db = renamed := by simpa [renameEntities] using stored
      simp [mapPlaces, sequential]
  | cons move rest ih =>
      obtain ⟨source, target⟩ := move
      obtain ⟨later, tail⟩ := List.pairwise_cons.mp ordered
      simp only [List.map_cons, List.nodup_cons] at targets
      have unoccupied : ¬db.Occupied source target := by
        rintro ⟨away, _, page⟩
        cases List.mem_map.mp (free (source, target) (by simp) page) with
        | intro other found =>
            cases List.mem_cons.mp found.1 with
            | inl here => exact away ((congrArg Prod.fst here).symm.trans found.2)
            | inr deeper => exact later other deeper found.2.symm
      simp only [renameEntities, unoccupied, if_false] at stored
      have paths : ((db.repointEdges source target).moveRow source target).paths =
          db.paths.map (repoint source target) := by
        rw [← places_snd, places_moveRow, mapPlaces, places_repointEdges, ← places_snd,
          List.map_map, List.map_map]
        rfl
      have next := ih _ tail targets.2 ?_ stored
      · rw [next, mapPlaces, places_moveRow, mapPlaces, mapPlaces, places_repointEdges,
          List.map_map]
        rfl
      · intro later' member page
        rw [paths] at page
        obtain ⟨path, present, same⟩ := List.mem_map.mp page
        by_cases here : path = source
        · -- The row that has just moved stands at its own target only.
          have : later'.2 = target := by rw [← same, repoint, if_pos here]
          exact absurd (List.mem_map.mpr ⟨later', member, this⟩) targets.1
        · have still : later'.2 = path := by rw [← same, repoint, if_neg here]
          have source' := free later' (by simp [member]) (still ▸ present)
          cases List.mem_cons.mp source' with
          | inl first => exact absurd (still ▸ first) here
          | inr deeper => exact deeper

theorem renameEntities_append (db : Database) (aborts : Bool) (before after : List (Text × Text)) :
    db.renameEntities aborts (before ++ after) =
      (db.renameEntities aborts before).bind fun between => between.renameEntities aborts after := by
  induction before generalizing db with
  | nil => rfl
  | cons move rest ih =>
      obtain ⟨source, target⟩ := move
      simp only [List.cons_append, renameEntities]
      split
      · split
        · rfl
        · exact ih _
      · exact ih _

theorem renameEntities_stays (db renamed : Database) (aborts : Bool) (moves : List (Text × Text))
    (id : Nat) (path : Text) (unmoved : ∀ move ∈ moves, move.1 ≠ path)
    (stored : db.renameEntities aborts moves = some renamed) (member : (id, path) ∈ db.places) :
    (id, path) ∈ renamed.places := by
  induction moves generalizing db with
  | nil =>
      obtain rfl : db = renamed := by simpa [renameEntities] using stored
      exact member
  | cons move rest ih =>
      obtain ⟨source, target⟩ := move
      have tail := fun later (found : later ∈ rest) => unmoved later (by simp [found])
      simp only [renameEntities] at stored
      split at stored
      · split at stored
        · simp at stored
        · exact ih _ tail stored member
      · refine ih _ tail stored ?_
        rw [places_moveRow, mapPlaces, places_repointEdges]
        have other : path ≠ source := (unmoved (source, target) (by simp)).symm
        exact List.mem_map.mpr ⟨_, member, by simp [repoint, other]⟩

theorem ordered_of_places (db renamed : Database) (aborts : Bool) (moves : List (Text × Text))
    (ids : (db.places.map Prod.fst).Nodup) (sources : (moves.map Prod.fst).Nodup)
    (pages : ∀ move ∈ moves, move.1 ∈ db.paths) (away : ∀ move ∈ moves, move.1 ≠ move.2)
    (stored : db.renameEntities aborts moves = some renamed)
    (placed : renamed.places = db.mapPlaces (simultaneous moves)) : Ordered moves := by
  by_contra unordered
  obtain ⟨before, move, after, rfl, other, deeper, onto⟩ :
      ∃ before move after, moves = before ++ move :: after ∧ ∃ other ∈ after, move.2 = other.1 := by
    clear placed stored pages sources
    induction moves with
    | nil => exact absurd List.Pairwise.nil unordered
    | cons first rest ih =>
        by_cases later : ∃ other ∈ rest, first.2 = other.1
        · exact ⟨[], first, rest, rfl, later⟩
        · have tail : ¬Ordered rest := by
            intro ordered
            apply unordered
            refine List.pairwise_cons.mpr ⟨?_, ordered⟩
            intro other member same
            exact later ⟨other, member, same⟩
          obtain ⟨before, move, after, rfl, found⟩ :=
            ih (fun move member => away move (by simp [member])) tail
          exact ⟨first :: before, move, after, rfl, found⟩
  obtain ⟨source, target⟩ := move
  simp only at onto
  rw [renameEntities_append] at stored
  obtain ⟨between, first, second⟩ := Option.bind_eq_some_iff.mp stored
  have distinct := List.nodup_append.mp (by simpa using sources)
  have once := List.nodup_cons.mp distinct.2.1
  have early (path : Text) (found : path ∈ ((source, target) :: after).map Prod.fst) :
      ∀ move ∈ before, move.1 ≠ path := fun move member =>
    distinct.2.2 _ (List.mem_map.mpr ⟨move, member, rfl⟩) _ (by simpa using found)
  obtain ⟨row, present, same⟩ := List.mem_map.mp (pages (source, target) (by simp))
  have here : (row.id, source) ∈ db.places :=
    List.mem_map.mpr ⟨row, present, by simp [KnowledgeEntity.place, same]⟩
  have waits : (row.id, source) ∈ between.places :=
    renameEntities_stays db between aborts before row.id source (early source (by simp)) first here
  have occupied : target ∈ between.paths := by
    obtain ⟨row', present', same'⟩ := List.mem_map.mp (pages other (by simp [deeper]))
    have there : (row'.id, target) ∈ db.places :=
      List.mem_map.mpr ⟨row', present', by simp [KnowledgeEntity.place, same', onto]⟩
    have kept := renameEntities_stays db between aborts before row'.id target
      (early target (by simp only [List.map_cons, List.mem_cons]
                        exact Or.inr (List.mem_map.mpr ⟨other, deeper, onto.symm⟩))) first there
    rw [← places_snd]
    exact List.mem_map.mpr ⟨_, kept, rfl⟩
  have leaves : (row.id, source) ∈ renamed.places := by
    have stuck : between.Occupied source target :=
      ⟨away (source, target) (by simp),
        by rw [← places_snd]; exact List.mem_map.mpr ⟨_, waits, rfl⟩, occupied⟩
    simp only [renameEntities, stuck, if_true] at second
    split at second
    · simp at second
    · apply renameEntities_stays _ renamed aborts after row.id source ?_ second waits
      intro move member same'
      exact once.1 (List.mem_map.mpr ⟨move, member, same'⟩)
  rw [placed] at leaves
  obtain ⟨place, member, moved⟩ := List.mem_map.mp leaves
  have unique : place = (row.id, source) := by
    apply List.inj_on_of_nodup_map ids member here
    simpa using congrArg Prod.fst moved
  subst unique
  have goes := Moves.simultaneous_moved (before ++ (source, target) :: after) sources source target
    (by simp)
  exact away (source, target) (by simp) ((congrArg Prod.snd moved).symm.trans goes)

end Database

end Frona.Pkm
