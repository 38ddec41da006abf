import Frona.Pkm.RenameSubstitution

set_option autoImplicit false

namespace Frona.Pkm

open Utf8 (Text)
open Moves (sequential simultaneous Ordered)
open Wikilink (BracketFree rewrite links)
open PkmSyncService (dirMoves occupiedTarget)

/-- The world after a rename is the world before with every path replaced at once. -/
structure Substituted (vault : VaultScope) (moves : List (Text × Text)) (before after : World) :
    Prop where
  rows : after.db.places = before.db.mapPlaces (simultaneous moves)
  single : after.db.paths.Nodup
  files : ∀ path ∈ before.db.paths, ∀ content, vault.readPage path before.files = some content →
    vault.readPage (simultaneous moves path) after.files =
      some (vault.relinked (simultaneous moves) content)
  -- No two pages have come to share a file.
  apart : ∀ path ∈ before.db.paths, ∀ other ∈ before.db.paths, ∀ key,
    vault.names (simultaneous moves path) key → vault.names (simultaneous moves other) key →
      path = other ∨ ∃ shared, vault.names path shared ∧ vault.names other shared
  links : after.db.links = before.db.mapLinks (simultaneous moves)

def Recorded (vault : VaultScope) (env : Environment) (db : Database) (moves : List (Text × Text))
    (path : Text) (move : Text × Text) : Prop :=
  ∃ link ∈ db.links, simultaneous moves link.toEntityPath = move.2 ∧
    ∃ key, env.accepts key = true ∧ vault.names (simultaneous moves link.fromEntityPath) key ∧
      vault.names (simultaneous moves path) key

structure Readable (vault : VaultScope) (env : Environment) (db : Database)
    (moves : List (Text × Text)) (path content : Text) : Prop where
  named : ∀ inner ∈ links content, ∀ move ∈ moves, vault.linkedPage inner = move.1 →
    BracketFree move.2
  replaced : ∀ move ∈ moves, Recorded vault env db moves path move →
    vault.Plain move ∨ vault.Unread moves content move

/--
Rows have their own ids and paths, the old and the new file of a page that moves are of no other
path, the disk takes the new one, and the texts that the moves are made in are readable.
-/
structure Regular (vault : VaultScope) (env : Environment) (before : World) (source target : Text) :
    Prop where
  ids : (before.db.places.map Prod.fst).Nodup
  unique : before.db.paths.Nodup
  apart : ∀ move ∈ dirMoves source target before.db, ∀ path, path = move.1 ∨ path = move.2 →
    ∀ other ∈ before.db.paths ++ (dirMoves source target before.db).map Prod.snd,
    ∀ key, vault.names path key → vault.names other key → path = other
  accepts : source ≠ target → ∀ move ∈ dirMoves source target before.db,
    vault.readPage move.1 before.files ≠ none → ∀ key, vault.names move.2 key →
      env.accepts key = true
  readable : source ≠ target → ∀ path ∈ before.db.paths, ∀ content,
    vault.readPage path before.files = some content →
      Readable vault env before.db (dirMoves source target before.db) path content

/-- What the code counts on when it replaces one path after the other. -/
structure Faithful (vault : VaultScope) (env : Environment) (before : World)
    (source target : Text) : Prop where
  still : source = target → ∀ move ∈ dirMoves source target before.db, ∀ key,
    vault.names move.1 key → before.files key ≠ none →
      env.accepts key = false ∨ env.removes key = false
  ordered : Ordered (dirMoves source target before.db)
  storable : ∀ move ∈ dirMoves source target before.db, vault.readPage move.1 before.files ≠ none →
    ∃ key, vault.names move.2 key
  links : source ≠ target → ∀ path ∈ before.db.paths, ∀ content,
    vault.readPage path before.files = some content → ∀ inner ∈ links content,
      vault.linkedPage inner ∈ (dirMoves source target before.db).map Prod.fst ↔
        ∃ move ∈ dirMoves source target before.db,
          Recorded vault env before.db (dirMoves source target before.db) path move ∧
            inner = vault.vaultPath move.1

section Sound

variable (vault : VaultScope) (env : Environment) (source target : Text) (db : Database)
  (files : Files) (free : occupiedTarget (dirMoves source target db) db = none)
  (regular : Regular vault env ⟨db, files⟩ source target)

theorem keyed_pairwise (moves : List (Text × Text)) (R : Text × Text → Text × Text → Prop)
    (S : FileKey × FileKey → FileKey × FileKey → Prop) (pairs : moves.Pairwise R)
    (transfer : ∀ move ∈ moves, ∀ move' ∈ moves, R move move' →
      ∀ keys keys', vault.keyedMove move = some keys → vault.keyedMove move' = some keys' →
        S keys keys') : (moves.filterMap vault.keyedMove).Pairwise S := by
  rw [List.pairwise_filterMap]
  apply pairs.imp_of_mem
  intro move move' member member' related keys first keys' second
  exact transfer move member move' member' related keys keys' first second

theorem source_page (move : Text × Text) (member : move ∈ dirMoves source target db) :
    move.1 ∈ db.paths := ((mem_dirMoves source target db move.1 move.2).mp member).1

include free in
theorem simultaneous_inj (unique : db.paths.Nodup) (path other : Text) (page : path ∈ db.paths)
    (page' : other ∈ db.paths)
    (same : simultaneous (dirMoves source target db) path =
      simultaneous (dirMoves source target db) other) : path = other := by
  have targets := dirMoves_targets source target db unique
  have stays (move : Text × Text) (member : move ∈ dirMoves source target db) (path : Text)
      (page : path ∈ db.paths) (unmoved : ∀ move ∈ dirMoves source target db, move.1 ≠ path) :
      move.2 ≠ path := by
    rintro rfl
    obtain ⟨other, found, here⟩ :=
      List.mem_map.mp (target_moves source target db free move.1 move.2 member page)
    exact unmoved other found here
  cases Moves.simultaneous_cases (dirMoves source target db) path with
  | inl moved =>
      obtain ⟨move, member, rfl, goes⟩ := moved
      cases Moves.simultaneous_cases (dirMoves source target db) other with
      | inl moved' =>
          obtain ⟨move', member', rfl, goes'⟩ := moved'
          have : move = move' :=
            List.inj_on_of_nodup_map targets member member' (by rw [← goes, ← goes', same])
          rw [this]
      | inr unmoved' =>
          exact absurd (goes.symm.trans (same.trans unmoved'.2))
            (stays move member other page' unmoved'.1)
  | inr unmoved =>
      cases Moves.simultaneous_cases (dirMoves source target db) other with
      | inl moved' =>
          obtain ⟨move', member', rfl, goes'⟩ := moved'
          exact absurd (goes'.symm.trans (same.symm.trans unmoved.2))
            (stays move' member' path page unmoved.1)
      | inr unmoved' => exact unmoved.2.symm.trans (same.trans unmoved'.2)

theorem simultaneous_path (path : Text) (page : path ∈ db.paths) :
    simultaneous (dirMoves source target db) path ∈
      db.paths ++ (dirMoves source target db).map Prod.snd := by
  cases Moves.simultaneous_cases (dirMoves source target db) path with
  | inl moved =>
      obtain ⟨move, member, _, goes⟩ := moved
      rw [goes]
      exact List.mem_append_right _ (List.mem_map.mpr ⟨move, member, rfl⟩)
  | inr unmoved =>
      rw [unmoved.2]
      exact List.mem_append_left _ page

theorem move_paths (move : Text × Text) (member : move ∈ dirMoves source target db) :
    move.1 ∈ db.paths ++ (dirMoves source target db).map Prod.snd ∧
      move.2 ∈ db.paths ++ (dirMoves source target db).map Prod.snd :=
  ⟨List.mem_append_left _ (source_page source target db move member),
    List.mem_append_right _ (List.mem_map.mpr ⟨move, member, rfl⟩)⟩

include free regular in
theorem movedFiles_unmoved (path content : Text) (page : path ∈ db.paths)
    (unmoved : ∀ move ∈ dirMoves source target db, move.1 ≠ path) (key : FileKey)
    (named : vault.names path key) (stored : files key = some content) :
    vault.movedFiles env (dirMoves source target db) files key = some content := by
  have page' := List.mem_append_left ((dirMoves source target db).map Prod.snd) page
  rw [VaultScope.movedFiles, Moves.moveAll_untouched, stored]
  · intro keys keyed same
    obtain ⟨move, member, names⟩ := List.mem_filterMap.mp keyed
    have start := ((vault.keyedMove_eq_some move keys).mp names).1
    exact unmoved move member (regular.apart move member _ (.inl rfl) _ page' keys.1 start
      (same ▸ named))
  · intro keys keyed same
    obtain ⟨move, member, names⟩ := List.mem_filterMap.mp keyed
    have stop := ((vault.keyedMove_eq_some move keys).mp names).2
    have onto := regular.apart move member _ (.inr rfl) _ page' keys.2 stop (same ▸ named)
    obtain ⟨move', member', same'⟩ := List.mem_map.mp
      (target_moves source target db free move.1 move.2 member (onto ▸ page))
    exact unmoved move' member' (same'.trans onto)

include free regular in
theorem movedFiles_page (away : source ≠ target) (ordered : Ordered (dirMoves source target db))
    (path content : Text) (page : path ∈ db.paths)
    (stored : vault.readPage path files = some content) (key : FileKey)
    (named : vault.names (simultaneous (dirMoves source target db) path) key) :
    vault.movedFiles env (dirMoves source target db) files key = some content := by
  obtain ⟨start, here, there⟩ := (vault.readPage_eq_some path content files).mp stored
  have paths := move_paths source target db
  cases Moves.simultaneous_cases (dirMoves source target db) path with
  | inr unmoved =>
      rw [unmoved.2] at named
      obtain rfl : start = key := by simpa using here.symm.trans named
      exact movedFiles_unmoved vault env source target db files free regular path content page
        unmoved.1 start here there
  | inl moved =>
      obtain ⟨move, member, rfl, goes⟩ := moved
      rw [goes] at named
      have keyed : (start, key) ∈ (dirMoves source target db).filterMap vault.keyedMove :=
        List.mem_filterMap.mpr ⟨move, member,
          (vault.keyedMove_eq_some move (start, key)).mpr ⟨here, named⟩⟩
      -- What holds of the moves on paths holds of the moves on files: no two paths share a file.
      have ordered' : Ordered ((dirMoves source target db).filterMap vault.keyedMove) := by
        refine keyed_pairwise vault _ _ _ ordered ?_
        intro move member move' member' distinct keys keys' first second same
        have stop := ((vault.keyedMove_eq_some move keys).mp first).2
        have start := ((vault.keyedMove_eq_some move' keys').mp second).1
        exact distinct (regular.apart move member _ (.inr rfl) _ (paths move' member').1 keys.2 stop
          (same ▸ start))
      have sources : (((dirMoves source target db).filterMap vault.keyedMove).map Prod.fst).Nodup := by
        have once := List.pairwise_map.mp (dirMoves_sources source target db regular.unique)
        refine List.pairwise_map.mpr (keyed_pairwise vault _ _ _ once ?_)
        intro move member move' member' distinct keys keys' first second same
        have start := ((vault.keyedMove_eq_some move keys).mp first).1
        have start' := ((vault.keyedMove_eq_some move' keys').mp second).1
        exact distinct (regular.apart move member _ (.inl rfl) _ (paths move' member').1 keys.1
          start (same ▸ start'))
      have targets : (((dirMoves source target db).filterMap vault.keyedMove).map Prod.snd).Nodup := by
        have once := List.pairwise_map.mp (dirMoves_targets source target db regular.unique)
        refine List.pairwise_map.mpr (keyed_pairwise vault _ _ _ once ?_)
        intro move member move' member' distinct keys keys' first second same
        have stop := ((vault.keyedMove_eq_some move keys).mp first).2
        have stop' := ((vault.keyedMove_eq_some move' keys').mp second).2
        exact distinct (regular.apart move member _ (.inr rfl) _ (paths move' member').2 keys.2 stop
          (same ▸ stop'))
      have apart : ∀ keys ∈ (dirMoves source target db).filterMap vault.keyedMove,
          keys.1 ≠ keys.2 := by
        intro keys keyed same
        obtain ⟨move', member', names⟩ := List.mem_filterMap.mp keyed
        obtain ⟨start', stop'⟩ := (vault.keyedMove_eq_some move' keys).mp names
        have equal := regular.apart move' member' _ (.inl rfl) _ (paths move' member').2 keys.1
          start' (same ▸ stop')
        exact dirMoves_away source target db away move' member' equal
      exact Moves.moveAll_target env.accepts env.removes _ files ordered' sources targets apart start
        key content keyed there
        (regular.accepts away move member (by simp [stored]) key named)

theorem relinkInner_readable {path content : Text}
    (readable : Readable vault env db (dirMoves source target db) path content) (inner : Text)
    (member : inner ∈ links content) :
    BracketFree (vault.relinkInner (simultaneous (dirMoves source target db)) inner) := by
  have free := Wikilink.links_free content inner member
  cases Moves.simultaneous_cases (dirMoves source target db) (vault.linkedPage inner) with
  | inl moved =>
      obtain ⟨move, moves, names, goes⟩ := moved
      apply vault.relinkInner_free _ inner free
      rw [goes]
      exact readable.named inner member move moves names.symm
  | inr unmoved => rwa [relinkInner_of_fixed vault _ inner unmoved.2]

theorem mem_followed (renamed : Database) (ordered : Ordered (dirMoves source target db))
    (links : renamed.links = db.mapLinks (sequential (dirMoves source target db))) (path : Text)
    (key : FileKey) (named : vault.names (simultaneous (dirMoves source target db) path) key)
    (move : Text × Text) :
    move ∈ vault.followed env renamed (dirMoves source target db) key ↔
      move ∈ dirMoves source target db ∧
        Recorded vault env db (dirMoves source target db) path move := by
  have follow (page : Text) : sequential (dirMoves source target db) page =
      simultaneous (dirMoves source target db) page := Moves.sequential_eq _ ordered page
  simp only [VaultScope.followed, List.mem_filter, decide_eq_true_eq, and_congr_right_iff]
  intro _
  simp only [Database.entitiesLinkingTo, links, Database.mapLinks, List.mem_map, List.mem_filter,
    decide_eq_true_eq, Recorded, follow]
  constructor
  · rintro ⟨accepted, linker, ⟨_, ⟨⟨link, stored, rfl⟩, onto⟩, rfl⟩, here⟩
    exact ⟨link, stored, onto, key, accepted, here, named⟩
  · rintro ⟨link, stored, onto, key', accepted, here, there⟩
    obtain rfl : key' = key := by simpa using there.symm.trans named
    exact ⟨accepted, _, ⟨_, ⟨⟨link, stored, rfl⟩, onto⟩, rfl⟩, here⟩

end Sound

section Main

variable (service : PkmSyncService) (env : Environment) (source target : Text)
  (before after : World) (result : EditResult)
  (free : occupiedTarget (dirMoves source target before.db) before.db = none)
  (regular : Regular service.vault env before source target)
  (ran : service.moveDir env (dirMoves source target before.db) before = (.ok result, after))

include free regular ran

theorem moveDir_tables (ordered : Ordered (dirMoves source target before.db)) :
    after.db.places = before.db.mapPlaces (simultaneous (dirMoves source target before.db)) ∧
      after.db.links = before.db.mapLinks (simultaneous (dirMoves source target before.db)) := by
  obtain ⟨renamed, stored, links, places, _⟩ := service.moveDir_ok env _ before after result ran
  have follow : sequential (dirMoves source target before.db) =
      simultaneous (dirMoves source target before.db) :=
    funext (Moves.sequential_eq _ ordered)
  rw [links, places, Database.renameEntities_links _ _ _ _ stored,
    Database.renameEntities_places _ _ _ _ ordered
      (dirMoves_targets source target before.db regular.unique) ?_ stored, follow]
  · exact ⟨rfl, rfl⟩
  · intro move member page
    exact target_moves source target before.db free move.1 move.2 member page

theorem moveDir_single (ordered : Ordered (dirMoves source target before.db)) :
    after.db.paths.Nodup := by
  have places := (moveDir_tables service env source target before after result free regular ran
    ordered).1
  have paths : after.db.paths =
      before.db.paths.map (simultaneous (dirMoves source target before.db)) := by
    rw [← Database.places_snd, places, ← Database.places_snd]
    simp [Database.mapPlaces]
  rw [paths, List.nodup_map_iff_inj_on regular.unique]
  intro path page other page' same
  exact simultaneous_inj source target before.db free regular.unique path other page page' same

theorem moveDir_file (away : source ≠ target)
    (ordered : Ordered (dirMoves source target before.db)) (path content : Text)
    (page : path ∈ before.db.paths)
    (stored : service.vault.readPage path before.files = some content) (key : FileKey)
    (named : service.vault.names (simultaneous (dirMoves source target before.db) path) key) :
    after.files key = some (service.vault.relinked
        (simultaneous (dirMoves source target before.db)) content) ↔
      ∀ inner ∈ links content,
        service.vault.linkedPage inner ∈ (dirMoves source target before.db).map Prod.fst ↔
          ∃ move ∈ dirMoves source target before.db,
            Recorded service.vault env before.db (dirMoves source target before.db) path move ∧
              inner = service.vault.vaultPath move.1 := by
  obtain ⟨renamed, committed, _, _, files⟩ := service.moveDir_ok env _ before after result ran
  have followed := mem_followed service.vault env source target before.db renamed ordered
    (Database.renameEntities_links _ _ _ _ committed) path key named
  have readable := regular.readable away path page content stored
  have arrived := movedFiles_page service.vault env source target before.db before.files free regular
    away ordered path content page stored key named
  have start : rewrite (service.vault.linkSteps []) content = content := Wikilink.rewrite_id content
  obtain ⟨kept, some_kept, plain, all_kept, ends⟩ := service.vault.relinkedAll_at env renamed
    (dirMoves source target before.db) (dirMoves source target before.db) [] key content
    (List.Sublist.refl _) (by simp)
    (fun move member => readable.replaced move ((followed move).mp member).1
      ((followed move).mp member).2)
    (service.vault.movedFiles env (dirMoves source target before.db) before.files)
    (by rw [start, arrived])
  have some_of : kept.Sublist (dirMoves source target before.db) :=
    some_kept.trans List.filter_sublist
  rw [files, ends, List.nil_append, Option.some_inj, VaultScope.relinked, Wikilink.rewrite_eq_iff _ _ _
    (fun inner member => service.vault.linkSteps_free kept plain inner
      (Wikilink.links_free content inner member))
    (relinkInner_readable service.vault env source target before.db readable)]
  apply forall₂_congr
  intro inner member
  rw [linkSteps_eq_relinkInner service.vault source target before.db away regular.unique ordered _
    some_of]
  apply iff_congr Iff.rfl
  constructor
  · rintro ⟨move, member, same⟩
    have moves := (followed move).mp (some_kept.subset member)
    exact ⟨move, moves.1, moves.2, same⟩
  · rintro ⟨move, moves, edge, same⟩
    refine ⟨move, (all_kept move ((followed move).mpr ⟨moves, edge⟩)).resolve_right ?_, same⟩
    intro unread
    have found := Wikilink.linkText_infix content inner member
    rw [← start, same] at found
    exact unread [] (List.nil_sublist _) found

omit free regular in
theorem moveDir_self_files (same : source = target) (key : FileKey) :
    after.files key =
      if (∃ move ∈ dirMoves source target before.db, service.vault.names move.1 key) ∧
          env.accepts key = true ∧ env.removes key = true then none
      else before.files key := by
  obtain ⟨renamed, _, _, _, files⟩ := service.moveDir_ok env _ before after result ran
  have still := dirMoves_self source target before.db same
  have keyed : key ∈ ((dirMoves source target before.db).filterMap service.vault.keyedMove).map
      Prod.fst ↔ ∃ move ∈ dirMoves source target before.db, service.vault.names move.1 key := by
    constructor
    · intro moved
      obtain ⟨keys, found, rfl⟩ := List.mem_map.mp moved
      obtain ⟨move, member, names⟩ := List.mem_filterMap.mp found
      exact ⟨move, member, ((service.vault.keyedMove_eq_some move keys).mp names).1⟩
    · rintro ⟨move, member, named⟩
      exact List.mem_map.mpr ⟨(key, key), List.mem_filterMap.mpr ⟨move, member,
        (service.vault.keyedMove_eq_some move _).mpr ⟨named, still move member ▸ named⟩⟩, rfl⟩
  rw [files, service.vault.relinkedAll_still env renamed _ still, VaultScope.movedFiles,
    Moves.moveAll_still]
  · simp only [keyed]
  · intro keys moved
    obtain ⟨move, member, names⟩ := List.mem_filterMap.mp moved
    obtain ⟨start, stop⟩ := (service.vault.keyedMove_eq_some move keys).mp names
    rw [← still move member] at stop
    simpa using start.symm.trans stop

theorem faithful_of_substituted
    (substituted : Substituted service.vault (dirMoves source target before.db) before after) :
    Faithful service.vault env before source target := by
  have sources := dirMoves_sources source target before.db regular.unique
  have page := source_page source target before.db
  have ordered : Ordered (dirMoves source target before.db) := by
    by_cases same : source = target
    · apply (List.pairwise_map.mp sources).imp_of_mem
      intro move move' member _ distinct onto
      exact distinct ((dirMoves_self source target before.db same move member).trans onto)
    · obtain ⟨renamed, stored, _, places, _⟩ := service.moveDir_ok env _ before after _ ran
      exact Database.ordered_of_places _ _ _ _ regular.ids sources page
        (dirMoves_away source target before.db same) stored (places.symm.trans substituted.rows)
  refine ⟨?_, ordered, ?_, ?_⟩
  · intro same move member key named filled
    obtain ⟨content, there⟩ := Option.ne_none_iff_exists'.mp filled
    have stored := (service.vault.readPage_eq_some move.1 content before.files).mpr ⟨key, named, there⟩
    obtain ⟨key', named', kept⟩ := (service.vault.readPage_eq_some _ _ _).mp
      (substituted.files move.1 (page move member) content stored)
    rw [Moves.simultaneous_moved _ sources move.1 move.2 member,
      ← dirMoves_self source target before.db same move member] at named'
    obtain rfl : key = key' := by simpa using named.symm.trans named'
    by_contra taken
    obtain ⟨accepted, removed⟩ := not_or.mp taken
    rw [moveDir_self_files service env source target before after result ran same,
      if_pos ⟨⟨move, member, named⟩, by simpa using accepted, by simpa using removed⟩] at kept
    simp at kept
  · intro move member filled
    obtain ⟨content, stored⟩ := Option.ne_none_iff_exists'.mp filled
    have arrived := substituted.files move.1 (page move member) content stored
    rw [Moves.simultaneous_moved _ sources move.1 move.2 member] at arrived
    obtain ⟨key, named, _⟩ := (service.vault.readPage_eq_some _ _ _).mp arrived
    exact ⟨key, named⟩
  · intro away path page content stored
    obtain ⟨key, named, there⟩ := (service.vault.readPage_eq_some _ _ _).mp
      (substituted.files path page content stored)
    exact (moveDir_file service env source target before after result free regular ran away ordered
      path content page stored key named).mp there

theorem substituted_of_faithful
    (faithful : Faithful service.vault env before source target) :
    Substituted service.vault (dirMoves source target before.db) before after := by
  obtain ⟨places, links⟩ := moveDir_tables service env source target before after result free
    regular ran faithful.ordered
  have single := moveDir_single service env source target before after result free regular ran
    faithful.ordered
  refine ⟨places, single, ?_, ?_, links⟩
  · intro path page content stored
    obtain ⟨key, named, there⟩ := (service.vault.readPage_eq_some _ _ _).mp stored
    by_cases same : source = target
    · -- Nothing moves, and no file of a page under the directory is deleted.
      have kept := moveDir_self_files service env source target before after result ran same key
      rw [if_neg] at kept
      · have identity : simultaneous (dirMoves source target before.db) = id := by
          funext page
          rw [← Moves.sequential_eq _ faithful.ordered]
          exact Moves.sequential_still _ (dirMoves_self source target before.db same) page
        have steps : service.vault.relinkInner id = id :=
          funext fun inner => relinkInner_of_fixed service.vault id inner rfl
        rw [identity, VaultScope.relinked, steps, Wikilink.rewrite_id]
        exact (service.vault.readPage_eq_some _ _ _).mpr ⟨key, named, by rw [kept, there]⟩
      · rintro ⟨⟨move, member, here⟩, accepted, removed⟩
        have stays := faithful.still same move member key here (by simp [there])
        simp [accepted, removed] at stays
    · obtain ⟨key', named'⟩ : ∃ key', service.vault.names
          (simultaneous (dirMoves source target before.db) path) key' := by
        cases Moves.simultaneous_cases (dirMoves source target before.db) path with
        | inl moving =>
            obtain ⟨move, member, rfl, goes⟩ := moving
            rw [goes]
            exact faithful.storable move member (by rw [stored]; simp)
        | inr unmoved => exact ⟨key, unmoved.2.symm ▸ named⟩
      have arrived := (moveDir_file service env source target before after result free regular ran
        same faithful.ordered path content page stored key' named').mpr
          (faithful.links same path page content stored)
      exact (service.vault.readPage_eq_some _ _ _).mpr ⟨key', named', arrived⟩
  · intro path page other page' key named named'
    have here := simultaneous_path source target before.db path page
    have there := simultaneous_path source target before.db other page'
    have inj := simultaneous_inj source target before.db free regular.unique path other page page'
    cases Moves.simultaneous_cases (dirMoves source target before.db) path with
    | inl moved =>
        obtain ⟨move, member, _, goes⟩ := moved
        exact .inl (inj (regular.apart move member _ (.inr goes) _ there key named named'))
    | inr unmoved =>
        cases Moves.simultaneous_cases (dirMoves source target before.db) other with
        | inl moved =>
            obtain ⟨move, member, _, goes⟩ := moved
            exact .inl (inj (regular.apart move member _ (.inr goes) _ here key named' named).symm)
        | inr unmoved' => exact .inr ⟨key, unmoved.2 ▸ named, unmoved'.2 ▸ named'⟩

end Main

section Runs

def memoryVault : VaultScope where
  directory := "Memory".toList
  root := ["data".toList]
  validated := by decide

def plainService : PkmSyncService where
  vault := memoryVault
  sha256Hex := id

def plainEnvironment : Environment where
  resetInProgress := false
  uniqueAborts := true
  refuses := fun _ => false
  accepts := fun _ => true
  removes := fun _ => true
  plan := fun _ _ _ => .ok []
  extract := fun _ _ db => .ok db

def storedPage (id : Nat) (path content : Text) : KnowledgeEntity where
  id := id
  path := path
  origin := .internal
  name := []
  body := []
  syncContent := some content
  mirroredRev := none
  extractedRev := none
  rev := some content

def pageX : Text := "a/x".toList

def pageY : Text := "a/y".toList

def linkToY : Text := "See [[Memory/a/y]].".toList

def linkedPages : World where
  db :=
    { entities := [storedPage 0 pageX linkToY, storedPage 1 pageY []]
      links := [⟨pageX, pageY, "mentions".toList⟩]
      sources := []
      memories := []
      nextId := 2 }
  files := fun key =>
    if key = ["Memory".toList, "a".toList, "x.md".toList] then some linkToY
    else if key = ["Memory".toList, "a".toList, "y.md".toList] then some []
    else none

def fromA : Text := "Memory/a".toList

def toB : Text := "Memory/b".toList

def dirA : Text := "a".toList

def dirB : Text := "b".toList

def movedX : Text := "b/x".toList

def movedY : Text := "b/y".toList

theorem linkedPages_moves :
    dirMoves dirA dirB linkedPages.db = [(pageX, movedX), (pageY, movedY)] := by
  decide

theorem linkedPages_regular : Regular memoryVault plainEnvironment linkedPages dirA dirB where
  ids := by decide
  unique := by decide
  apart := by
    have once : ((linkedPages.db.paths ++ (dirMoves dirA dirB linkedPages.db).map Prod.snd).map
        memoryVault.pageKey).Nodup := by decide
    intro move member path one other member' key named named'
    have paths := move_paths dirA dirB linkedPages.db move member
    have here : path ∈ linkedPages.db.paths ++ (dirMoves dirA dirB linkedPages.db).map Prod.snd := by
      cases one with
      | inl old => exact old ▸ paths.1
      | inr new => exact new ▸ paths.2
    exact List.inj_on_of_nodup_map once here member' (named.trans named'.symm)
  accepts := fun _ _ _ _ _ _ => rfl
  readable := by
    have plain : BracketFree memoryVault.directory ∧
        ∀ move ∈ dirMoves dirA dirB linkedPages.db, BracketFree move.1 ∧ BracketFree move.2 := by
      rw [linkedPages_moves]
      decide
    intro _ path _ content _
    exact ⟨fun inner _ move member _ => (plain.2 move member).2, fun move member _ =>
      .inl ⟨plain.1, (plain.2 move member).1, (plain.2 move member).2⟩⟩

theorem linkedPages_faithful :
    Faithful memoryVault plainEnvironment linkedPages dirA dirB where
  still := by
    intro same
    exact absurd same (by decide)
  ordered := by
    rw [linkedPages_moves]
    decide
  storable := by
    rw [linkedPages_moves]
    intro move member _
    simp only [List.mem_cons, List.not_mem_nil, or_false] at member
    cases member with
    | inl first => exact ⟨["Memory".toList, "b".toList, "x.md".toList], by subst first; decide⟩
    | inr second =>
        exact ⟨["Memory".toList, "b".toList, "y.md".toList], by subst second; decide⟩
  links := by
    rw [linkedPages_moves]
    intro _ path page content stored
    have paths : linkedPages.db.paths = [pageX, pageY] := rfl
    rw [paths, List.mem_pair] at page
    cases page with
    | inl first =>
        subst first
        have bytes : memoryVault.readPage pageX linkedPages.files = some linkToY := by decide
        obtain rfl : linkToY = content := by simpa using bytes.symm.trans stored
        have found : links linkToY = [memoryVault.vaultPath pageY] := by decide
        have names : memoryVault.linkedPage (memoryVault.vaultPath pageY) = pageY := by decide
        rw [found]
        intro inner member
        obtain rfl : inner = memoryVault.vaultPath pageY := by simpa using member
        have edge : Recorded memoryVault plainEnvironment linkedPages.db [(pageX, movedX), (pageY, movedY)] pageX
            (pageY, movedY) :=
          ⟨⟨pageX, pageY, "mentions".toList⟩, List.mem_singleton.mpr rfl, by decide,
            ["Memory".toList, "b".toList, "x.md".toList], rfl, by decide, by decide⟩
        exact iff_of_true (by rw [names]; decide)
          ⟨(pageY, movedY), by simp, edge, rfl⟩
    | inr second =>
        subst second
        have bytes : memoryVault.readPage pageY linkedPages.files = some [] := by decide
        obtain rfl : [] = content := by simpa using bytes.symm.trans stored
        simp [links, Wikilink.parse, Wikilink.parseFrom]

end Runs

end Frona.Pkm
