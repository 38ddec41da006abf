import Frona.Pkm.RecoveryPasses
import Frona.Pkm.RenameSound

set_option autoImplicit false

namespace Frona.Pkm

open Utf8 (Text)

namespace Recovery

variable (recovery : Recovery) (boot : Boot)

def InPlace (world : World) : Prop :=
  ∀ page ∈ world.db.internalEntities, ∃ own content, recovery.vault.names page.path own ∧
    page.syncContent = some content ∧ world.files own = some content

structure Restored (before after : World) : Prop where
  projected : ∀ page ∈ after.db.internalEntities, ∀ content, page.syncContent = some content →
    ∃ own, recovery.vault.names page.path own ∧ after.files own = some content
  standing : ∀ page ∈ before.db.internalEntities, ∀ own, recovery.vault.names page.path own →
    before.files own ≠ none → after.files own ≠ none
  again : ∀ boot, (recovery.reconcileUserFiles boot after.db.internalEntities after).2 = after

def Agreed (pages : List KnowledgeEntity) (files : Files) : Prop :=
  ∀ before page later, pages = before ++ page :: later → ∀ own held,
    recovery.vault.names page.path own → files own = some held →
      ∀ other ∈ later, recovery.vault.names other.path own →
        ∀ content, other.syncContent = some content →
          match page.syncContent with
          | some bytes => content = bytes
          | none => content = held ∨ ∃ earlier ∈ before, recovery.vault.names earlier.path own ∧
              earlier.syncContent = some content

structure Repairable (pages : List KnowledgeEntity) (files : Files) : Prop where
  separate : recovery.Separate pages
  spared : ∀ page ∈ pages, ∀ own, recovery.vault.names page.path own →
    recovery.Spared boot pages (recovery.listPageFiles boot (recovery.mirrored pages files))
      (files own ≠ none) own
  adoptable : recovery.Adoptable boot pages
    (recovery.listPageFiles boot (recovery.mirrored pages files)) (recovery.mirrored pages files)

/-- Without the user or the vault nothing is repaired. -/
def Restorable (world : World) : Prop :=
  if boot.vaultFound then
    (∀ page ∈ world.db.internalEntities, ∀ own, recovery.vault.names page.path own →
        world.files own ≠ none) ∧ recovery.Agreed world.db.internalEntities world.files ∨
      recovery.Repairable boot world.db.internalEntities world.files
  else recovery.InPlace world

/-- Every row has its bytes, or none is left to chance: no file is missing, or pages have files of
their own and what is written for a row without bytes is written as a whole. -/
def Traceable (world : World) : Prop :=
  (∀ page ∈ world.db.internalEntities, page.syncContent ≠ none) ∨
    (∀ page ∈ world.db.internalEntities, ∃ own, recovery.vault.names page.path own) ∧
      ((∀ page ∈ world.db.internalEntities, ∀ own, recovery.vault.names page.path own →
          world.files own ≠ none) ∨
        recovery.Apart world.db.internalEntities ∧
          recovery.Whole boot world.db.internalEntities
            (recovery.listPageFiles boot (recovery.mirrored world.db.internalEntities world.files)))

def bodies (world : World) : Set Text :=
  {text | (∃ page ∈ world.db.internalEntities, page.syncContent = some text) ∨
    ∃ key, world.files key = some text}

section Again

variable {recovery} {boot} {world : World} {pages : List KnowledgeEntity} {report : ReconcileReport}

theorem mirrorPages_inPlace
    (inPlace : ∀ page ∈ pages, ∃ own content, recovery.vault.names page.path own ∧
      page.syncContent = some content ∧ world.files own = some content) :
    recovery.mirrorPages boot pages report world = (.ok (false, report), world) := by
  induction pages with
  | nil => rfl
  | cons page pages ih =>
      have ⟨⟨own, content, named, synced, there⟩, rest⟩ := List.forall_mem_cons.mp inPlace
      rw [VaultScope.names] at named
      have first : recovery.mirrorPage boot page report world = (.ok (false, report), world) := by
        simp [mirrorPage, pageFingerprint, named, there, synced, contentFingerprint]
      simp only [mirrorPages, Call.bind_apply, first, ih rest, Call.pure_apply, Bool.or_self]

theorem reconcileUserFiles_inPlace (inPlace : recovery.InPlace world) :
    (recovery.reconcileUserFiles boot world.db.internalEntities world).2 = world := by
  cases found : boot.vaultFound with
  | false => simp [reconcileUserFiles, found]
  | true =>
      have same : recovery.mirrorPages boot world.db.internalEntities ⟨0, 0, 0⟩ world =
          (.ok (false, ⟨0, 0, 0⟩), world) := mirrorPages_inPlace inPlace
      simp [reconcileUserFiles, found, same]

end Again

section Rows

variable {recovery} {db left : Database} {page : KnowledgeEntity}

theorem entityByPath_of_mem (unique : db.paths.Nodup) (member : page ∈ db.entities) :
    db.entityByPath page.path = some page := by
  cases found : db.entityByPath page.path with
  | none =>
      have present : page.path ∈ db.paths := List.mem_map_of_mem member
      rw [← Database.entityByPath_isSome, found] at present
      simp at present
  | some row =>
      have path := entityByPath_path db page.path found
      have same := List.inj_on_of_nodup_map unique (entityByPath_mem db page.path found) member path
      rw [same]

theorem stored_of_mem (unique : db.paths.Nodup) (member : page ∈ db.entities) :
    db.stored page.path = page.syncContent := by
  rw [Database.stored, entityByPath_of_mem unique member, Option.bind_some]

theorem mem_internalEntities :
    page ∈ db.internalEntities ↔ page ∈ db.entities ∧ page.origin = .internal := by
  simp [Database.internalEntities]

theorem internal_paths_nodup (unique : db.paths.Nodup) :
    (db.internalEntities.map KnowledgeEntity.path).Nodup :=
  unique.sublist (List.filter_sublist.map _)

theorem internal_rows (unique : db.paths.Nodup) : Rows db.internalEntities db where
  unique := List.inj_on_of_nodup_map (internal_paths_nodup unique)
  present page member := List.mem_map_of_mem (mem_internalEntities.mp member).1
  stored page member content synced := by
    rw [stored_of_mem unique (mem_internalEntities.mp member).1, synced]

theorem internal_of_kinds (same : left.kinds = db.kinds) (member : page ∈ left.internalEntities) :
    ∃ other ∈ db.internalEntities, other.path = page.path := by
  have ⟨held, origin⟩ := mem_internalEntities.mp member
  have kind : (page.path, page.origin) ∈ db.kinds := by
    rw [← same]
    exact List.mem_map.mpr ⟨page, held, rfl⟩
  obtain ⟨other, held, equal⟩ := List.mem_map.mp kind
  obtain ⟨path, equal⟩ := Prod.mk.inj equal
  exact ⟨other, mem_internalEntities.mpr ⟨held, equal.trans origin⟩, path⟩

variable {world after : World}

theorem inPlace_of_holds (unique : world.db.paths.Nodup) (same : after.db.kinds = world.db.kinds)
    (named : ∀ page ∈ world.db.internalEntities, ∃ own, recovery.vault.names page.path own)
    (holds : ∀ page ∈ world.db.internalEntities, ∀ own, recovery.vault.names page.path own →
      Holds after page own) : recovery.InPlace after := by
  intro page member
  obtain ⟨other, held, path⟩ := internal_of_kinds same member
  obtain ⟨own, names⟩ := named other held
  obtain ⟨content, stored, there⟩ := holds other held own names
  have unique : after.db.paths.Nodup := by
    rw [Database.paths_kinds, same, ← Database.paths_kinds]
    exact unique
  rw [path, stored_of_mem unique (mem_internalEntities.mp member).1] at stored
  exact ⟨own, content, path ▸ names, stored, there⟩

theorem restored_of_inPlace (same : after.db.kinds = world.db.kinds)
    (inPlace : recovery.InPlace after) : recovery.Restored world after where
  projected page member content synced := by
    obtain ⟨own, held, named, bytes, there⟩ := inPlace page member
    obtain rfl : held = content := by simpa [bytes] using synced
    exact ⟨own, named, there⟩
  standing page member own named _ := by
    obtain ⟨other, held, path⟩ := internal_of_kinds same.symm member
    obtain ⟨own', content, named', _, there⟩ := inPlace other held
    obtain rfl := names_inj named (path ▸ named')
    simp [there]
  again boot := reconcileUserFiles_inPlace inPlace

end Rows

section Passes

variable {recovery boot} {pages : List KnowledgeEntity} {page : KnowledgeEntity} {own : FileKey}
  {missing : Bool} {world after : World}

theorem Mirrored.keepsRows (first : Mirrored recovery pages missing world after)
    (rows : Rows pages world.db) : Rows pages after.db where
  unique := rows.unique
  present page member := by
    rw [Database.paths_kinds, first.kinds, ← Database.paths_kinds]
    exact rows.present page member
  stored page member content synced := by
    rw [first.rows, rows.stored page member content synced]
    intro other held legacy same
    simp [rows.unique other held page member same, synced] at legacy

theorem Mirrored.bytes (first : Mirrored recovery pages missing world after)
    (rows : Rows pages world.db) {before later : List KnowledgeEntity}
    (place : pages = before ++ page :: later) (named : recovery.vault.names page.path own)
    {held : Text} (there : world.files own = some held) :
    after.db.stored page.path =
        some (page.syncContent.getD (recovery.lastBytes before own held)) ∧
      after.files own = some (recovery.lastBytes later own
        (page.syncContent.getD (recovery.lastBytes before own held))) := by
  constructor
  · cases synced : page.syncContent with
    | none => exact first.adopted before page later place synced own held named there
    | some content => exact (first.keepsRows rows).stored page (by simp [place]) content synced
  · rw [first.files, mirrored, there, Option.map_some, place, lastBytes_append, lastBytes_own named]

theorem Mirrored.holds_iff (first : Mirrored recovery pages missing world after)
    (rows : Rows pages world.db) {before later : List KnowledgeEntity}
    (place : pages = before ++ page :: later) (named : recovery.vault.names page.path own)
    {held : Text} (there : world.files own = some held) :
    Holds after page own ↔ recovery.lastBytes pages own held =
      page.syncContent.getD (recovery.lastBytes before own held) := by
  obtain ⟨stored, kept⟩ := first.bytes rows place named there
  have last : recovery.lastBytes pages own held = recovery.lastBytes later own
      (page.syncContent.getD (recovery.lastBytes before own held)) := by
    rw [place, lastBytes_append, lastBytes_own named]
  simp only [Holds, stored, kept, last, Option.some_inj]
  exact ⟨fun ⟨content, first, second⟩ => second.trans first.symm, fun same => ⟨_, rfl, same⟩⟩

theorem Mirrored.agreed_iff (first : Mirrored recovery pages missing world after)
    (rows : Rows pages world.db) : recovery.Agreed pages world.files ↔
      ∀ page ∈ pages, ∀ own, recovery.vault.names page.path own → world.files own ≠ none →
        Holds after page own := by
  constructor
  · intro agreed page member own named filled
    obtain ⟨held, there⟩ := Option.ne_none_iff_exists'.mp filled
    obtain ⟨before, later, place⟩ := List.append_of_mem member
    rw [first.holds_iff rows place named there, place, lastBytes_append, lastBytes_own named]
    refine lastBytes_same fun other member' named' content synced => ?_
    have same := agreed before page later place own held named there other member' named' content
      synced
    cases mine : page.syncContent with
    | some bytes => simpa [mine] using same
    | none =>
        simp only [mine] at same
        rw [Option.getD_none]
        obtain ⟨source, found, names, bytes⟩ | untouched := 
          lastBytes_cases recovery before own held
        · -- the page before it that has bytes is followed by the other one, too
          obtain ⟨front, rest, split⟩ := List.append_of_mem found
          have pair := agreed front source (rest ++ page :: later)
            (by rw [place, split]; simp) own held names there other (by simp [member']) named'
            content synced
          simpa [bytes] using pair
        · rw [untouched]
          obtain same | ⟨earlier, found, names, bytes⟩ := same
          · exact same
          · obtain ⟨front, rest, split⟩ := List.append_of_mem found
            have last : recovery.lastBytes before own held = content := by
              rw [split, lastBytes_append, lastBytes_own names, bytes, Option.getD_some]
              refine lastBytes_same fun between member names' others synced' => ?_
              have pair := agreed front earlier (rest ++ page :: later)
                (by rw [place, split]; simp) own held names there between (by simp [member])
                names' others synced'
              simpa [bytes] using pair
            rw [← last, untouched]
  · intro holds before page later place own held named there other member named' content synced
    have filled : world.files own ≠ none := by simp [there]
    have mine := (first.holds_iff rows place named there).mp
      (holds page (by simp [place]) own named filled)
    obtain ⟨front, rest, split⟩ := List.append_of_mem member
    have theirs := (first.holds_iff rows
      (show pages = (before ++ page :: front) ++ other :: rest by rw [place, split]; simp)
      named' there).mp
        (holds other (by simp [place, member]) own named' filled)
    rw [mine, synced, Option.getD_some] at theirs
    cases bytes : page.syncContent with
    | some mine => simpa [bytes] using theirs.symm
    | none =>
        rw [bytes, Option.getD_none] at theirs
        obtain ⟨earlier, found, names, last⟩ | untouched := 
          lastBytes_cases recovery before own held
        · exact .inr ⟨earlier, found, names, by rw [last, theirs]⟩
        · exact .inl (by rw [← theirs, untouched])

theorem agreed_of_separate (separate : recovery.Separate pages) (once : pages.Nodup) (files : Files) :
    recovery.Agreed pages files := by
  intro before page later place own held named _ other member named' content synced
  have differ : page ≠ other := by
    rintro rfl
    rw [place] at once
    exact (List.nodup_cons.mp (List.nodup_append.mp once).2.1).1 member
  obtain same | ⟨same, bytes⟩ := separate page (by simp [place]) other (by simp [place, member]) own
    named named'
  · exact absurd same differ
  · rw [same, synced]

end Passes

section Again

variable {recovery} {pages : List KnowledgeEntity} {page : KnowledgeEntity} {report : ReconcileReport}
  {world : World}

def startWalking (order : List (List Text)) : Boot where
  toEnvironment := plainEnvironment
  vaultFound := true
  walk _ := order
  composePage _ _ := []

structure Fills (before after : World) : Prop where
  kinds : after.db.kinds = before.db.kinds
  stored : ∀ path, before.db.stored path ≠ none → after.db.stored path ≠ none

theorem Fills.refl (world : World) : Fills world world := ⟨rfl, fun _ => id⟩

theorem Fills.trans {first second third : World} (before : Fills first second)
    (after : Fills second third) : Fills first third :=
  ⟨after.kinds.trans before.kinds, fun path filled => after.stored path (before.stored path filled)⟩

theorem fills_project (world : World) (files : Files) (path content rev : Text) :
    Fills world ⟨world.db.setPageProjection path content rev, files⟩ := by
  refine ⟨Database.kinds_setPageProjection _ _ _ _, fun other filled => ?_⟩
  rw [Database.stored_setPageProjection]
  split
  · simp
  · exact filled

variable (report) in
theorem mirrorPage_fills (named : ∃ own, recovery.vault.names page.path own)
    (present : page.path ∈ world.db.paths) :
    ∃ missing counted after,
      recovery.mirrorPage (startWalking []) page report world = (.ok (missing, counted), after) ∧
        Fills world after ∧
        (page.syncContent = none → missing = true ∨ after.db.stored page.path ≠ none) := by
  obtain ⟨own, named⟩ := named
  rw [VaultScope.names] at named
  cases held : world.files own with
  | none =>
      exact ⟨true, report, world, by simp [mirrorPage, pageFingerprint, named, held], Fills.refl world,
        fun _ => .inl rfl⟩
  | some bytes =>
      cases synced : page.syncContent with
      | none =>
          refine ⟨false, report,
            ⟨world.db.setPageProjection page.path bytes (recovery.sha256Hex bytes), world.files⟩, ?_,
            fills_project world _ _ _ _, fun _ => .inr ?_⟩
          · simp [mirrorPage, pageFingerprint, named, held, synced, adoptLegacyFile,
              VaultScope.readPage, setPageProjection, update, statement, startWalking,
              plainEnvironment]
          · simp [Database.stored_setPageProjection, present]
      | some content =>
          by_cases same : recovery.fingerprint bytes = recovery.contentFingerprint content
          · exact ⟨false, report, world, by simp [mirrorPage, pageFingerprint, named, held, synced, same],
              Fills.refl world, by simp⟩
          · refine ⟨false, { report with rerendered := report.rerendered + 1 },
              { world with files := Function.update world.files own (some content) }, ?_,
              ⟨rfl, fun _ => id⟩, by simp⟩
            simp [mirrorPage, pageFingerprint, named, held, synced, same, VaultScope.writePage,
              writeFile, startWalking, plainEnvironment]

variable (report) in
theorem mirrorPages_fills (named : ∀ page ∈ pages, ∃ own, recovery.vault.names page.path own)
    (present : ∀ page ∈ pages, page.path ∈ world.db.paths) :
    ∃ missing counted after,
      recovery.mirrorPages (startWalking []) pages report world = (.ok (missing, counted), after) ∧
        Fills world after ∧
        (missing = true ∨ ∀ page ∈ pages, page.syncContent = none →
          after.db.stored page.path ≠ none) := by
  induction pages generalizing report world with
  | nil => exact ⟨false, report, world, rfl, Fills.refl world, .inr (by simp)⟩
  | cons page pages ih =>
      have ⟨here, later⟩ := List.forall_mem_cons.mp named
      have ⟨stands, rest⟩ := List.forall_mem_cons.mp present
      obtain ⟨missing, counted, between, first, fills, filled⟩ := mirrorPage_fills report
        here stands
      have kept : ∀ page ∈ pages, page.path ∈ between.db.paths := by
        rw [Database.paths_kinds, fills.kinds, ← Database.paths_kinds]
        exact rest
      obtain ⟨others, counted', after, second, fills', filled'⟩ := ih counted later kept
      refine ⟨missing || others, counted', after, ?_, fills.trans fills', ?_⟩
      · simp only [mirrorPages, Call.bind_apply, first, second, Call.pure_apply]
      · obtain rfl | filled' := filled'
        · exact .inl (Bool.or_true missing)
        · cases missing with
          | true => exact .inl (Bool.true_or others)
          | false =>
              refine .inr (List.forall_mem_cons.mpr ⟨fun legacy => ?_, filled'⟩)
              exact fills'.stored _ ((filled legacy).resolve_left (by simp))

variable (report) in
theorem restorePage_fills (named : ∃ own, recovery.vault.names page.path own)
    (present : page.path ∈ world.db.paths) :
    ∃ counted after,
      recovery.restorePage (startWalking []) [] page report world = (.ok counted, after) ∧
        Fills world after ∧ (page.syncContent = none → after.db.stored page.path ≠ none) := by
  obtain ⟨own, named⟩ := named
  rw [VaultScope.names] at named
  cases synced : page.syncContent with
  | some content =>
      refine ⟨{ report with rerendered := report.rerendered + 1 },
        { world with files := Function.update world.files own (some content) }, ?_,
        ⟨rfl, fun _ => id⟩, by simp⟩
      simp [restorePage, locations, stale, dedup, deleteAll, synced, VaultScope.writePage, named,
        writeFile, startWalking, plainEnvironment]
  | none =>
      refine ⟨{ report with rerendered := report.rerendered + 1 },
        ⟨world.db.setPageProjection page.path [] (recovery.sha256Hex []),
          Function.update world.files own (some [])⟩, ?_, fills_project world _ _ _ _, fun _ => ?_⟩
      · simp [restorePage, locations, stale, synced, renderPageFromDb,
          PkmSyncService.writePageAndRev, setPageProjection, update, statement, VaultScope.writePage,
          named, writeFile, startWalking, plainEnvironment]
      · simp [Database.stored_setPageProjection, present]

variable (report) in
theorem restorePages_fills (named : ∀ page ∈ pages, ∃ own, recovery.vault.names page.path own)
    (present : ∀ page ∈ pages, page.path ∈ world.db.paths) :
    ∃ counted after,
      recovery.restorePages (startWalking []) [] pages report world = (.ok counted, after) ∧
        Fills world after ∧
        ∀ page ∈ pages, page.syncContent = none → after.db.stored page.path ≠ none := by
  induction pages generalizing report world with
  | nil => exact ⟨report, world, rfl, Fills.refl world, by simp⟩
  | cons page pages ih =>
      have ⟨here, later⟩ := List.forall_mem_cons.mp named
      have ⟨stands, rest⟩ := List.forall_mem_cons.mp present
      obtain ⟨counted, between, first, fills, filled⟩ := restorePage_fills report here stands
      have kept : ∀ page ∈ pages, page.path ∈ between.db.paths := by
        rw [Database.paths_kinds, fills.kinds, ← Database.paths_kinds]
        exact rest
      obtain ⟨counted', after, second, fills', filled'⟩ := ih counted later kept
      refine ⟨counted', after, ?_, fills.trans fills',
        List.forall_mem_cons.mpr ⟨fun legacy => fills'.stored _ (filled legacy), filled'⟩⟩
      simp only [restorePages, Call.bind_apply, first, second]

theorem reconcileUserFiles_fills (named : ∀ page ∈ pages, ∃ own, recovery.vault.names page.path own)
    (present : ∀ page ∈ pages, page.path ∈ world.db.paths) :
    ∀ page ∈ pages, page.syncContent = none →
      (recovery.reconcileUserFiles (startWalking []) pages world).2.db.stored page.path ≠ none := by
  obtain ⟨missing, counted, between, first, fills, filled⟩ :=
    mirrorPages_fills ⟨0, 0, 0⟩ named present
  have found : (startWalking []).vaultFound = true := rfl
  cases missing with
  | false => simpa [reconcileUserFiles, found, first] using filled
  | true =>
      have kept : ∀ page ∈ pages, page.path ∈ between.db.paths := by
        rw [Database.paths_kinds, fills.kinds, ← Database.paths_kinds]
        exact present
      have listed : recovery.listPageFiles (startWalking []) between.files = [] := rfl
      obtain ⟨counted', after, second, _, filled⟩ :=
        restorePages_fills counted named kept
      simpa [reconcileUserFiles, found, first, listed, second] using filled

theorem inPlace_of_restored {before : World} (unique : world.db.paths.Nodup)
    (named : ∀ page ∈ world.db.internalEntities, ∃ own, recovery.vault.names page.path own)
    (restored : recovery.Restored before world) : recovery.InPlace world := by
  intro page member
  have filled := reconcileUserFiles_fills named (internal_rows unique).present page member
  rw [restored.again, stored_of_mem unique (mem_internalEntities.mp member).1] at filled
  cases synced : page.syncContent with
  | none => exact absurd synced (filled synced)
  | some content =>
      obtain ⟨own, names, there⟩ := restored.projected page member content synced
      exact ⟨own, content, names, rfl, there⟩

end Again

section Whole

variable {recovery boot} {pages : List KnowledgeEntity} {report : ReconcileReport}
  {world after : World}

theorem reconcileUserFiles_cases (found : boot.vaultFound = true)
    (ran : recovery.reconcileUserFiles boot pages world = (.ok report, after)) :
    ∃ missing report' between,
      recovery.mirrorPages boot pages ⟨0, 0, 0⟩ world = (.ok (missing, report'), between) ∧
        (missing = false ∧ after = between ∨ missing = true ∧
          recovery.restorePages boot (recovery.listPageFiles boot between.files) pages report'
            between = (.ok report, after)) := by
  simp only [reconcileUserFiles, found, Bool.not_true, Bool.false_eq_true, if_false] at ran
  obtain ⟨⟨missing, report'⟩, between, first, ran⟩ := Call.bind_ok ran
  refine ⟨missing, report', between, first, ?_⟩
  cases missing with
  | false => exact Or.inl ⟨rfl, (congrArg Prod.snd ran).symm⟩
  | true => exact Or.inr ⟨rfl, ran⟩

theorem bodies_clear (clear : CollisionFree recovery (bodies world)) {outcome : Bool × ReconcileReport}
    {between : World} (unique : world.db.paths.Nodup)
    (ran : recovery.mirrorPages boot world.db.internalEntities report world =
      (.ok outcome, between)) :
    Mirrored recovery world.db.internalEntities outcome.1 world between :=
  mirrorPages_ok clear ran (internal_paths_nodup unique) (internal_rows unique).present
    (fun page member _ synced => Or.inl ⟨page, member, synced⟩) fun key _ there => Or.inr ⟨key, there⟩

theorem inPlace_of_restorable (unique : world.db.paths.Nodup)
    (clear : CollisionFree recovery (bodies world)) (found : boot.vaultFound = true)
    (ran : recovery.reconcileUserFiles boot world.db.internalEntities world = (.ok report, after))
    (restorable : recovery.Restorable boot world) :
    recovery.InPlace after ∧ after.db.kinds = world.db.kinds := by
  rw [Restorable, if_pos found] at restorable
  obtain ⟨missing, report', between, first, ran⟩ := reconcileUserFiles_cases found ran
  have mirror := bodies_clear clear unique first
  have rows := internal_rows unique
  have once : world.db.internalEntities.Nodup := (internal_paths_nodup unique).of_map
  obtain ⟨rfl, rfl⟩ | ⟨rfl, second⟩ := ran
  · have present (page : KnowledgeEntity) (member : page ∈ world.db.internalEntities)
        (own : FileKey) (named : recovery.vault.names page.path own) : world.files own ≠ none := by
      intro gone
      simpa using mirror.missing.mpr ⟨page, member, own, named, gone⟩
    have agreed : recovery.Agreed world.db.internalEntities world.files := by
      obtain ⟨_, agreed⟩ | repairable := restorable
      · exact agreed
      · exact agreed_of_separate repairable.separate once world.files
    refine ⟨inPlace_of_holds unique mirror.kinds mirror.named ?_, mirror.kinds⟩
    intro page member own named
    exact (mirror.agreed_iff rows).mp agreed page member own named (present page member own named)
  · obtain ⟨present, _⟩ | ⟨separate, spared, adoptable⟩ := restorable
    · obtain ⟨page, member, own, named, gone⟩ := mirror.missing.mp rfl
      exact absurd gone (present page member own named)
    · have kinds := (restorePages_kinds second mirror.named).trans mirror.kinds
      have holds := (mirror.agreed_iff rows).mp (agreed_of_separate separate once world.files)
      refine ⟨inPlace_of_holds unique kinds mirror.named ?_, kinds⟩
      intro page member own named
      rw [← mirror.files] at spared adoptable
      refine restorePages_holds second (fun _ => id) once (mirror.keepsRows rows) mirror.named
        separate ?_ adoptable member named
        ((spared page member own named).imp fun there => holds page member own named there)
      intro page member _ own named there
      refine holds page member own named fun gone => there ?_
      rw [mirror.files, mirrored_none gone]

theorem restorable_of_restored (unique : world.db.paths.Nodup)
    (clear : CollisionFree recovery (bodies world)) (found : boot.vaultFound = true)
    (traceable : recovery.Traceable boot world)
    (ran : recovery.reconcileUserFiles boot world.db.internalEntities world = (.ok report, after))
    (restored : recovery.Restored world after) : recovery.Restorable boot world := by
  rw [Restorable, if_pos found]
  obtain ⟨missing, report', between, first, ran⟩ := reconcileUserFiles_cases found ran
  have mirror := bodies_clear clear unique first
  have rows := internal_rows unique
  have once : world.db.internalEntities.Nodup := (internal_paths_nodup unique).of_map
  have kinds : after.db.kinds = world.db.kinds := by
    obtain ⟨_, rfl⟩ | ⟨_, second⟩ := ran
    · exact mirror.kinds
    · exact (restorePages_kinds second mirror.named).trans mirror.kinds
  have unique' : after.db.paths.Nodup := by
    rw [Database.paths_kinds, kinds, ← Database.paths_kinds]
    exact unique
  have inPlace : recovery.InPlace after := by
    refine inPlace_of_restored unique' (fun page member => ?_) restored
    obtain ⟨other, held, path⟩ := internal_of_kinds kinds member
    exact path ▸ mirror.named other held
  have holds (page : KnowledgeEntity) (member : page ∈ world.db.internalEntities) (own : FileKey)
      (named : recovery.vault.names page.path own) : Holds after page own := by
    obtain ⟨other, held, path⟩ := internal_of_kinds kinds.symm member
    obtain ⟨own', content, named', synced, there⟩ := inPlace other held
    obtain rfl := names_inj named (path ▸ named')
    refine ⟨content, ?_, there⟩
    rw [← path, stored_of_mem unique' (mem_internalEntities.mp held).1, synced]
  obtain ⟨rfl, rfl⟩ | ⟨rfl, second⟩ := ran
  · refine .inl ⟨fun page member own named gone => ?_, (mirror.agreed_iff rows).mpr
      fun page member own named _ => holds page member own named⟩
    simpa using mirror.missing.mpr ⟨page, member, own, named, gone⟩
  · obtain ⟨page, member, own, named, gone⟩ := mirror.missing.mp rfl
    have spared : ∀ page ∈ world.db.internalEntities, ∀ own, recovery.vault.names page.path own →
        recovery.Spared boot world.db.internalEntities (recovery.listPageFiles boot
          (recovery.mirrored world.db.internalEntities world.files)) (world.files own ≠ none) own := by
      intro page member own named
      have spared := restorePages_spared second mirror.named named (holds page member own named)
      rw [mirror.files] at spared
      refine spared.imp fun ⟨content, _, there⟩ gone => ?_
      rw [mirror.files, mirrored_none gone] at there
      simp at there
    obtain synced | ⟨_, present | ⟨apart, whole⟩⟩ := traceable
    · refine .inr ⟨?_, spared, fun before page later same legacy => ?_⟩
      · -- pages of one file have the bytes that it has in the end
        have left (page : KnowledgeEntity) (member : page ∈ world.db.internalEntities) (own : FileKey)
            (named : recovery.vault.names page.path own) : after.files own = page.syncContent := by
          obtain ⟨content, stored, there⟩ := holds page member own named
          rw [restorePages_db second mirror.named synced, mirrorPages_db first synced,
            stored_of_mem unique (mem_internalEntities.mp member).1] at stored
          rw [there, stored]
        intro page member other member' own named named'
        exact .inr ⟨(left page member own named).symm.trans (left other member' own named'),
          synced page member⟩
      · exact absurd legacy (synced page (by simp [same]))
    · exact absurd gone (present page member own named)
    · refine .inr ⟨fun page member other member' own named named' =>
        .inl (apart page member other member' own named named'), spared, ?_⟩
      have adoptable := restorePages_adoptable second mirror.named once apart
        (by rwa [mirror.files]) holds
      rwa [mirror.files] at adoptable

end Whole

section Starts

def plainRecovery : Recovery where
  toPkmSyncService := plainService
  fingerprint := id
  recordId id := if id = 1 then "a1".toList else "b2".toList

def markedA : Text := "---\nuid: a1\n---\n".toList

def plainB : Text := "---\nuid: b2\n---\n".toList

def fileA : FileKey := ["Memory".toList, "a.md".toList]

def fileB : FileKey := ["Memory".toList, "b.md".toList]

def fileOld : FileKey := ["Memory".toList, "old.md".toList]

/-- The file of `a` is still at the place that it was moved from. -/
def halfMoved : World where
  db := ⟨[storedPage 2 ['b'] plainB, storedPage 1 ['a'] markedA], [], [], [], 3⟩
  files key := if key = fileOld then some markedA else if key = fileB then some plainB else none

/-- The file of `a` is gone, and its user has pasted its frontmatter into `b`. -/
def copied : World where
  db := ⟨[storedPage 2 ['b'] markedA, storedPage 1 ['a'] markedA], [], [], [], 3⟩
  files key := if key = fileB then some markedA else none

def walkHalfMoved : Boot := startWalking [["old.md".toList], ["b.md".toList]]

def walkCopied : Boot := startWalking [["b.md".toList]]

def repaired (boot : Boot) (world : World) : World :=
  (plainRecovery.reconcileUserFiles boot world.db.internalEntities world).2

theorem plainRecovery_clear (world : World) : CollisionFree plainRecovery (bodies world) :=
  fun _ _ _ _ same => same

theorem halfMoved_repairable :
    plainRecovery.Repairable walkHalfMoved halfMoved.db.internalEntities halfMoved.files := by
  have rows : halfMoved.db.internalEntities =
      [storedPage 2 ['b'] plainB, storedPage 1 ['a'] markedA] := rfl
  have nameA : plainRecovery.vault.names ['a'] fileA := by decide +kernel
  have nameB : plainRecovery.vault.names ['b'] fileB := by decide +kernel
  rw [rows]
  constructor
  · intro page member other member' own named named'
    simp only [List.mem_cons, List.not_mem_nil, or_false] at member member'
    obtain rfl | rfl := member <;> obtain rfl | rfl := member'
    · exact Or.inl rfl
    · obtain rfl := names_inj named nameB
      exact absurd (names_inj named' nameA) (by decide +kernel)
    · obtain rfl := names_inj named nameA
      exact absurd (names_inj named' nameB) (by decide +kernel)
    · exact Or.inl rfl
  · intro page member own named
    simp only [List.mem_cons, List.not_mem_nil, or_false] at member
    obtain rfl | rfl := member
    · obtain rfl := names_inj named nameB
      exact Or.inr (by decide +kernel)
    · obtain rfl := names_inj named nameA
      exact Or.inl ⟨[storedPage 2 ['b'] plainB], storedPage 1 ['a'] markedA, [], rfl, nameA,
        by decide +kernel⟩
  · intro before page after same legacy
    have member : page ∈ [storedPage 2 ['b'] plainB, storedPage 1 ['a'] markedA] := by
      simp [same]
    simp only [List.mem_cons, List.not_mem_nil, or_false] at member
    obtain rfl | rfl := member <;> simp [storedPage] at legacy

end Starts

end Recovery

end Frona.Pkm
