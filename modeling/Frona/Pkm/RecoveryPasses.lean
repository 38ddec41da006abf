import Frona.Pkm.RecoverySpec

set_option autoImplicit false

namespace Frona.Pkm

open Utf8 (Text)

namespace Recovery

variable (recovery : Recovery) (boot : Boot)

def Holds (world : World) (page : KnowledgeEntity) (own : FileKey) : Prop :=
  ∃ content, world.db.stored page.path = some content ∧ world.files own = some content

def lastBytes (pages : List KnowledgeEntity) (key : FileKey) (held : Text) : Text :=
  pages.foldl (fun held page =>
    if recovery.vault.names page.path key then page.syncContent.getD held else held) held

def mirrored (pages : List KnowledgeEntity) (files : Files) : Files := fun key =>
  (files key).map (recovery.lastBytes pages key)

section Condition

variable (pages : List KnowledgeEntity) (listed : List (Text × Option Text)) (files : Files)

def Separate : Prop :=
  ∀ page ∈ pages, ∀ other ∈ pages, ∀ own, recovery.vault.names page.path own →
    recovery.vault.names other.path own →
      page = other ∨ page.syncContent = other.syncContent ∧ page.syncContent ≠ none

def Spared (stands : Prop) (key : FileKey) : Prop :=
  (∃ before page after, pages = before ++ page :: after ∧ recovery.vault.names page.path key ∧
      recovery.Rewrites listed page ∧
      ∀ later ∈ page :: after, ¬ recovery.Erases boot listed later key) ∨
    stands ∧ ∀ page ∈ pages, ¬ recovery.Erases boot listed page key

def Stays (before : List KnowledgeEntity) (key : FileKey) : Prop :=
  files key ≠ none ∧ ∀ earlier ∈ before, ¬ recovery.Erases boot listed earlier key

def Absent (before : List KnowledgeEntity) (key : FileKey) : Prop :=
  ¬ recovery.Stays boot listed files before key ∧
    ∀ earlier ∈ before, ¬ recovery.vault.names earlier.path key

def Adoptable : Prop :=
  ∀ before page after, pages = before ++ page :: after → page.syncContent = none →
    recovery.Rewrites listed page → ∀ own, recovery.vault.names page.path own →
      match recovery.stale listed page with
      | [] =>
          boot.refuses (.pageProjection page.path) = true ∧
              recovery.Stays boot listed files before own ∨
            boot.refuses (.pageProjection page.path) = false ∧ boot.accepts own = true
      | source :: _ =>
          (boot.accepts own = true ∧ ∃ key, recovery.vault.names source key ∧
              boot.removes key = true ∧ recovery.Stays boot listed files before key) ∨
            recovery.Stays boot listed files before own ∧
              (boot.accepts own = true → ∀ key, recovery.vault.names source key →
                boot.removes key = true ∨ recovery.Absent boot listed files before key)

/-- No two pages have one file. -/
def Apart : Prop :=
  ∀ page ∈ pages, ∀ other ∈ pages, ∀ own, recovery.vault.names page.path own →
    recovery.vault.names other.path own → page = other

def Whole : Prop :=
  ∀ page ∈ pages, page.syncContent = none → recovery.Rewrites listed page →
    ∀ own, recovery.vault.names page.path own →
      match recovery.stale listed page with
      | [] => boot.refuses (.pageProjection page.path) = false → boot.accepts own = true
      | source :: _ => boot.accepts own = true → ∀ key, recovery.vault.names source key →
          boot.removes key = true

end Condition

section Spared

variable {recovery boot} {listed : List (Text × Option Text)} {page : KnowledgeEntity}
  {rest : List KnowledgeEntity} {stands : Prop} {key : FileKey}

theorem spared_nil : recovery.Spared boot [] listed stands key ↔ stands := by
  simp [Spared]

theorem spared_cons :
    recovery.Spared boot (page :: rest) listed stands key ↔
      recovery.Spared boot rest listed (¬ recovery.Erases boot listed page key ∧
        (recovery.vault.names page.path key ∧ recovery.Rewrites listed page ∨ stands)) key := by
  constructor
  · intro spared
    obtain ⟨before, writer, after, same, named, rewrites, safe⟩ | ⟨stands, safe⟩ := spared
    · cases before with
      | nil =>
          obtain ⟨rfl, rfl⟩ := List.cons.inj same
          have ⟨here, later⟩ := List.forall_mem_cons.mp safe
          exact Or.inr ⟨⟨here, Or.inl ⟨named, rewrites⟩⟩, later⟩
      | cons first before =>
          obtain ⟨rfl, rfl⟩ := List.cons.inj same
          exact Or.inl ⟨before, writer, after, rfl, named, rewrites, safe⟩
    · have ⟨here, later⟩ := List.forall_mem_cons.mp safe
      exact Or.inr ⟨⟨here, Or.inr stands⟩, later⟩
  · intro spared
    obtain ⟨before, writer, after, same, named, rewrites, safe⟩ | ⟨⟨here, held⟩, later⟩ := spared
    · exact Or.inl ⟨page :: before, writer, after, by simp [same], named, rewrites, safe⟩
    · have safe : ∀ other ∈ page :: rest, ¬ recovery.Erases boot listed other key :=
        List.forall_mem_cons.mpr ⟨here, later⟩
      obtain ⟨named, rewrites⟩ | stands := held
      · exact Or.inl ⟨[], page, rest, rfl, named, rewrites, safe⟩
      · exact Or.inr ⟨stands, safe⟩

theorem Spared.imp {stands' : Prop} (spared : recovery.Spared boot rest listed stands key)
    (weaker : stands → stands') : recovery.Spared boot rest listed stands' key :=
  spared.imp_right fun ⟨held, safe⟩ => ⟨weaker held, safe⟩

end Spared

section Step

variable {recovery boot} {listed : List (Text × Option Text)} {page : KnowledgeEntity}
  {report counted : ReconcileReport} {world after : World} {key own start : FileKey}

theorem names_inj {path : Text} {own other : FileKey} (first : recovery.vault.names path own)
    (second : recovery.vault.names path other) : own = other :=
  Except.ok.inj (first.symm.trans second)

theorem erased_eq (copies : List Text) (files : Files)
    (kept : ¬(boot.removes key = true ∧ ∃ copy ∈ copies, recovery.vault.names copy key)) :
    recovery.vault.erased boot.toEnvironment copies files key = files key := if_neg kept

theorem movedFile_at {source target content : Text} (files : Files)
    (found : recovery.vault.names source start) (named : recovery.vault.names target own)
    (held : files start = some content) (accepted : boot.accepts own = true) (key : FileKey) :
    recovery.vault.movedFile boot.toEnvironment (source, target) files key =
      if key = start ∧ boot.removes start = true then none
      else if key = own then some content else files key := by
  have keyed : recovery.vault.keyedMove (source, target) = some (start, own) :=
    (recovery.vault.keyedMove_eq_some _ _).mpr ⟨found, named⟩
  simp only [VaultScope.movedFile, keyed]
  exact Moves.moveOne_at boot.accepts boot.removes (start, own) files held accepted key

theorem movedFile_stays {source target : Text} (files : Files)
    (stays : ∀ start, recovery.vault.names source start → ∀ own, recovery.vault.names target own →
      files start = none ∨ boot.accepts own = false) :
    recovery.vault.movedFile boot.toEnvironment (source, target) files = files := by
  cases keyed : recovery.vault.keyedMove (source, target) with
  | none => simp only [VaultScope.movedFile, keyed]
  | some keys =>
      obtain ⟨found, named⟩ := (recovery.vault.keyedMove_eq_some _ _).mp keyed
      simp only [VaultScope.movedFile, keyed]
      exact Moves.moveOne_stays _ _ _ _ (stays keys.1 found keys.2 named)

theorem movePageFile_result {source target content : Text}
    (found : recovery.vault.names source start) (named : recovery.vault.names target own)
    (held : world.files start = some content) :
    (recovery.vault.movePageFile boot.toEnvironment source target world).1 =
      if boot.accepts own = true then
        if boot.removes start = true then .ok () else .error (.internal pageDeleteFailed)
      else .error (.internal writeFailed) := by
  have read : recovery.vault.readPage source world.files = some content :=
    (recovery.vault.readPage_eq_some _ _ _).mpr ⟨start, found, held⟩
  have stands : (Function.update world.files own (some content) start).isSome = true := by
    by_cases same : start = own <;> simp [same, held]
  rw [VaultScope.names] at named found
  cases accepted : boot.accepts own <;> cases removed : boot.removes start <;>
    simp [VaultScope.movePageFile, read, VaultScope.writePage, named, writeFile, accepted,
      VaultScope.deletePage, found, removeFile, removed, stands]

theorem movePageFile_absent {source target : Text}
    (absent : ∀ start, recovery.vault.names source start → world.files start = none) :
    recovery.vault.movePageFile boot.toEnvironment source target world = (.ok (), world) := by
  have read : recovery.vault.readPage source world.files = none := by
    cases read : recovery.vault.readPage source world.files with
    | none => rfl
    | some content =>
        obtain ⟨start, found, held⟩ := (recovery.vault.readPage_eq_some _ _ _).mp read
        simp [absent start found] at held
  simp [VaultScope.movePageFile, read]

structure Step (recovery : Recovery) (boot : Boot) (listed : List (Text × Option Text))
    (page : KnowledgeEntity) (world after : World) : Prop where
  kept : ∀ key, ¬ recovery.Erases boot listed page key → ¬ recovery.vault.names page.path key →
    after.files key = world.files key
  stands : ∀ key, ¬ recovery.Erases boot listed page key → world.files key ≠ none →
    after.files key ≠ none
  gone : ∀ key, recovery.Erases boot listed page key → after.files key = none
  rows : ∀ path, path ≠ page.path → after.db.stored path = world.db.stored path
  kinds : after.db.kinds = world.db.kinds
  synced : page.syncContent ≠ none → after.db = world.db

theorem stored_other (db : Database) {path other : Text} (content rev : Text)
    (apart : other ≠ path) : (db.setPageProjection path content rev).stored other = db.stored other := by
  simp [Database.stored_setPageProjection, apart]

variable (boot) in
theorem relocated_files {source : Text} {copies : List Text}
    (rewrites : recovery.Rewrites listed page) (legacy : page.syncContent = none)
    (found : recovery.stale listed page = source :: copies)
    (named : recovery.vault.names page.path own) (files : Files) (key : FileKey) :
    (recovery.Erases boot listed page key →
      recovery.vault.erased boot.toEnvironment copies
        (recovery.vault.movedFile boot.toEnvironment (source, page.path) files) key = none) ∧
    (¬ recovery.Erases boot listed page key →
      recovery.vault.erased boot.toEnvironment copies
          (recovery.vault.movedFile boot.toEnvironment (source, page.path) files) key =
        recovery.vault.movedFile boot.toEnvironment (source, page.path) files key ∧
      (files key ≠ none →
        recovery.vault.movedFile boot.toEnvironment (source, page.path) files key ≠ none) ∧
      (key ≠ own →
        recovery.vault.movedFile boot.toEnvironment (source, page.path) files key = files key)) := by
  have takes := recovery.takes_of_names boot named
  have copied : (∃ copy ∈ copies, recovery.vault.names copy key) →
      ∃ copy ∈ recovery.discards boot listed page, recovery.vault.names copy key := by
    rintro ⟨copy, member, named⟩
    refine ⟨copy, ?_, named⟩
    rw [discards, found]
    split
    · exact member
    · exact List.mem_cons_of_mem _ member
  have moved : boot.accepts own = true → recovery.vault.names source key →
      ∃ copy ∈ recovery.discards boot listed page, recovery.vault.names copy key := by
    intro accepted named
    refine ⟨source, ?_, named⟩
    rw [discards, if_neg, found]
    · exact List.mem_cons_self
    · simp [takes, accepted]
  constructor
  · rintro ⟨removed, copy, member, names⟩
    rw [VaultScope.erased]
    split
    · rfl
    · next other =>
      -- the copy that is deleted is the one that the page is moved from
      have accepted : boot.accepts own = true := by
        by_contra refused
        rw [discards, if_pos ⟨rewrites, legacy, by simpa [takes] using refused⟩, found] at member
        exact other ⟨removed, copy, member, names⟩
      obtain rfl : copy = source := by
        rw [discards, if_neg (by simp [takes, accepted]), found, List.mem_cons] at member
        exact member.resolve_right fun later => other ⟨removed, copy, later, names⟩
      cases held : files key with
      | none =>
          rw [movedFile_stays files fun start found _ _ => .inl (names_inj names found ▸ held), held]
      | some content =>
          rw [movedFile_at files names named held accepted, if_pos ⟨rfl, removed⟩]
  · intro spared
    have unmoved (start : FileKey) (accepted : boot.accepts own = true)
        (source' : recovery.vault.names source start) :
        ¬(key = start ∧ boot.removes start = true) := by
      rintro ⟨rfl, removed⟩
      exact spared ⟨removed, moved accepted source'⟩
    refine ⟨erased_eq copies _ fun both => spared ⟨both.1, copied both.2⟩, ?_, ?_⟩
    · intro present
      by_cases stays : ∀ start, recovery.vault.names source start → ∀ own,
          recovery.vault.names page.path own → files start = none ∨ boot.accepts own = false
      · rwa [movedFile_stays files stays]
      · simp only [not_forall, not_or] at stays
        obtain ⟨start, source', own', named', filled, accepted⟩ := stays
        obtain rfl := names_inj named named'
        obtain ⟨content, held⟩ := Option.ne_none_iff_exists'.mp filled
        have accepted : boot.accepts own = true := by simpa using accepted
        rw [movedFile_at files source' named held accepted, if_neg (unmoved start accepted source')]
        split
        · simp
        · exact present
    · intro apart
      by_cases stays : ∀ start, recovery.vault.names source start → ∀ own,
          recovery.vault.names page.path own → files start = none ∨ boot.accepts own = false
      · rw [movedFile_stays files stays]
      · simp only [not_forall, not_or] at stays
        obtain ⟨start, source', own', named', filled, accepted⟩ := stays
        obtain rfl := names_inj named named'
        obtain ⟨content, held⟩ := Option.ne_none_iff_exists'.mp filled
        have accepted : boot.accepts own = true := by simpa using accepted
        rw [movedFile_at files source' named held accepted, if_neg (unmoved start accepted source'),
          if_neg apart]

theorem step_relocated {source : Text} {copies : List Text} {between : World}
    (rewrites : recovery.Rewrites listed page) (legacy : page.syncContent = none)
    (found : recovery.stale listed page = source :: copies)
    (named : recovery.vault.names page.path own)
    (moved : recovery.relocate boot page source report world = (.ok counted, between)) :
    Step recovery boot listed page world { between with
      files := recovery.vault.erased boot.toEnvironment copies between.files } := by
  have ⟨files, outcome⟩ := relocate_ok moved
  have spares := relocated_files boot rewrites legacy found named world.files
  have db : between.db = world.db ∨ ∃ content rev,
      between.db = world.db.setPageProjection page.path content rev := by
    split at outcome
    · exact Or.inl outcome
    · cases read : recovery.vault.readPage page.path between.files with
      | none => exact Or.inl (by rw [outcome, read])
      | some content => exact Or.inr ⟨content, _, by rw [outcome, read]⟩
  constructor
  · intro key spared other
    have apart : key ≠ own := by
      rintro rfl
      exact other named
    have kept := (spares key).2 spared
    simp only [files, kept.1, kept.2.2 apart]
  · intro key spared present
    have kept := (spares key).2 spared
    simpa only [files, kept.1] using kept.2.1 present
  · intro key erases
    simpa only [files] using (spares key).1 erases
  · intro path apart
    obtain same | ⟨content, rev, same⟩ := db
    · simp only [same]
    · simp only [same, stored_other _ _ _ apart]
  · obtain same | ⟨content, rev, same⟩ := db
    · simp only [same]
    · simp only [same, Database.kinds_setPageProjection]
  · exact fun synced => absurd legacy synced

theorem step_rendered (legacy : page.syncContent = none)
    (none' : recovery.stale listed page = []) (content : Text) :
    Step recovery boot listed page world
      (recovery.writePageAndRev boot.toEnvironment page.path content world).2 := by
  have spared (key : FileKey) : ¬ recovery.Erases boot listed page key := by
    rintro ⟨_, copy, member, _⟩
    simp [discards, none'] at member
  rw [writePageAndRev_after]
  split
  · exact ⟨by simp, by simp, fun key erases => absurd erases (spared key), by simp, rfl, fun _ => rfl⟩
  · refine ⟨?_, ?_, fun key erases => absurd erases (spared key),
      fun path apart => stored_other _ _ _ apart,
      Database.kinds_setPageProjection _ _ _ _, fun synced => absurd legacy synced⟩
    · intro key _ other
      cases named : recovery.vault.pageKey page.path with
      | error error => simp only [VaultScope.writtenFile, named]
      | ok own =>
          have apart : key ≠ own := by
            intro same
            exact other (same ▸ named)
          by_cases accepted : boot.accepts own <;>
            simp [VaultScope.writtenFile, named, accepted, apart]
    · intro key _ present
      cases named : recovery.vault.pageKey page.path with
      | error error => simpa only [VaultScope.writtenFile, named]
      | ok own =>
          by_cases accepted : boot.accepts own
          · by_cases same : key = own <;>
              simp [VaultScope.writtenFile, named, accepted, same, present]
          · simpa [VaultScope.writtenFile, named, accepted]

theorem restorePage_step (named : recovery.vault.names page.path own)
    (ran : recovery.restorePage boot listed page report world = (.ok counted, after)) :
    Step recovery boot listed page world after := by
  by_cases rewrites : recovery.Rewrites listed page
  · cases synced : page.syncContent with
    | some content =>
        obtain ⟨db, own, named, files⟩ := restorePage_rewritten rewrites synced ran
        constructor
        · intro key spared other
          have apart : key ≠ own := by
            intro same
            exact other (same ▸ named)
          rw [files, if_neg spared, if_neg apart]
        · intro key spared present
          rw [files, if_neg spared]
          split
          · simp
          · exact present
        · intro key erases
          rw [files, if_pos erases]
        · simp [db]
        · rw [db]
        · exact fun _ => db
    | none =>
        cases found : recovery.stale listed page with
        | nil =>
            rw [restorePage_rendered rewrites synced found ran]
            exact step_rendered synced found _
        | cons source copies =>
            obtain ⟨counted', between, moved, rfl⟩ :=
              restorePage_relocated rewrites synced found ran
            exact step_relocated rewrites synced found named moved
  · obtain ⟨db, files⟩ := restorePage_settled rewrites ran
    constructor
    · intro key spared other
      rw [files, if_neg spared]
    · intro key spared present
      rw [files, if_neg spared]
      exact present
    · intro key erases
      rw [files, if_pos erases]
    · simp [db]
    · rw [db]
    · exact fun _ => db

def AdoptableNow (recovery : Recovery) (boot : Boot) (listed : List (Text × Option Text))
    (page : KnowledgeEntity) (own : FileKey) (world : World) : Prop :=
  match recovery.stale listed page with
  | [] =>
      boot.refuses (.pageProjection page.path) = true ∧ Holds world page own ∨
        boot.refuses (.pageProjection page.path) = false ∧ boot.accepts own = true
  | source :: _ =>
      (boot.accepts own = true ∧ ∃ key, recovery.vault.names source key ∧
          boot.removes key = true ∧ world.files key ≠ none) ∨
        Holds world page own ∧
          (boot.accepts own = true → ∀ key, recovery.vault.names source key →
            boot.removes key = true ∨ world.files key = none)

theorem relocate_holds {source : Text}
    (moved : recovery.relocate boot page source report world = (.ok counted, after))
    (present : page.path ∈ world.db.paths) (named : recovery.vault.names page.path own)
    (accepted : boot.accepts own = true) (found : recovery.vault.names source start)
    (removed : boot.removes start = true) (there : world.files start ≠ none) (apart : own ≠ start) :
    Holds after page own := by
  obtain ⟨content, held⟩ := Option.ne_none_iff_exists'.mp there
  obtain ⟨files, outcome⟩ := relocate_ok moved
  have here : after.files own = some content := by
    rw [files, movedFile_at world.files found named held accepted, if_neg fun gone => apart gone.1,
      if_pos rfl]
  have read : recovery.vault.readPage page.path after.files = some content :=
    (recovery.vault.readPage_eq_some _ _ _).mpr ⟨own, named, here⟩
  rw [movePageFile_result found named held, if_pos accepted, if_pos removed] at outcome
  simp only [read] at outcome
  refine ⟨content, ?_, here⟩
  rw [outcome, Database.stored_setPageProjection, if_pos ⟨rfl, present⟩]

theorem relocate_idle {source : Text}
    (moved : recovery.relocate boot page source report world = (.ok counted, after))
    (present : page.path ∈ world.db.paths) (named : recovery.vault.names page.path own)
    (holds : Holds world page own)
    (idle : boot.accepts own = true → ∀ start, recovery.vault.names source start →
      world.files start = none) : Holds after page own := by
  obtain ⟨content, stored, here⟩ := holds
  obtain ⟨files, outcome⟩ := relocate_ok moved
  have same : after.files = world.files := by
    rw [files, movedFile_stays]
    intro start found own' named'
    obtain rfl := names_inj named named'
    cases accepted : boot.accepts own with
    | false => exact .inr rfl
    | true => exact .inl (idle accepted start found)
  by_cases absent : ∀ start, recovery.vault.names source start → world.files start = none
  · have read : recovery.vault.readPage page.path after.files = some content :=
      (recovery.vault.readPage_eq_some _ _ _).mpr ⟨own, named, by rw [same, here]⟩
    rw [movePageFile_absent absent] at outcome
    simp only [read] at outcome
    refine ⟨content, ?_, by rw [same, here]⟩
    rw [outcome, Database.stored_setPageProjection, if_pos ⟨rfl, present⟩]
  · obtain ⟨start, found, filled⟩ : ∃ start, recovery.vault.names source start ∧
        world.files start ≠ none := by simpa using absent
    obtain ⟨bytes, held⟩ := Option.ne_none_iff_exists'.mp filled
    have refused : ¬ boot.accepts own = true := fun accepted => filled (idle accepted start found)
    rw [movePageFile_result found named held, if_neg refused] at outcome
    exact ⟨content, by rw [outcome, stored], by rw [same, here]⟩

theorem restorePage_adopts (rewrites : recovery.Rewrites listed page)
    (legacy : page.syncContent = none)
    (ran : recovery.restorePage boot listed page report world = (.ok counted, after))
    (present : page.path ∈ world.db.paths) (named : recovery.vault.names page.path own)
    (spared : ¬ recovery.Erases boot listed page own)
    (ready : AdoptableNow recovery boot listed page own world) : Holds after page own := by
  cases found : recovery.stale listed page with
  | nil =>
      simp only [AdoptableNow, found] at ready
      rw [restorePage_rendered rewrites legacy found ran, writePageAndRev_after]
      obtain ⟨refused, holds⟩ | ⟨taken, accepted⟩ := ready
      · rwa [if_pos refused]
      · rw [if_neg (by simp [taken])]
        refine ⟨_, by rw [Database.stored_setPageProjection, if_pos ⟨rfl, present⟩], ?_⟩
        rw [VaultScope.names] at named
        simp [VaultScope.writtenFile, named, accepted]
  | cons source copies =>
      simp only [AdoptableNow, found] at ready
      obtain ⟨counted', between, moved, rfl⟩ := restorePage_relocated rewrites legacy found ran
      have discarded (accepted : boot.accepts own = true) :
          recovery.discards boot listed page = source :: copies := by
        rw [discards, if_neg (by simp [recovery.takes_of_names boot named, accepted]), found]
      have apart (accepted : boot.accepts own = true) (start : FileKey)
          (source' : recovery.vault.names source start) (removed : boot.removes start = true) :
          own ≠ start := by
        rintro rfl
        exact spared ⟨removed, source, by simp [discarded accepted], source'⟩
      have kept (holds : Holds between page own) : Holds { between with
          files := recovery.vault.erased boot.toEnvironment copies between.files } page own := by
        obtain ⟨content, stored, here⟩ := holds
        refine ⟨content, stored, ?_⟩
        have untouched := (relocated_files boot rewrites legacy found named world.files own).2
          spared
        rw [(relocate_ok moved).1] at here ⊢
        exact untouched.1.trans here
      apply kept
      obtain ⟨accepted, start, source', removed, there⟩ | ⟨holds, safe⟩ := ready
      · exact relocate_holds moved present named accepted source' removed there
          (apart accepted start source' removed)
      · by_cases goes : boot.accepts own = true ∧ ∃ start, recovery.vault.names source start ∧
            world.files start ≠ none
        · obtain ⟨accepted, start, source', there⟩ := goes
          have removed := (safe accepted start source').resolve_right there
          exact relocate_holds moved present named accepted source' removed there
            (apart accepted start source' removed)
        · refine relocate_idle moved present named holds fun accepted start source' => ?_
          by_contra there
          exact goes ⟨accepted, start, source', there⟩

theorem restorePage_keeps {other : KnowledgeEntity} {mine : FileKey}
    (ran : recovery.restorePage boot listed page report world = (.ok counted, after))
    (mine' : recovery.vault.names page.path mine)
    (present : page.path ∈ world.db.paths) (named : recovery.vault.names other.path own)
    (separate : recovery.vault.names page.path own →
      page = other ∨ page.syncContent = other.syncContent ∧ page.syncContent ≠ none)
    (stored : ∀ content, other.syncContent = some content →
      world.db.stored other.path = some content)
    (ready : page.syncContent = none → recovery.Rewrites listed page →
      recovery.vault.names page.path own → AdoptableNow recovery boot listed page own world)
    (spared : ¬ recovery.Erases boot listed page own)
    (before : recovery.vault.names page.path own ∧ recovery.Rewrites listed page ∨
      Holds world other own) : Holds after other own := by
  by_cases here : recovery.vault.names page.path own
  · by_cases rewrites : recovery.Rewrites listed page
    · cases synced : page.syncContent with
      | some content =>
          obtain ⟨db, own', named', files⟩ := restorePage_rewritten rewrites synced ran
          obtain rfl := names_inj here named'
          have same : other.syncContent = some content := by
            obtain rfl | ⟨same, _⟩ := separate here
            · exact synced
            · rw [← same, synced]
          exact ⟨content, by rw [db, stored content same], by simp [files, spared]⟩
      | none =>
          obtain rfl : page = other := by simpa [synced] using separate here
          exact restorePage_adopts rewrites synced ran present here spared
            (ready synced rewrites here)
    · have ⟨content, stored, held⟩ : Holds world other own := by simpa [rewrites] using before
      obtain ⟨db, files⟩ := restorePage_settled rewrites ran
      exact ⟨content, by rw [db, stored], by rw [files, if_neg spared, held]⟩
  · have ⟨content, stored, held⟩ : Holds world other own := by simpa [here] using before
    have step := restorePage_step mine' ran
    have apart : other.path ≠ page.path := by
      intro same
      exact here (same ▸ named)
    exact ⟨content, by rw [step.rows _ apart, stored], by rw [step.kept own spared here, held]⟩

theorem restorePage_kept {other : KnowledgeEntity} {mine : FileKey}
    (ran : recovery.restorePage boot listed page report world = (.ok counted, after))
    (mine' : recovery.vault.names page.path mine)
    (named : recovery.vault.names other.path own) (holds : Holds after other own) :
    ¬ recovery.Erases boot listed page own ∧
      (recovery.vault.names page.path own ∧ recovery.Rewrites listed page ∨
        Holds world other own) := by
  obtain ⟨bytes, stored, held⟩ := holds
  have step := restorePage_step mine' ran
  have spared : ¬ recovery.Erases boot listed page own := by
    intro erases
    simp [step.gone own erases] at held
  refine ⟨spared, ?_⟩
  by_cases here : recovery.vault.names page.path own
  · by_cases rewrites : recovery.Rewrites listed page
    · exact Or.inl ⟨here, rewrites⟩
    · obtain ⟨db, files⟩ := restorePage_settled rewrites ran
      rw [files, if_neg spared] at held
      exact Or.inr ⟨bytes, by rw [← db, stored], held⟩
  · have apart : other.path ≠ page.path := by
      intro same
      exact here (same ▸ named)
    rw [step.kept own spared here] at held
    exact Or.inr ⟨bytes, by rw [← step.rows _ apart, stored], held⟩

end Step

section Passes

variable {recovery boot} {listed : List (Text × Option Text)} {pages rest : List KnowledgeEntity}
  {page other : KnowledgeEntity} {own key : FileKey} {report counted : ReconcileReport}
  {world after : World} {files left : Files}

structure Rows (pages : List KnowledgeEntity) (db : Database) : Prop where
  unique : ∀ page ∈ pages, ∀ other ∈ pages, page.path = other.path → page = other
  present : ∀ page ∈ pages, page.path ∈ db.paths
  stored : ∀ page ∈ pages, ∀ content, page.syncContent = some content →
    db.stored page.path = some content

theorem Rows.step (rows : Rows pages world.db) (member : page ∈ pages)
    (step : Step recovery boot listed page world after) : Rows pages after.db := by
  refine ⟨rows.unique, ?_, ?_⟩
  · intro other held
    rw [Database.paths_kinds, step.kinds, ← Database.paths_kinds]
    exact rows.present other held
  · intro other held content synced
    by_cases same : other.path = page.path
    · obtain rfl := rows.unique other held page member same
      rw [step.synced (by simp [synced])]
      exact rows.stored other held content synced
    · rw [step.rows _ same]
      exact rows.stored other held content synced

theorem Stays.step {before : List KnowledgeEntity}
    (stays : recovery.Stays boot listed files (page :: before) key)
    (stands : ∀ key, ¬ recovery.Erases boot listed page key → files key ≠ none → left key ≠ none) :
    recovery.Stays boot listed left before key := by
  have ⟨here, earlier⟩ := List.forall_mem_cons.mp stays.2
  exact ⟨stands key here stays.1, earlier⟩

theorem Absent.step {before : List KnowledgeEntity}
    (absent : recovery.Absent boot listed world.files (page :: before) key)
    (step : Step recovery boot listed page world after) :
    recovery.Absent boot listed after.files before key := by
  have ⟨here, earlier⟩ := List.forall_mem_cons.mp absent.2
  refine ⟨fun stays => ?_, earlier⟩
  have spared : ¬ recovery.Erases boot listed page key := by
    intro erases
    exact stays.1 (step.gone key erases)
  apply absent.1
  exact ⟨step.kept key spared here ▸ stays.1, List.forall_mem_cons.mpr ⟨spared, stays.2⟩⟩

theorem Adoptable.step
    (adoptable : recovery.Adoptable boot (page :: rest) listed world.files)
    (step : Step recovery boot listed page world after) :
    recovery.Adoptable boot rest listed after.files := by
  intro before later after' same legacy rewrites own named
  have ready := adoptable (page :: before) later after' (by simp [same]) legacy rewrites own named
  cases found : recovery.stale listed later with
  | nil =>
      simp only [found] at ready ⊢
      exact ready.imp_left fun ⟨refused, stays⟩ => ⟨refused, stays.step step.stands⟩
  | cons source copies =>
      simp only [found] at ready ⊢
      refine ready.imp ?_ ?_
      · rintro ⟨accepted, key, names, removed, stays⟩
        exact ⟨accepted, key, names, removed, stays.step step.stands⟩
      · rintro ⟨stays, safe⟩
        exact ⟨stays.step step.stands, fun accepted key names =>
          (safe accepted key names).imp_right fun absent => absent.step step⟩

def Waiting (recovery : Recovery) (rest : List KnowledgeEntity) (world : World) : Prop :=
  ∀ page ∈ rest, page.syncContent = none → ∀ own, recovery.vault.names page.path own →
    world.files own ≠ none → Holds world page own

theorem Waiting.step (waiting : Waiting recovery (page :: rest) world)
    (separate : recovery.Separate (page :: rest)) (fresh : page ∉ rest)
    (step : Step recovery boot listed page world after) : Waiting recovery rest after := by
  intro other member legacy own named filled
  have spared : ¬ recovery.Erases boot listed page own := by
    intro erases
    exact filled (step.gone own erases)
  have apart : ¬ recovery.vault.names page.path own := by
    intro shared
    obtain same | ⟨same, synced⟩ := separate page List.mem_cons_self other
      (List.mem_cons_of_mem _ member) own shared named
    · exact fresh (same ▸ member)
    · exact synced (same.trans legacy)
  have path : other.path ≠ page.path := by
    intro same
    exact apart (same ▸ named)
  have kept := step.kept own spared apart
  obtain ⟨content, stored, held⟩ := waiting other (List.mem_cons_of_mem _ member) legacy own named
    (kept ▸ filled)
  exact ⟨content, by rw [step.rows _ path, stored], by rw [kept, held]⟩

theorem adoptableNow_of_adoptable (waiting : Waiting recovery (page :: rest) world)
    (adoptable : recovery.Adoptable boot (page :: rest) listed world.files)
    (legacy : page.syncContent = none) (rewrites : recovery.Rewrites listed page)
    (named : recovery.vault.names page.path own) :
    AdoptableNow recovery boot listed page own world := by
  have ready := adoptable [] page rest rfl legacy rewrites own named
  have holds (stays : recovery.Stays boot listed world.files [] own) : Holds world page own :=
    waiting page List.mem_cons_self legacy own named stays.1
  rw [AdoptableNow]
  cases found : recovery.stale listed page with
  | nil =>
      simp only [found] at ready ⊢
      exact ready.imp_left fun ⟨refused, stays⟩ => ⟨refused, holds stays⟩
  | cons source copies =>
      simp only [found] at ready ⊢
      refine ready.imp ?_ ?_
      · rintro ⟨accepted, key, names, removed, stays⟩
        exact ⟨accepted, key, names, removed, stays.1⟩
      · rintro ⟨stays, safe⟩
        refine ⟨holds stays, fun accepted key names => (safe accepted key names).imp_right ?_⟩
        intro absent
        by_contra there
        exact absent.1 ⟨there, by simp⟩

theorem restorePages_holds
    (ran : recovery.restorePages boot listed rest report world = (.ok counted, after))
    (within : ∀ page ∈ rest, page ∈ pages) (once : rest.Nodup) (rows : Rows pages world.db)
    (files : ∀ page ∈ pages, ∃ own, recovery.vault.names page.path own)
    (separate : recovery.Separate pages) (waiting : Waiting recovery rest world)
    (adoptable : recovery.Adoptable boot rest listed world.files) (member : other ∈ pages)
    (named : recovery.vault.names other.path own)
    (spared : recovery.Spared boot rest listed (Holds world other own) own) :
    Holds after other own := by
  induction rest generalizing report world with
  | nil =>
      obtain rfl := congrArg Prod.snd ran
      exact spared_nil.mp spared
  | cons page rest ih =>
      obtain ⟨report', between, first, ran⟩ := Call.bind_ok ran
      have here := within page List.mem_cons_self
      obtain ⟨mine, mine'⟩ := files page here
      have step := restorePage_step mine' first
      have ⟨fresh, once⟩ := List.nodup_cons.mp once
      have apart : recovery.Separate (page :: rest) := fun page member other member' =>
        separate page (within page member) other (within other member')
      refine ih ran (fun page member => within page (List.mem_cons_of_mem _ member)) once
        (rows.step here step) (waiting.step apart fresh step) (adoptable.step step) ?_
      refine (spared_cons.mp spared).imp fun ⟨safe, before⟩ => ?_
      exact restorePage_keeps first mine' (rows.present page here) named
        (fun same => separate page here other member own same named) (rows.stored other member)
        (fun legacy rewrites => adoptableNow_of_adoptable waiting adoptable legacy rewrites)
        safe before

theorem restorePages_db
    (ran : recovery.restorePages boot listed rest report world = (.ok counted, after))
    (files : ∀ page ∈ rest, ∃ own, recovery.vault.names page.path own)
    (synced : ∀ page ∈ rest, page.syncContent ≠ none) : after.db = world.db := by
  induction rest generalizing report world with
  | nil =>
      obtain rfl := congrArg Prod.snd ran
      rfl
  | cons page rest ih =>
      obtain ⟨report', between, first, ran⟩ := Call.bind_ok ran
      have ⟨here, later⟩ := List.forall_mem_cons.mp synced
      have ⟨⟨own, named⟩, files⟩ := List.forall_mem_cons.mp files
      rw [ih ran files later, (restorePage_step named first).synced here]

theorem restorePages_kinds
    (ran : recovery.restorePages boot listed rest report world = (.ok counted, after))
    (files : ∀ page ∈ rest, ∃ own, recovery.vault.names page.path own) :
    after.db.kinds = world.db.kinds := by
  induction rest generalizing report world with
  | nil =>
      obtain rfl := congrArg Prod.snd ran
      rfl
  | cons page rest ih =>
      obtain ⟨report', between, first, ran⟩ := Call.bind_ok ran
      have ⟨⟨own, named⟩, files⟩ := List.forall_mem_cons.mp files
      rw [ih ran files, (restorePage_step named first).kinds]

theorem restorePages_spared
    (ran : recovery.restorePages boot listed rest report world = (.ok counted, after))
    (files : ∀ page ∈ rest, ∃ own, recovery.vault.names page.path own)
    (named : recovery.vault.names other.path own) (holds : Holds after other own) :
    recovery.Spared boot rest listed (Holds world other own) own := by
  induction rest generalizing report world with
  | nil =>
      obtain rfl := congrArg Prod.snd ran
      exact spared_nil.mpr holds
  | cons page rest ih =>
      obtain ⟨report', between, first, ran⟩ := Call.bind_ok ran
      have ⟨⟨mine, mine'⟩, files⟩ := List.forall_mem_cons.mp files
      rw [spared_cons]
      exact (ih ran files).imp (restorePage_kept first mine' named)

theorem restorePages_held
    (ran : recovery.restorePages boot listed rest report world = (.ok counted, after))
    (files : ∀ page ∈ rest, ∃ own, recovery.vault.names page.path own)
    (apart : ∀ page ∈ rest, ¬ recovery.vault.names page.path own)
    (named : recovery.vault.names other.path own) (holds : Holds after other own) :
    Holds world other own := by
  obtain ⟨_, page, _, rfl, shared, _⟩ | ⟨held, _⟩ := restorePages_spared ran files named holds
  · exact absurd shared (apart page (by simp))
  · exact held

theorem restorePages_stays
    (ran : recovery.restorePages boot listed rest report world = (.ok counted, after))
    (files : ∀ page ∈ rest, ∃ own, recovery.vault.names page.path own)
    (apart : ∀ page ∈ rest, ¬ recovery.vault.names page.path key) (there : after.files key ≠ none) :
    recovery.Stays boot listed world.files rest key := by
  induction rest generalizing report world with
  | nil =>
      obtain rfl := congrArg Prod.snd ran
      exact ⟨there, by simp⟩
  | cons page rest ih =>
      obtain ⟨report', between, first, ran⟩ := Call.bind_ok ran
      have ⟨⟨mine, mine'⟩, files⟩ := List.forall_mem_cons.mp files
      have ⟨here, apart⟩ := List.forall_mem_cons.mp apart
      have step := restorePage_step mine' first
      have stays := ih ran files apart
      have spared : ¬ recovery.Erases boot listed page key := by
        intro erases
        exact stays.1 (step.gone key erases)
      exact ⟨step.kept key spared here ▸ stays.1, List.forall_mem_cons.mpr ⟨spared, stays.2⟩⟩

theorem restorePages_append {before later : List KnowledgeEntity}
    (ran : recovery.restorePages boot listed (before ++ later) report world = (.ok counted, after)) :
    ∃ report' between, recovery.restorePages boot listed before report world =
        (.ok report', between) ∧
      recovery.restorePages boot listed later report' between = (.ok counted, after) := by
  induction before generalizing report world with
  | nil => exact ⟨report, world, rfl, ran⟩
  | cons page before ih =>
      obtain ⟨report', between, first, ran⟩ := Call.bind_ok ran
      obtain ⟨counted', left, second, ran⟩ := ih ran
      refine ⟨counted', left, ?_, ran⟩
      simp only [restorePages, Call.bind_apply, first, second]

theorem restorePages_adoptable
    (ran : recovery.restorePages boot listed pages report world = (.ok counted, after))
    (files : ∀ page ∈ pages, ∃ own, recovery.vault.names page.path own)
    (once : pages.Nodup) (apart : recovery.Apart pages) (whole : recovery.Whole boot pages listed)
    (holds : ∀ page ∈ pages, ∀ own, recovery.vault.names page.path own → Holds after page own) :
    recovery.Adoptable boot pages listed world.files := by
  rintro before page later rfl legacy rewrites own named
  obtain ⟨_, first, ranBefore, ran⟩ := restorePages_append ran
  obtain ⟨_, second, turn, ranLater⟩ := Call.bind_ok ran
  obtain ⟨freshBefore, onceLater, distinct⟩ := List.nodup_append.mp once
  have freshLater : page ∉ later := (List.nodup_cons.mp onceLater).1
  have alone {writer other : KnowledgeEntity} {key : FileKey}
      (member : writer ∈ before ++ page :: later) (member' : other ∈ before ++ page :: later)
      (differ : other ≠ writer) (named : recovery.vault.names writer.path key) :
      ¬ recovery.vault.names other.path key := fun shared =>
    differ (apart other member' writer member key shared named)
  have here : page ∈ before ++ page :: later := by simp
  have filesBefore : ∀ other ∈ before, ∃ own, recovery.vault.names other.path own :=
    fun other member => files other (by simp [member])
  have filesLater : ∀ other ∈ later, ∃ own, recovery.vault.names other.path own :=
    fun other member => files other (by simp [member])
  have held : Holds second page own := restorePages_held ranLater filesLater
    (fun other member => alone here (by simp [member]) (fun same => freshLater (same ▸ member)) named)
    named (holds page here own named)
  have spared := (restorePage_kept turn named named held).1
  have filled : second.files own ≠ none := by
    obtain ⟨content, _, there⟩ := held
    simp [there]
  have stays (there : first.files own ≠ none) : recovery.Stays boot listed world.files before own :=
    restorePages_stays ranBefore filesBefore (fun other member => alone here (by simp [member])
      (fun same => distinct other member page (by simp) same) named) there
  have complete := whole page here legacy rewrites own named
  cases found : recovery.stale listed page with
  | nil =>
      simp only [found] at complete ⊢
      by_cases refused : boot.refuses (.pageProjection page.path) = true
      · refine .inl ⟨refused, stays ?_⟩
        rwa [restorePage_rendered rewrites legacy found turn, writePageAndRev_after,
          if_pos refused] at filled
      · have taken : boot.refuses (.pageProjection page.path) = false := by simpa using refused
        exact .inr ⟨taken, complete taken⟩
  | cons source copies =>
      simp only [found] at complete ⊢
      by_cases ready : boot.accepts own = true ∧ ∃ key, recovery.vault.names source key ∧
          recovery.Stays boot listed world.files before key
      · obtain ⟨accepted, key, source', there⟩ := ready
        exact .inl ⟨accepted, key, source', complete accepted key source', there⟩
      · refine .inr ⟨stays ?_, fun accepted key source' => .inl (complete accepted key source')⟩
        obtain ⟨_, between, moved, rfl⟩ := restorePage_relocated rewrites legacy found turn
        by_cases idle : ∀ start, recovery.vault.names source start → ∀ own,
            recovery.vault.names page.path own → first.files start = none ∨ boot.accepts own = false
        · have kept := ((relocated_files boot rewrites legacy found named first.files own).2
            spared).1
          simp only [(relocate_ok moved).1] at filled
          rwa [kept, movedFile_stays first.files idle] at filled
        · -- The file that is moved away is one that an earlier page has just been given.
          exfalso
          simp only [not_forall, not_or] at idle
          obtain ⟨start, source', own', named', there, accepted⟩ := idle
          obtain rfl := names_inj named named'
          have accepted : boot.accepts own = true := by simpa using accepted
          obtain ⟨earlier, member, owner⟩ : ∃ earlier ∈ before,
              recovery.vault.names earlier.path start := by
            by_contra unowned
            simp only [not_exists, not_and] at unowned
            exact ready ⟨accepted, start, source',
              restorePages_stays ranBefore filesBefore unowned there⟩
          have erases : recovery.Erases boot listed page start := by
            refine ⟨complete accepted start source', source, ?_, source'⟩
            rw [discards, if_neg (by simp [recovery.takes_of_names boot named, accepted]), found]
            exact List.mem_cons_self
          have gone := (restorePage_step named turn).gone start erases
          obtain ⟨content, _, there⟩ := restorePages_held ranLater filesLater
            (fun other later => alone (by simp [member]) (by simp [later])
              (fun same => distinct earlier member other (by simp [later]) same.symm) owner)
            owner (holds earlier (by simp [member]) start owner)
          rw [gone] at there
          simp at there

theorem mirrorPages_db {outcome : Bool × ReconcileReport}
    (ran : recovery.mirrorPages boot pages report world = (.ok outcome, after))
    (synced : ∀ page ∈ pages, page.syncContent ≠ none) : after.db = world.db := by
  induction pages generalizing report world outcome with
  | nil =>
      obtain rfl := congrArg Prod.snd ran
      rfl
  | cons page pages ih =>
      obtain ⟨⟨missing, report'⟩, between, first, ran⟩ := Call.bind_ok ran
      obtain ⟨⟨others, counted⟩, left, second, ran⟩ := Call.bind_ok ran
      simp only [Call.pure_apply, Prod.mk.injEq] at ran
      obtain ⟨_, rfl⟩ := ran
      have ⟨here, later⟩ := List.forall_mem_cons.mp synced
      rw [ih second later]
      obtain ⟨own, named, ⟨_, _, same⟩ | ⟨held, _, _, same, _⟩⟩ := mirrorPage_ok _ _ first
      · rw [same]
      · exact same here

structure Mirrored (recovery : Recovery) (pages : List KnowledgeEntity) (missing : Bool)
    (world after : World) : Prop where
  named : ∀ page ∈ pages, ∃ own, recovery.vault.names page.path own
  missing : missing = true ↔
    ∃ page ∈ pages, ∃ own, recovery.vault.names page.path own ∧ world.files own = none
  files : after.files = recovery.mirrored pages world.files
  kinds : after.db.kinds = world.db.kinds
  rows : ∀ path, (∀ page ∈ pages, page.syncContent = none → page.path ≠ path) →
    after.db.stored path = world.db.stored path
  adopted : ∀ before page later, pages = before ++ page :: later → page.syncContent = none →
    ∀ own held, recovery.vault.names page.path own → world.files own = some held →
      after.db.stored page.path = some (recovery.lastBytes before own held)

section First

variable {page : KnowledgeEntity} {held : Text} {files : Files}

theorem lastBytes_own (named : recovery.vault.names page.path own) (held : Text) :
    recovery.lastBytes (page :: pages) own held =
      recovery.lastBytes pages own (page.syncContent.getD held) := by
  simp [lastBytes, named]

theorem lastBytes_other (apart : ¬ recovery.vault.names page.path key) (held : Text) :
    recovery.lastBytes (page :: pages) key held = recovery.lastBytes pages key held := by
  simp [lastBytes, apart]

theorem lastBytes_append (before later : List KnowledgeEntity) (held : Text) :
    recovery.lastBytes (before ++ later) key held =
      recovery.lastBytes later key (recovery.lastBytes before key held) := by
  simp [lastBytes]

theorem lastBytes_same
    (same : ∀ page ∈ pages, recovery.vault.names page.path own → ∀ content,
      page.syncContent = some content → content = held) : recovery.lastBytes pages own held = held := by
  induction pages with
  | nil => rfl
  | cons page pages ih =>
      have ⟨here, later⟩ := List.forall_mem_cons.mp same
      by_cases named : recovery.vault.names page.path own
      · cases synced : page.syncContent with
        | none => rw [lastBytes_own named, synced, Option.getD_none, ih later]
        | some content =>
            obtain rfl := here named content synced
            rw [lastBytes_own named, synced, Option.getD_some, ih later]
      · rw [lastBytes_other named, ih later]

variable (recovery pages) in
theorem lastBytes_cases (own : FileKey) (held : Text) :
    (∃ page ∈ pages, recovery.vault.names page.path own ∧
        page.syncContent = some (recovery.lastBytes pages own held)) ∨
      recovery.lastBytes pages own held = held := by
  induction pages generalizing held with
  | nil => exact .inr rfl
  | cons page pages ih =>
      by_cases named : recovery.vault.names page.path own
      · rw [lastBytes_own named]
        obtain ⟨later, member, found⟩ | same := ih (page.syncContent.getD held)
        · exact .inl ⟨later, List.mem_cons_of_mem _ member, found⟩
        · rw [same]
          cases synced : page.syncContent with
          | none => exact .inr rfl
          | some content => exact .inl ⟨page, List.mem_cons_self, named, synced⟩
      · rw [lastBytes_other named]
        obtain ⟨later, member, found⟩ | same := ih held
        · exact .inl ⟨later, List.mem_cons_of_mem _ member, found⟩
        · exact .inr same

theorem mirrored_none (gone : files own = none) : recovery.mirrored pages files own = none := by
  simp [mirrored, gone]

theorem mirrored_mirroredPage (named : recovery.vault.names page.path own)
    (there : world.files own = some held) :
    recovery.mirrored pages (recovery.mirroredPage page own held world).files =
      recovery.mirrored (page :: pages) world.files := by
  funext key
  by_cases same : key = own
  · subst same
    rw [mirrored, mirrored, there, Option.map_some, lastBytes_own named]
    cases synced : page.syncContent <;> simp [mirroredPage, synced, there]
  · have apart : ¬ recovery.vault.names page.path key := fun named' => same (names_inj named' named)
    have left : (recovery.mirroredPage page own held world).files key = world.files key := by
      cases synced : page.syncContent <;> simp [mirroredPage, synced, same]
    rw [mirrored, mirrored, left]
    exact congrArg (Option.map · (world.files key)) (funext fun held => (lastBytes_other apart held).symm)

theorem Mirrored.missed {missing : Bool} (missed : Mirrored recovery pages missing world after)
    (named : recovery.vault.names page.path own) (gone : world.files own = none) :
    Mirrored recovery (page :: pages) true world after where
  named := List.forall_mem_cons.mpr ⟨⟨own, named⟩, missed.named⟩
  missing := by simpa using Or.inl ⟨own, named, gone⟩
  files := by
    rw [missed.files]
    funext key
    by_cases here : recovery.vault.names page.path key
    · obtain rfl := names_inj named here
      rw [mirrored_none gone, mirrored_none gone]
    · exact congrArg (Option.map · (world.files key))
        (funext fun held => (lastBytes_other here held).symm)
  kinds := missed.kinds
  rows path other := missed.rows path fun later member =>
    other later (List.mem_cons_of_mem _ member)
  adopted := by
    intro before later rest same legacy own' held named' there
    cases before with
    | nil =>
        obtain ⟨rfl, rfl⟩ := List.cons.inj same
        obtain rfl := names_inj named named'
        simp [gone] at there
    | cons first before =>
        obtain ⟨rfl, rfl⟩ := List.cons.inj same
        rw [missed.adopted before later rest rfl legacy own' held named' there, lastBytes_other]
        intro here
        obtain rfl := names_inj named here
        simp [gone] at there

theorem Mirrored.present {missing : Bool}
    (later : Mirrored recovery pages missing (recovery.mirroredPage page own held world) after)
    (unique : ((page :: pages).map KnowledgeEntity.path).Nodup)
    (stands : page.path ∈ world.db.paths) (named : recovery.vault.names page.path own)
    (there : world.files own = some held) :
    Mirrored recovery (page :: pages) missing world after := by
  obtain ⟨notLater, _⟩ := List.nodup_cons.mp unique
  have absent (key : FileKey) :
      (recovery.mirroredPage page own held world).files key = none ↔ world.files key = none := by
    by_cases same : key = own
    · cases synced : page.syncContent <;> simp [mirroredPage, synced, same, there]
    · cases synced : page.syncContent <;> simp [mirroredPage, synced, same]
  constructor
  · exact List.forall_mem_cons.mpr ⟨⟨own, named⟩, later.named⟩
  · rw [later.missing]
    simp only [absent, List.mem_cons, exists_eq_or_imp]
    constructor
    · exact Or.inr
    · intro some
      obtain ⟨key, named', gone⟩ | found := some
      · obtain rfl := names_inj named named'
        simp [there] at gone
      · exact found
  · rw [later.files, mirrored_mirroredPage named there]
  · rw [later.kinds]
    cases synced : page.syncContent with
    | some content => simp [mirroredPage, synced]
    | none => simp [mirroredPage, synced, Database.kinds_setPageProjection]
  · intro path other
    obtain ⟨here, rest⟩ := List.forall_mem_cons.mp other
    rw [later.rows path rest]
    cases synced : page.syncContent with
    | some content => simp [mirroredPage, synced]
    | none => simp [mirroredPage, synced, Database.stored_setPageProjection, (here synced).symm]
  · intro before other rest same legacy key bytes named' there'
    cases before with
    | nil =>
        obtain ⟨rfl, rfl⟩ := List.cons.inj same
        obtain rfl := names_inj named named'
        obtain rfl : held = bytes := by simpa [there] using there'
        rw [later.rows page.path fun other member _ same =>
          notLater (List.mem_map.mpr ⟨other, member, same⟩)]
        simp [mirroredPage, legacy, Database.stored_setPageProjection, stands, lastBytes]
    | cons first before =>
        obtain ⟨rfl, rfl⟩ := List.cons.inj same
        by_cases here : recovery.vault.names page.path key
        · obtain rfl := names_inj named here
          obtain rfl : held = bytes := by simpa [there] using there'
          rw [lastBytes_own named, later.adopted before other rest rfl legacy own
            (page.syncContent.getD held) named']
          cases synced : page.syncContent <;> simp [mirroredPage, synced, there]
        · have apart : key ≠ own := by
            rintro rfl
            exact here named
          rw [lastBytes_other here]
          refine later.adopted before other rest rfl legacy key bytes named' ?_
          cases synced : page.syncContent <;> simp [mirroredPage, synced, apart, there']

/-- No two of these texts have one fingerprint. -/
def CollisionFree (recovery : Recovery) (texts : Set Text) : Prop :=
  ∀ first ∈ texts, ∀ second ∈ texts, recovery.fingerprint first = recovery.fingerprint second →
    first = second

theorem mirrorPages_ok {texts : Set Text} {outcome : Bool × ReconcileReport}
    (clear : CollisionFree recovery texts)
    (ran : recovery.mirrorPages boot pages report world = (.ok outcome, after))
    (unique : (pages.map KnowledgeEntity.path).Nodup)
    (present : ∀ page ∈ pages, page.path ∈ world.db.paths)
    (bodies : ∀ page ∈ pages, ∀ content, page.syncContent = some content → content ∈ texts)
    (contents : ∀ key held, world.files key = some held → held ∈ texts) :
    Mirrored recovery pages outcome.1 world after := by
  induction pages generalizing report world outcome with
  | nil =>
      simp only [mirrorPages, Call.pure_apply, Prod.mk.injEq, Except.ok.injEq] at ran
      obtain ⟨rfl, rfl⟩ := ran
      refine ⟨by simp, by simp, ?_, rfl, fun _ _ => rfl, by simp⟩
      funext key
      cases held : world.files key <;> simp [mirrored, lastBytes, held]
  | cons page pages ih =>
      obtain ⟨⟨missing, report'⟩, between, first, ran⟩ := Call.bind_ok ran
      dsimp only at ran
      obtain ⟨⟨others, counted⟩, left, second, ran⟩ := Call.bind_ok ran
      simp only [Call.pure_apply, Prod.mk.injEq, Except.ok.injEq] at ran
      obtain ⟨rfl, rfl⟩ := ran
      have ⟨here, restPresent⟩ := List.forall_mem_cons.mp present
      have ⟨body, restBodies⟩ := List.forall_mem_cons.mp bodies
      have restUnique := (List.nodup_cons.mp unique).2
      obtain ⟨own, named, ⟨gone, miss, rfl⟩ | ⟨held, there, kept, _, same⟩⟩ :=
        mirrorPage_ok _ _ first
      · obtain rfl : missing = true := miss
        have rest := ih second restUnique restPresent restBodies contents
        rw [Bool.true_or]
        exact rest.missed named gone
      · obtain rfl : missing = false := kept
        obtain rfl := same fun content synced equal =>
          clear held (contents own held there) content (body content synced) equal
        rw [Bool.false_or]
        have rest := ih second restUnique ?_ restBodies ?_
        · exact rest.present unique here named there
        · intro other member
          have stands := restPresent other member
          rw [Database.paths_kinds] at stands ⊢
          cases synced : page.syncContent with
          | some content => simpa [mirroredPage, synced] using stands
          | none => simpa [mirroredPage, synced, Database.kinds_setPageProjection] using stands
        · intro key bytes
          cases synced : page.syncContent with
          | none => simpa [mirroredPage, synced] using contents key bytes
          | some content =>
              by_cases same : key = own
              · intro equal
                obtain rfl : content = bytes := by simpa [mirroredPage, synced, same] using equal
                exact body content synced
              · simpa [mirroredPage, synced, same] using contents key bytes

end First

end Passes

end Recovery

end Frona.Pkm
