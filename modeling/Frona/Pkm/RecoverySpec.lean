import Frona.Pkm.NoteCalls
import Frona.Pkm.Recovery

set_option autoImplicit false

namespace Frona.Pkm

open Utf8 (Text)

namespace Database

variable (db : Database)

def stored (path : Text) : Option Text := (db.entityByPath path).bind KnowledgeEntity.syncContent

theorem entityByPath_isSome (path : Text) : (db.entityByPath path).isSome = true ↔ path ∈ db.paths := by
  simp [entityByPath, paths]

theorem stored_setPageProjection (path content rev other : Text) :
    (db.setPageProjection path content rev).stored other =
      if other = path ∧ path ∈ db.paths then some content else db.stored other := by
  rw [stored, setPageProjection, entityByPath_map]
  · cases found : db.entityByPath other with
    | none =>
        have missing : other ∉ db.paths := by
          rw [← entityByPath_isSome, found]
          simp
        by_cases same : other = path
        · subst same
          simp [stored, found, missing]
        · simp [stored, found, same]
    | some row =>
        have named := entityByPath_path db other found
        have present : other ∈ db.paths := by
          rw [← entityByPath_isSome, found]
          rfl
        by_cases same : other = path
        · subst same
          simp [named, present]
        · simp [stored, found, named, same]
  · intro row
    split <;> rfl

def kinds : List (Text × EntityOrigin) := db.entities.map fun row => (row.path, row.origin)

theorem kinds_setPageProjection (path content rev : Text) :
    (db.setPageProjection path content rev).kinds = db.kinds := by
  simp only [kinds, setPageProjection, List.map_map, Function.comp_def]
  congr 1
  funext row
  split <;> rfl

theorem paths_kinds : db.paths = db.kinds.map Prod.fst := by
  simp [paths, kinds, Function.comp_def]

end Database

namespace VaultScope

variable (vault : VaultScope)

def erased (env : Environment) (copies : List Text) (files : Files) : Files := fun key =>
  if env.removes key = true ∧ ∃ copy ∈ copies, vault.names copy key then none else files key

theorem erased_nil (env : Environment) (files : Files) : vault.erased env [] files = files := by
  funext key
  simp [erased]

theorem erased_cons (env : Environment) (copy : Text) (copies : List Text) (files : Files) :
    vault.erased env (copy :: copies) files =
      vault.erased env copies (vault.erased env [copy] files) := by
  funext key
  by_cases here : vault.names copy key <;> by_cases removed : env.removes key = true <;>
    simp [erased, here, removed]

def writtenFile (env : Environment) (path content : Text) (files : Files) : Files :=
  match vault.pageKey path with
  | .ok key => if env.accepts key then Function.update files key (some content) else files
  | .error _ => files

theorem writePage_after (env : Environment) (path content : Text) (world : World) :
    (vault.writePage env path content world).2 =
      { world with files := vault.writtenFile env path content world.files } := by
  cases named : vault.pageKey path with
  | error error => simp [writePage, writtenFile, named]
  | ok key =>
      by_cases accepted : env.accepts key <;>
        simp [writePage, writeFile, writtenFile, named, accepted]

theorem deletePage_after (env : Environment) (path : Text) (world : World) :
    (vault.deletePage env path world).2 =
      { world with files := vault.erased env [path] world.files } := by
  cases named : vault.pageKey path with
  | error error =>
      have same : vault.erased env [path] world.files = world.files := by
        funext other
        simp [erased, names, named]
      simp [deletePage, named, same]
  | ok key =>
      have same : freed env key world.files = vault.erased env [path] world.files := by
        funext other
        by_cases same : other = key
        · by_cases removed : env.removes key = true <;>
            simp [erased, freed, names, named, same, removed]
        · by_cases removed : env.removes key = true <;>
            simp [erased, freed, names, named, same, Ne.symm same, removed]
      simp [deletePage, named, removeFile_after, same]

end VaultScope

namespace Recovery

variable (recovery : Recovery) (boot : Boot)

theorem deleteAll_after (copies : List Text) (world : World) :
    ∃ count, recovery.deleteAll boot copies world = (.ok count,
      { world with files := recovery.vault.erased boot.toEnvironment copies world.files }) := by
  induction copies generalizing world with
  | nil => exact ⟨0, by simp [deleteAll, VaultScope.erased_nil]⟩
  | cons copy copies ih =>
      obtain ⟨count, rest⟩ := ih (recovery.vault.deletePage boot.toEnvironment copy world).2
      rw [VaultScope.deletePage_after] at rest
      simp only [deleteAll, Call.bind_apply, Call.result_apply, VaultScope.deletePage_after, rest,
        Call.pure_apply, VaultScope.erased_cons recovery.vault boot.toEnvironment copy copies]
      exact ⟨_, rfl⟩

theorem dedup_after (copies : List Text) (report : ReconcileReport) (world : World) :
    ∃ counted, recovery.dedup boot copies report world = (.ok counted,
      { world with files := recovery.vault.erased boot.toEnvironment copies world.files }) := by
  obtain ⟨count, deleted⟩ := recovery.deleteAll_after boot copies world
  refine ⟨{ report with deduped := report.deduped + count }, ?_⟩
  simp only [dedup, Call.bind_apply, deleted, Call.pure_apply]

theorem writePageAndRev_after (path content : Text) (world : World) :
    (recovery.writePageAndRev boot.toEnvironment path content world).2 =
      if boot.refuses (.pageProjection path) then world
      else ⟨world.db.setPageProjection path content (recovery.sha256Hex content),
        recovery.vault.writtenFile boot.toEnvironment path content world.files⟩ := by
  by_cases refused : boot.refuses (.pageProjection path)
  · simp [PkmSyncService.writePageAndRev, setPageProjection, update, statement, refused]
  · have written := recovery.vault.writePage_after boot.toEnvironment path content
      { world with db := world.db.setPageProjection path content (recovery.sha256Hex content) }
    rw [if_neg refused, ← written]
    simp only [PkmSyncService.writePageAndRev, setPageProjection, update, statement,
      Call.bind_apply, if_neg refused, Call.pure_apply]
    split <;> simp [*]

theorem adoptLegacyFile_ok {page : KnowledgeEntity} {world after : World}
    (ran : recovery.adoptLegacyFile boot page world = (.ok (), after)) :
    after = { world with db := match recovery.vault.readPage page.path world.files with
      | none => world.db
      | some content =>
          world.db.setPageProjection page.path content (recovery.sha256Hex content) } := by
  cases content : recovery.vault.readPage page.path world.files with
  | none => simpa [adoptLegacyFile, content] using ran.symm
  | some content' =>
      by_cases refused : boot.refuses (.pageProjection page.path)
      · simp [adoptLegacyFile, content, setPageProjection, update, statement, refused] at ran
      · simpa [adoptLegacyFile, content, setPageProjection, update, statement, refused]
          using ran.symm

def mirroredPage (page : KnowledgeEntity) (own : FileKey) (held : Text) (world : World) : World :=
  match page.syncContent with
  | some content => { world with files := Function.update world.files own (some content) }
  | none =>
      { world with db := world.db.setPageProjection page.path held (recovery.sha256Hex held) }

theorem mirrorPage_ok {page : KnowledgeEntity} {report : ReconcileReport} {world after : World}
    {outcome : Bool × ReconcileReport}
    (ran : recovery.mirrorPage boot page report world = (.ok outcome, after)) :
    ∃ own, recovery.vault.names page.path own ∧
      ((world.files own = none ∧ outcome.1 = true ∧ after = world) ∨
        ∃ held, world.files own = some held ∧ outcome.1 = false ∧
          (page.syncContent ≠ none → after.db = world.db) ∧
          ((∀ content, page.syncContent = some content →
              recovery.fingerprint held = recovery.fingerprint content → held = content) →
            after = recovery.mirroredPage page own held world)) := by
  cases named : recovery.vault.pageKey page.path with
  | error error => simp [mirrorPage, pageFingerprint, named] at ran
  | ok own =>
      refine ⟨own, named, ?_⟩
      cases present : world.files own with
      | none =>
          simp only [mirrorPage, pageFingerprint, named, Call.bind_apply, Call.fromExcept_apply,
            Call.get_apply, Call.pure_apply, present, Option.map_none, Prod.mk.injEq,
            Except.ok.injEq] at ran
          exact Or.inl ⟨rfl, by rw [← ran.1], ran.2.symm⟩
      | some held =>
          refine Or.inr ⟨held, rfl, ?_⟩
          simp only [mirrorPage, pageFingerprint, named, Call.bind_apply, Call.fromExcept_apply,
            Call.get_apply, Call.pure_apply, present, Option.map_some] at ran
          cases synced : page.syncContent with
          | none =>
              simp only [synced] at ran
              rw [Call.bind_apply] at ran
              split at ran
              next _ adopted kept =>
                rw [Call.pure_apply, Prod.mk.injEq, Except.ok.injEq] at ran
                have read : recovery.vault.readPage page.path world.files = some held :=
                  (recovery.vault.readPage_eq_some _ _ _).mpr ⟨own, named, present⟩
                have same := recovery.adoptLegacyFile_ok boot kept
                rw [read] at same
                refine ⟨by rw [← ran.1], fun bytes => absurd rfl bytes, fun _ => ?_⟩
                rw [← ran.2, same, mirroredPage, synced]
              next => simp at ran
          | some content =>
              simp only [synced] at ran
              by_cases same : recovery.fingerprint held = recovery.contentFingerprint content
              · rw [if_neg (not_not.mpr same)] at ran
                rw [Call.pure_apply, Prod.mk.injEq, Except.ok.injEq] at ran
                refine ⟨by rw [← ran.1], fun _ => by rw [← ran.2], fun clear => ?_⟩
                have unchanged : Function.update world.files own (some content) = world.files := by
                  rw [← clear content rfl same, ← present, Function.update_eq_self]
                rw [← ran.2, mirroredPage, synced]
                simp only [unchanged]
              · rw [if_pos same] at ran
                obtain ⟨_, between, written, ran⟩ := Call.bind_ok ran
                rw [Call.pure_apply, Prod.mk.injEq, Except.ok.injEq] at ran
                obtain ⟨key, named', _, rfl⟩ := VaultScope.writePage_ok _ _ _ _ _ _ written
                obtain rfl : own = key := by simpa [named] using named'
                refine ⟨by rw [← ran.1], fun _ => by rw [← ran.2], fun _ => ?_⟩
                rw [← ran.2, mirroredPage, synced]

section Page

variable (listed : List (Text × Option Text)) (page : KnowledgeEntity)

/-- No file with the page's `uid` is listed at the page's own path. -/
def Rewrites : Prop := page.path ∉ recovery.locations listed page

instance : Decidable (recovery.Rewrites listed page) :=
  inferInstanceAs (Decidable (page.path ∉ recovery.locations listed page))

-- The disk takes the file of the page.
def takes (path : Text) : Bool :=
  match recovery.vault.pageKey path with
  | .ok own => boot.accepts own
  | .error _ => false

theorem takes_of_names {path : Text} {own : FileKey} (named : recovery.vault.names path own) :
    recovery.takes boot path = boot.accepts own := by
  rw [VaultScope.names] at named
  simp [takes, named]

def discards : List Text :=
  if recovery.Rewrites listed page ∧ page.syncContent = none ∧ recovery.takes boot page.path = false
  then (recovery.stale listed page).tail else recovery.stale listed page

def Erases (key : FileKey) : Prop :=
  boot.removes key = true ∧ ∃ copy ∈ recovery.discards boot listed page, recovery.vault.names copy key

instance (key : FileKey) : Decidable (recovery.Erases boot listed page key) :=
  inferInstanceAs (Decidable (_ ∧ ∃ copy ∈ recovery.discards boot listed page, _))

variable {recovery boot listed page} {report counted : ReconcileReport} {world after : World}

variable (boot) in
theorem discards_eq (kept : ¬(recovery.Rewrites listed page ∧ page.syncContent = none)) :
    recovery.discards boot listed page = recovery.stale listed page := by
  rw [discards, if_neg fun all => kept ⟨all.1, all.2.1⟩]

theorem erased_discards (files : Files) (key : FileKey) :
    recovery.vault.erased boot.toEnvironment (recovery.discards boot listed page) files key =
      if recovery.Erases boot listed page key then none else files key := rfl

theorem restorePage_settled (settled : ¬ recovery.Rewrites listed page)
    (ran : recovery.restorePage boot listed page report world = (.ok counted, after)) :
    after.db = world.db ∧ ∀ key, after.files key =
      if recovery.Erases boot listed page key then none else world.files key := by
  obtain ⟨report', cleared⟩ :=
    recovery.dedup_after boot (recovery.stale listed page) report world
  rw [← discards_eq boot fun both => settled both.1] at cleared
  have here : page.path ∈ recovery.locations listed page := not_not.mp settled
  rw [restorePage, if_pos here, ← discards_eq boot fun both => settled both.1, cleared,
    Prod.mk.injEq] at ran
  rw [← ran.2]
  exact ⟨rfl, erased_discards world.files⟩

theorem restorePage_rewritten {content : Text} (rewrites : recovery.Rewrites listed page)
    (synced : page.syncContent = some content)
    (ran : recovery.restorePage boot listed page report world = (.ok counted, after)) :
    after.db = world.db ∧ ∃ own, recovery.vault.names page.path own ∧
      ∀ key, after.files key =
        if recovery.Erases boot listed page key then none
        else if key = own then some content else world.files key := by
  have all : recovery.discards boot listed page = recovery.stale listed page :=
    discards_eq _ fun both => by simp [synced] at both
  rw [Rewrites] at rewrites
  simp only [restorePage, rewrites, if_false, synced] at ran
  obtain ⟨_, between, written, cleared⟩ := Call.bind_ok ran
  obtain ⟨own, named, _, rfl⟩ := VaultScope.writePage_ok _ _ _ _ _ _ written
  obtain ⟨report', deleted⟩ := recovery.dedup_after boot (recovery.stale listed page)
    { report with rerendered := report.rerendered + 1 }
    { world with files := Function.update world.files own (some content) }
  rw [deleted, Prod.mk.injEq] at cleared
  rw [← cleared.2]
  refine ⟨rfl, own, named, fun key => ?_⟩
  simp only [← all, erased_discards, Function.update_apply]

theorem relocate_ok {source : Text}
    (ran : recovery.relocate boot page source report world = (.ok counted, after)) :
    after.files = recovery.vault.movedFile boot.toEnvironment (source, page.path) world.files ∧
      match (recovery.vault.movePageFile boot.toEnvironment source page.path world).1 with
      | .error _ => after.db = world.db
      | .ok _ => after.db = match recovery.vault.readPage page.path after.files with
        | none => world.db
        | some content =>
            world.db.setPageProjection page.path content (recovery.sha256Hex content) := by
  obtain ⟨outcome, between, moved, ran⟩ := Call.bind_ok ran
  have files := recovery.vault.movePageFile_after boot.toEnvironment source page.path world
  rw [Call.result_apply, files, Prod.mk.injEq, Except.ok.injEq] at moved
  obtain ⟨moved, rfl⟩ := moved
  rw [moved]
  cases outcome with
  | error error =>
      change (Pure.pure report : Call ReconcileReport) _ = _ at ran
      rw [Call.pure_apply, Prod.mk.injEq] at ran
      simp [← ran.2]
  | ok _ =>
      dsimp only at ran
      rw [Call.bind_apply] at ran
      split at ran
      next _ adopted kept =>
        rw [Call.pure_apply, Prod.mk.injEq] at ran
        rw [← ran.2, recovery.adoptLegacyFile_ok boot kept]
        simp only [true_and]
      next => simp at ran

theorem restorePage_relocated {source : Text} {copies : List Text}
    (rewrites : recovery.Rewrites listed page) (legacy : page.syncContent = none)
    (found : recovery.stale listed page = source :: copies)
    (ran : recovery.restorePage boot listed page report world = (.ok counted, after)) :
    ∃ counted' between, recovery.relocate boot page source report world = (.ok counted', between) ∧
      after = { between with
        files := recovery.vault.erased boot.toEnvironment copies between.files } := by
  rw [Rewrites] at rewrites
  simp only [restorePage, rewrites, if_false, legacy, found] at ran
  obtain ⟨counted', between, relocated, ran⟩ := Call.bind_ok ran
  obtain ⟨report', deleted⟩ := recovery.dedup_after boot copies counted' between
  rw [deleted, Prod.mk.injEq] at ran
  exact ⟨counted', between, relocated, ran.2.symm⟩

theorem restorePage_rendered (rewrites : recovery.Rewrites listed page)
    (legacy : page.syncContent = none) (none' : recovery.stale listed page = [])
    (ran : recovery.restorePage boot listed page report world = (.ok counted, after)) :
    after = (recovery.writePageAndRev boot.toEnvironment page.path
      (boot.composePage page world.db) world).2 := by
  have rendered : recovery.renderPageFromDb boot page world = recovery.writePageAndRev
      boot.toEnvironment page.path (boot.composePage page world.db) world := by
    simp [renderPageFromDb, legacy]
  rw [Rewrites] at rewrites
  simp only [restorePage, rewrites, if_false, legacy, none'] at ran
  obtain ⟨outcome, between, drawn, ran⟩ := Call.bind_ok ran
  rw [Call.result_apply, rendered, Prod.mk.injEq] at drawn
  rw [drawn.2]
  cases outcome with
  | error error =>
      change (Pure.pure report : Call ReconcileReport) between = _ at ran
      exact (congrArg Prod.snd ran).symm
  | ok _ => exact (congrArg Prod.snd ran).symm

end Page

end Recovery

end Frona.Pkm
