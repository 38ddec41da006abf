import Frona.Resolve.Merges

set_option autoImplicit false

namespace Frona.Resolve

open Frona.Pkm (AppError)
open Frona.Reconcile (Table)
open Redirects (Forest Merges Resolves)
open Utf8 (Text)

section Lookups

def rowNext (rows : Table IdentityProgress) (path : Text) : Option Text :=
  (rows.lookup path).bind IdentityProgress.redirect

theorem recordedRedirects_list (rows : List (Sigma fun _ : Text => IdentityProgress))
    (once : rows.NodupKeys) (path : Text) :
    (rows.foldr (fun row redirects => match row.2.redirect with
      | some canonical => redirects.insert row.1 canonical
      | none => redirects) (∅ : Table Text)).lookup path =
        (rows.dlookup path).bind IdentityProgress.redirect := by
  induction rows with
  | nil => rfl
  | cons row rows ih =>
      obtain ⟨key, identity⟩ := row
      obtain ⟨new, rest⟩ := List.nodupKeys_cons.mp once
      rw [List.foldr_cons]
      by_cases here : path = key
      · subst here
        have absent : rows.dlookup path = none := List.dlookup_eq_none.mpr new
        cases goes : identity.redirect with
        | some canonical => simp [goes]
        | none => simp [goes, ih rest, absent]
      · cases goes : identity.redirect <;> simp [here, ih rest]

theorem lookup_recordedRedirects (rows : Table IdentityProgress) :
    (recordedRedirects rows).lookup = rowNext rows := by
  funext path
  exact recordedRedirects_list rows.entries rows.nodupKeys path

theorem lookup_redirectAll (path canonical key : Text) (redirects : Table Text) :
    (redirectAll path canonical redirects).lookup key =
      if key = path then some canonical
      else (redirects.lookup key).map fun target => if target = path then canonical else target := by
  by_cases here : key = path
  · subst here
    simp [redirectAll]
  · have mapped : (Table.mapValues (fun target => if target = path then canonical else target)
        redirects).lookup key =
          (redirects.lookup key).map fun target => if target = path then canonical else target :=
      List.dlookup_map₂ key
    simp [redirectAll, here, mapped]

theorem walk_resolves (redirects : Table Text) (rank : Text → Nat)
    (down : ∀ earlier later, redirects.lookup earlier = some later → rank later < rank earlier)
    (seen : List Text) (path : Text) (above : ∀ other ∈ seen, rank path < rank other) :
    Resolves redirects.lookup path (walk redirects seen path) := by
  induction steps : rank path using Nat.strong_induction_on generalizing seen path with
  | _ steps ih =>
      have new : path ∉ seen := fun member => Nat.lt_irrefl _ (above path member)
      rw [walk, if_neg new]
      split
      next stays => exact Resolves.here stays
      next next goes =>
        have lower := down path next goes
        refine (ih (rank next) (steps ▸ lower) (path :: seen) next ?_ rfl).step goes
        intro other member
        cases List.mem_cons.mp member with
        | inl here => exact here ▸ lower
        | inr before => exact lower.trans (above other before)

theorem canonicalPath_resolves (redirects : Table Text) (forest : Forest redirects.lookup)
    (path : Text) : Resolves redirects.lookup path (canonicalPath redirects path) := by
  obtain ⟨rank, down⟩ := forest
  exact walk_resolves redirects rank down [] path (by simp)

theorem entityByPath_found (store : Store) (visited : List Text) (path found : Text)
    (identity : IdentityProgress)
    (ran : entityByPath store visited path = .ok (some (found, identity))) :
    rowNext store.rows found = none ∧ identity.redirect = none := by
  induction visited, path using entityByPath.induct store with
  | case1 visited path repeated =>
      rw [entityByPath, if_pos repeated] at ran
      simp at ran
  | case2 visited path new canonical goes ih =>
      rw [entityByPath, if_neg new] at ran
      split at ran
      next canonical' goes' =>
        obtain rfl : canonical = canonical' := by simpa [goes] using goes'
        exact ih ran
      next identity' other goes' => exact absurd (goes.symm.trans goes') (by rintro ⟨⟩; exact other _ rfl)
      next goes' => simp [goes] at goes'
  | case3 visited path new identity' other stands =>
      rw [entityByPath, if_neg new] at ran
      have plain : identity'.redirect = none := by
        cases identity' with
        | coalesced canonical => exact absurd rfl (other canonical)
        | _ => rfl
      split at ran
      next canonical goes =>
        obtain rfl : identity' = .coalesced canonical := by simpa [stands] using goes
        exact absurd rfl (other canonical)
      next held _ goes =>
        obtain ⟨rfl, rfl⟩ : path = found ∧ held = identity := by simpa using ran
        obtain rfl : identity' = held := by simpa [stands] using goes
        exact ⟨by simp [rowNext, stands, plain], plain⟩
      next goes => simp [stands] at goes
  | case4 visited path new missing =>
      rw [entityByPath, if_neg new] at ran
      split at ran
      next goes => simp [missing] at goes
      next goes => simp [missing] at goes
      next =>
        split at ran
        next =>
          obtain ⟨rfl, rfl⟩ : path = found ∧ IdentityProgress.pending = identity := by simpa using ran
          exact ⟨by simp [rowNext, missing], rfl⟩
        next => simp at ran

end Lookups

section Invariant

/-- On the rows: no cycle, and whoever lost a merge is redirected. -/
structure Sound (rows : Table IdentityProgress) (lost : List Text) : Prop where
  forest : Forest (rowNext rows)
  lost : ∀ path ∈ lost, rowNext rows path ≠ none

/-- The memory of a pass and the rows redirect every path to the same one. -/
structure Faithful (rows : Table IdentityProgress) (progress : ConsolidationProgress) : Prop where
  forest : Forest progress.redirects.lookup
  agree : ∀ path root, Resolves progress.redirects.lookup path root → Resolves (rowNext rows) path root
  inputs : ∀ path identity, progress.inputs.lookup path = some identity →
    rowNext rows path = none ∧ identity.redirect = none

theorem Faithful.root {rows : Table IdentityProgress} {progress : ConsolidationProgress}
    (faithful : Faithful rows progress) {path : Text}
    (stays : progress.redirects.lookup path = none) : rowNext rows path = none :=
  (faithful.agree path path (Resolves.here stays)).2

theorem Faithful.stage {rows : Table IdentityProgress} {progress : ConsolidationProgress}
    (faithful : Faithful rows progress) (path : Text) (identity : IdentityProgress)
    (stands : rowNext rows path = none ∧ identity.redirect = none) :
    Faithful rows { progress with inputs := progress.inputs.insert path identity } where
  forest := faithful.forest
  agree := faithful.agree
  inputs := by
    intro other held found
    by_cases here : other = path
    · subst here
      obtain rfl : identity = held := by simpa using found
      exact stands
    · exact faithful.inputs other held (by simpa [here] using found)

theorem Faithful.forget {rows : Table IdentityProgress} {progress : ConsolidationProgress}
    (faithful : Faithful rows progress) (path : Text) : Faithful rows (forget path progress) where
  forest := faithful.forest
  agree := faithful.agree
  inputs := by
    intro other held found
    by_cases here : other = path
    · subst here
      simp [Resolve.forget, AList.lookup_erase] at found
    · exact faithful.inputs other held (by simpa [Resolve.forget, here] using found)

theorem stageInputs_faithful (store : Store) (due : List Text) (progress after : ConsolidationProgress)
    (faithful : Faithful store.rows progress) (ran : stageInputs store due progress = .ok after) :
    Faithful store.rows after ∧ after.redirects = progress.redirects := by
  induction due generalizing progress with
  | nil =>
      obtain rfl : progress = after := by simpa [stageInputs] using ran
      exact ⟨faithful, rfl⟩
  | cons path rest ih =>
      simp only [stageInputs, stageInput] at ran
      cases found : entityByPath store [] path with
      | error error => simp [found] at ran
      | ok entity =>
          cases entity with
          | none => exact ih progress faithful (by simpa [found] using ran)
          | some entity =>
              obtain ⟨other, identity⟩ := entity
              have stands := entityByPath_found store [] path other identity found
              have staged := ih _ (faithful.stage other identity stands) (by simpa [found] using ran)
              exact ⟨staged.1, staged.2⟩

theorem openProgress_faithful (store : Store) (due : List Text) (progress : ConsolidationProgress)
    (forest : Forest (rowNext store.rows)) (ran : openProgress store due = .ok progress) :
    Faithful store.rows progress ∧ progress.redirects = recordedRedirects store.rows := by
  refine stageInputs_faithful store due _ progress ?_ ran
  constructor
  case forest => simpa only [lookup_recordedRedirects] using forest
  case agree =>
    simp only [lookup_recordedRedirects]
    exact fun _ _ ends => ends
  case inputs =>
    intro path identity found
    simp at found

theorem requireInput_faithful (role path : Text) (store : Store) (progress after : ConsolidationProgress)
    (faithful : Faithful store.rows progress) (ran : requireInput role path store progress = .ok after) :
    Faithful store.rows after ∧ after.redirects = progress.redirects := by
  unfold requireInput at ran
  split at ran
  next =>
    obtain rfl : progress = after := by simpa using ran
    exact ⟨faithful, rfl⟩
  next =>
    split at ran
    next => simp at ran
    next => simp at ran
    next other identity found =>
      obtain rfl : _ = after := by simpa using ran
      exact ⟨faithful.stage other identity (entityByPath_found store [] path other identity found), rfl⟩

end Invariant

section Commit

variable (rows : Table IdentityProgress) (progress : ConsolidationProgress) (path canonical : Text)
  (identity : IdentityProgress)

def mergedRows : Table IdentityProgress :=
  (rows.insert canonical identity).insert path (.coalesced canonical)

theorem rowNext_merged (apart : path ≠ canonical) (plain : identity.redirect = none)
    (stays : rowNext rows canonical = none) (key : Text) :
    rowNext (mergedRows rows path canonical identity) key =
      if key = path then some canonical else rowNext rows key := by
  by_cases lost : key = path
  · subst lost
    simp [rowNext, mergedRows, IdentityProgress.redirect]
  · by_cases kept : key = canonical
    · subst kept
      have held : (mergedRows rows path key identity).lookup key = some identity := by
        simp [mergedRows, lost]
      rw [if_neg lost, stays, rowNext, held]
      exact plain
    · simp [rowNext, mergedRows, lost, kept]

theorem merges_rows (apart : path ≠ canonical) (plain : identity.redirect = none)
    (lostRoot : rowNext rows path = none) (keptRoot : rowNext rows canonical = none) :
    Merges (rowNext rows) (rowNext (mergedRows rows path canonical identity)) path canonical where
  lostRoot := lostRoot
  keptRoot := keptRoot
  apart := apart
  moved := by rw [rowNext_merged rows path canonical identity apart plain keptRoot, if_pos rfl]
  others := by
    intro key other
    rw [rowNext_merged rows path canonical identity apart plain keptRoot, if_neg other]
    exact Or.inl rfl

theorem merges_redirects (redirects : Table Text) (apart : path ≠ canonical)
    (lostRoot : redirects.lookup path = none) (keptRoot : redirects.lookup canonical = none) :
    Merges redirects.lookup (redirectAll path canonical redirects).lookup path canonical where
  lostRoot := lostRoot
  keptRoot := keptRoot
  apart := apart
  moved := by rw [lookup_redirectAll, if_pos rfl]
  others := by
    intro key other
    rw [lookup_redirectAll, if_neg other]
    cases goes : redirects.lookup key with
    | none => exact Or.inl rfl
    | some target =>
        by_cases arrives : target = path
        · exact Or.inr ⟨by rw [arrives], by simp [arrives]⟩
        · exact Or.inl (by simp [arrives])

theorem Faithful.merged (faithful : Faithful rows progress) (apart : path ≠ canonical)
    (lostRoot : progress.redirects.lookup path = none)
    (keptRoot : progress.redirects.lookup canonical = none) (plain : identity.redirect = none)
    (forgotten : progress.inputs.lookup path = none) :
    Faithful (mergedRows rows path canonical identity)
      { progress with redirects := redirectAll path canonical progress.redirects } := by
  have inMemory := merges_redirects path canonical progress.redirects apart lostRoot keptRoot
  have onRows := merges_rows rows path canonical identity apart plain (faithful.root lostRoot)
    (faithful.root keptRoot)
  constructor
  case forest => exact inMemory.forest faithful.forest
  case agree =>
    intro key root ends
    obtain ⟨before, held⟩ := faithful.forest.resolves key
    obtain rfl := ends.unique (inMemory.resolves held)
    exact onRows.resolves (faithful.agree key before held)
  case inputs =>
    intro key held found
    have away : key ≠ path := by
      rintro rfl
      rw [forgotten] at found
      simp at found
    rw [rowNext_merged rows path canonical identity apart plain (faithful.root keptRoot), if_neg away]
    exact faithful.inputs key held found

theorem Sound.merged {lost : List Text} (sound : Sound rows lost) (apart : path ≠ canonical)
    (lostRoot : rowNext rows path = none) (keptRoot : rowNext rows canonical = none)
    (plain : identity.redirect = none) :
    Sound (mergedRows rows path canonical identity) (lost ++ [path]) where
  forest := (merges_rows rows path canonical identity apart plain lostRoot keptRoot).forest sound.forest
  lost := by
    intro key member
    rw [rowNext_merged rows path canonical identity apart plain keptRoot]
    split
    next => simp
    next other =>
      cases List.mem_append.mp member with
      | inl before => exact sound.lost key before
      | inr now => exact absurd (List.mem_singleton.mp now) other

end Commit

section Steps

def Agrees (world : World) (result : Option ConsolidationProgress) : Prop :=
  Sound world.store.rows world.lost ∧
    ∀ progress, result = some progress → Faithful world.store.rows progress

theorem commitResolvedMerge_agrees (refused : Text → Bool) (path into : Text) (world : World)
    (progress : ConsolidationProgress) (sound : Sound world.store.rows world.lost)
    (faithful : Faithful world.store.rows progress)
    (lostRoot : progress.redirects.lookup path = none) (forgotten : progress.inputs.lookup path = none)
    (result : Except AppError ConsolidationProgress) (after : World)
    (ran : commitResolvedMerge refused path into world progress = (result, after)) :
    Agrees after result.toOption := by
  have failed (error : AppError) (same : (.error error, world) = (result, after)) :
      Agrees after result.toOption := by
    obtain ⟨rfl, rfl⟩ := Prod.mk.inj same
    exact ⟨sound, by simp [Except.toOption]⟩
  simp only [commitResolvedMerge] at ran
  cases held : progress.inputs.lookup (canonicalPath progress.redirects into) with
  | none =>
      rw [held] at ran
      exact failed _ ran
  | some identity =>
      rw [held] at ran
      simp only at ran
      split at ran
      next => exact failed _ ran
      next =>
        split at ran
        next => exact failed _ ran
        next goes =>
          obtain ⟨rfl, rfl⟩ := Prod.mk.inj ran
          have apart : path ≠ canonicalPath progress.redirects into := fun same => goes (Or.inl same.symm)
          have keptRoot := (canonicalPath_resolves progress.redirects faithful.forest into).2
          have plain := (faithful.inputs _ identity held).2
          refine ⟨sound.merged _ path _ identity apart (faithful.root lostRoot)
            (faithful.root keptRoot) plain, ?_⟩
          intro progress' same
          obtain rfl := Option.some.inj same
          exact faithful.merged _ _ path _ identity apart lostRoot keptRoot plain forgotten

theorem mergeLosing_agrees (refused : Text → Bool) (into : Text) (listed : List Text) (world : World)
    (progress : ConsolidationProgress) (sound : Sound world.store.rows world.lost)
    (faithful : Faithful world.store.rows progress)
    (result : Except AppError ConsolidationProgress) (after : World)
    (ran : mergeLosing refused into listed world progress = (result, after)) :
    Agrees after result.toOption := by
  induction listed generalizing world progress with
  | nil =>
      obtain ⟨rfl, rfl⟩ := Prod.mk.inj ran
      refine ⟨sound, ?_⟩
      intro progress' same
      obtain rfl := Option.some.inj same
      exact faithful
  | cons path rest ih =>
      simp only [mergeLosing] at ran
      split at ran
      next => exact ih world progress sound faithful ran
      next =>
        split at ran
        next error _ =>
          obtain ⟨rfl, rfl⟩ := Prod.mk.inj ran
          exact ⟨sound, by simp [Except.toOption]⟩
        next staged required =>
          obtain ⟨faithful', redirects⟩ := requireInput_faithful _ _ _ _ _ faithful required
          have lostRoot := (canonicalPath_resolves progress.redirects faithful.forest path).2
          have step := commitResolvedMerge_agrees refused (canonicalPath progress.redirects path)
            (canonicalPath progress.redirects into) world
            (forget (canonicalPath progress.redirects path) staged) sound (faithful'.forget _)
            (by simpa [forget, redirects] using lostRoot) (by simp [forget, AList.lookup_erase])
          split at ran
          next error between committed =>
            obtain ⟨rfl, rfl⟩ := Prod.mk.inj ran
            exact step _ _ committed
          next merged between committed =>
            obtain ⟨sound', faithful''⟩ := step _ _ committed
            exact ih between merged sound' (faithful'' merged rfl) ran

theorem resolveMerge_agrees (refused : Text → Bool) (listed : List Text) (canonical : Text)
    (world : World) (progress : ConsolidationProgress) (sound : Sound world.store.rows world.lost)
    (faithful : Faithful world.store.rows progress)
    (result : Except AppError ConsolidationProgress) (after : World)
    (ran : resolveMerge refused listed canonical world progress = (result, after)) :
    Agrees after result.toOption := by
  simp only [resolveMerge] at ran
  split at ran
  next error _ =>
    obtain ⟨rfl, rfl⟩ := Prod.mk.inj ran
    exact ⟨sound, by simp [Except.toOption]⟩
  next staged required =>
    obtain ⟨faithful', _⟩ := requireInput_faithful _ _ _ _ _ faithful required
    exact mergeLosing_agrees refused _ listed world staged sound faithful' result after ran

theorem rowNext_checkpoint (item : Text) (decided : Option IdentityProgress)
    (inputs rows : Table IdentityProgress)
    (plain : ∀ identity, decided = some identity → identity.redirect = none)
    (stands : ∀ path identity, inputs.lookup path = some identity →
      rowNext rows path = none ∧ identity.redirect = none) :
    rowNext (checkpointTransition item decided inputs rows) = rowNext rows := by
  have written (entries : List (Sigma fun _ : Text => IdentityProgress))
      (listed : ∀ entry ∈ entries, entry ∈ inputs.entries) (start : Table IdentityProgress)
      (same : rowNext start = rowNext rows) :
      rowNext (entries.foldl (fun written input =>
        if input.1 ≠ item ∧ (rows.lookup input.1).isSome then written
        else
          let held := (rows.lookup input.1).getD input.2
          written.insert input.1 (if input.1 = item then decided.getD held else held)) start) =
        rowNext rows := by
    induction entries generalizing start with
    | nil => exact same
    | cons entry entries ih =>
        apply ih (fun later member => listed later (List.mem_cons_of_mem _ member))
        beta_reduce
        split
        · exact same
        · obtain ⟨path, identity⟩ := entry
          obtain ⟨row, own⟩ := stands path identity
            (AList.mem_lookup_iff.mpr (listed _ List.mem_cons_self))
          have held : ((rows.lookup path).getD identity).redirect = none := by
            cases found : rows.lookup path with
            | none => exact own
            | some stored => simpa [rowNext, found] using row
          have goes : (if path = item then decided.getD ((rows.lookup path).getD identity)
              else (rows.lookup path).getD identity).redirect = none := by
            split
            · cases chosen : decided with
              | none => exact held
              | some identity' => exact plain identity' chosen
            · exact held
          funext key
          by_cases here : key = path
          · subst here
            rw [row, rowNext, AList.lookup_insert]
            exact goes
          · have other := congrFun same key
            simpa [rowNext, here] using other
  exact written inputs.entries (fun _ member => member) rows rfl

def Inv (world : World) : Prop := Agrees world world.progress

theorem checkpoint_inv (world : World) (inv : Inv world) (item : Text)
    (decided : Option IdentityProgress)
    (plain : ∀ identity, decided = some identity → identity.redirect = none) :
    Inv (world.checkpoint item decided) := by
  obtain ⟨sound, faithful⟩ := inv
  unfold World.checkpoint
  split
  next none' => exact ⟨sound, faithful⟩
  next progress here =>
    have held := faithful progress here
    have same := rowNext_checkpoint item decided progress.inputs world.store.rows plain held.inputs
    refine ⟨⟨same ▸ sound.forest, same ▸ sound.lost⟩, ?_⟩
    intro progress' same'
    obtain rfl : progress = progress' := Option.some.inj (here.symm.trans same')
    exact ⟨held.forest, same ▸ held.agree, same ▸ held.inputs⟩

theorem step_inv (world : World) (inv : Inv world) (event : Event) : Inv (world.step event) := by
  obtain ⟨sound, faithful⟩ := inv
  cases event with
  | reopen due =>
      refine ⟨sound, ?_⟩
      intro progress opened
      cases ran : openProgress world.store due with
      | error error => simp [World.step, ran, Except.toOption] at opened
      | ok progress' =>
          obtain rfl : progress' = progress := by simpa [World.step, ran, Except.toOption] using opened
          exact (openProgress_faithful world.store due progress' sound.forest ran).1
  | merge refused losing canonical =>
      cases running : world.progress with
      | none =>
          simp only [World.step, running]
          exact ⟨sound, faithful⟩
      | some progress =>
          cases ran : resolveMerge refused losing canonical world progress with
          | mk result after =>
              simp only [World.step, running, ran]
              exact resolveMerge_agrees refused losing canonical world progress sound
                (faithful progress running) result after ran
  | distinct path fingerprint =>
      exact checkpoint_inv world ⟨sound, faithful⟩ path _ (by rintro _ ⟨⟩; rfl)
  | unresolved path fingerprint =>
      exact checkpoint_inv world ⟨sound, faithful⟩ path _ (by rintro _ ⟨⟩; rfl)
  | checkpoint item => exact checkpoint_inv world ⟨sound, faithful⟩ item none (by simp)
  | crash => exact ⟨sound, by simp [World.step]⟩

theorem run_inv (world : World) (inv : Inv world) (events : List Event) : Inv (world.run events) := by
  induction events generalizing world with
  | nil => exact inv
  | cons event events ih => exact ih _ (step_inv world inv event)

end Steps

section Redirected

theorem start_inv (store : Store)
    (fresh : ∀ path canonical, store.rows.lookup path ≠ some (.coalesced canonical)) :
    Inv (World.start store) := by
  have still : ∀ path, rowNext store.rows path = none := by
    intro path
    cases found : store.rows.lookup path with
    | none => simp [rowNext, found]
    | some identity =>
        cases identity with
        | coalesced canonical => exact absurd found (fresh path canonical)
        | _ => simp [rowNext, found, IdentityProgress.redirect]
  refine ⟨⟨⟨fun _ => 0, ?_⟩, by simp [World.start]⟩, by simp [World.start]⟩
  intro earlier later goes
  rw [World.start, still] at goes
  simp at goes

/--
Whatever happened in the passes before: the redirects in memory end at a root, which is its own
canonical path and lost no merge, and a pass that opens on the rows redirects every path alike.
-/
theorem redirects_end (store : Store)
    (fresh : ∀ path canonical, store.rows.lookup path ≠ some (.coalesced canonical))
    (events : List Event) (progress : ConsolidationProgress)
    (running : ((World.start store).run events).progress = some progress) :
    (∀ path, Resolves progress.redirects.lookup path (canonicalPath progress.redirects path)) ∧
      (∀ path, canonicalPath progress.redirects (canonicalPath progress.redirects path) =
        canonicalPath progress.redirects path) ∧
      (∀ path, canonicalPath progress.redirects path ∉ ((World.start store).run events).lost) ∧
      ∀ due opened, openProgress ((World.start store).run events).store due = .ok opened →
        ∀ path, canonicalPath opened.redirects path = canonicalPath progress.redirects path := by
  obtain ⟨sound, faithful⟩ := run_inv _ (start_inv store fresh) events
  have held := faithful progress running
  have ends := canonicalPath_resolves progress.redirects held.forest
  refine ⟨ends, ?_, ?_, ?_⟩
  · intro path
    exact (ends _).unique (Resolves.here (ends path).2)
  · intro path member
    exact sound.lost _ member (held.root (ends path).2)
  · intro due opened ran path
    obtain ⟨faithful', redirects⟩ := openProgress_faithful _ due opened sound.forest ran
    have reopened := canonicalPath_resolves opened.redirects faithful'.forest path
    rw [redirects, lookup_recordedRedirects] at reopened
    rw [redirects]
    exact reopened.unique (held.agree path _ (ends path))

def twoRows : Store where
  rows := (AList.singleton ['a'] .pending).insert ['b'] .pending
  live := []

def opened : ConsolidationProgress where
  redirects := ∅
  inputs := (AList.singleton ['a'] .pending).insert ['b'] .pending

def afterMerge : ConsolidationProgress where
  redirects := AList.singleton ['b'] ['a']
  inputs := AList.singleton ['a'] .pending

def merged : List Event := [.reopen [['a'], ['b']], .merge (fun _ => false) [['b']] ['a']]

theorem entityByPath_row (store : Store) (path : Text) (identity : IdentityProgress)
    (found : store.rows.lookup path = some identity) (plain : identity.redirect = none) :
    entityByPath store [] path = .ok (some (path, identity)) := by
  rw [entityByPath, if_neg List.not_mem_nil]
  split
  next canonical goes =>
    obtain rfl := Option.some.inj (found.symm.trans goes)
    simp [IdentityProgress.redirect] at plain
  next held _ goes => rw [Option.some.inj (found.symm.trans goes)]
  next goes => simp [found] at goes

theorem canonicalPath_root (redirects : Table Text) (path : Text)
    (stays : redirects.lookup path = none) : canonicalPath redirects path = path := by
  rw [canonicalPath, walk, if_neg List.not_mem_nil]
  split
  next => rfl
  next goes => simp [stays] at goes

theorem opened_twoRows : openProgress twoRows [['a'], ['b']] = .ok opened := by
  have first := entityByPath_row twoRows ['a'] .pending (by decide) rfl
  have second := entityByPath_row twoRows ['b'] .pending (by decide) rfl
  simp only [openProgress, stageInputs, stageInput, first, second]
  rfl

theorem merged_run : (World.start twoRows).run merged =
    ⟨⟨mergedRows twoRows.rows ['b'] ['a'] .pending, []⟩, some afterMerge, [['b']]⟩ := by
  have still (path : Text) : canonicalPath opened.redirects path = path :=
    canonicalPath_root _ path (AList.lookup_empty path)
  have committed : commitResolvedMerge (fun _ => false) ['b'] ['a'] ⟨twoRows, some opened, []⟩
      (forget ['b'] opened) = (.ok afterMerge,
        ⟨⟨mergedRows twoRows.rows ['b'] ['a'] .pending, []⟩, some opened, [['b']]⟩) := by
    have here : canonicalPath (forget ['b'] opened).redirects ['a'] = ['a'] := still ['a']
    have staged : (forget ['b'] opened).inputs.lookup ['a'] = some .pending := by decide
    have row : hasRow twoRows ['b'] = true := rfl
    have apart : (['a'] : Text) ≠ ['b'] := by decide
    unfold commitResolvedMerge
    rw [here]
    dsimp only
    rw [staged]
    simp only [row, apart]
    rfl
  have resolved : resolveMerge (fun _ => false) [['b']] ['a'] ⟨twoRows, some opened, []⟩ opened =
      (.ok afterMerge, ⟨⟨mergedRows twoRows.rows ['b'] ['a'] .pending, []⟩, some opened, [['b']]⟩) := by
    have required (role path : Text) (held : opened.inputs.lookup path = some .pending) :
        requireInput role path twoRows opened = .ok opened := by
      simp only [requireInput, held]
    have apart : (['b'] : Text) ≠ ['a'] := by decide
    simp only [resolveMerge, still, required _ ['a'] (by decide), mergeLosing, if_neg apart,
      required _ ['b'] (by decide), committed]
  simp only [World.run, merged, List.foldl_cons, List.foldl_nil, World.step, World.start,
    opened_twoRows, Except.toOption, resolved]

theorem redirects_end_twoRows :
    ((World.start twoRows).run merged).lost = [['b']] ∧
      ∀ path, canonicalPath afterMerge.redirects path ∉ ((World.start twoRows).run merged).lost := by
  have fresh : ∀ path canonical, twoRows.rows.lookup path ≠ some (.coalesced canonical) := by
    intro path canonical found
    have member := AList.mem_lookup_iff.mp found
    have listed : twoRows.rows.entries = [⟨['b'], .pending⟩, ⟨['a'], .pending⟩] := rfl
    simp [listed] at member
  have running : ((World.start twoRows).run merged).progress = some afterMerge := by
    rw [merged_run]
  constructor
  · rw [merged_run]
  · exact (redirects_end twoRows fresh merged afterMerge running).2.2.1

end Redirected

end Frona.Resolve
