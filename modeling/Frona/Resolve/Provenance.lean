import Frona.Machine.Moves
import Frona.Reconcile.Proposals

set_option autoImplicit false

namespace Frona.Resolve

open Contraction (Contracted contracted_comp contracted_congr follow follow_eq_other
  follow_eq_target follow_ne sequential_eq)
open Frona.Reconcile (EntityProposal SchemaEdit Table mem_foldl_pushNew pushNew)
open Moves (sequential)
open Utf8 (Text)

-- The promoted edge `(relation, target)` of an entity, with the memories that state it.
abbrev Sources := List ((Text × Text) × List Text)

/-- `HashMap::insert`: the new value replaces the one held under the same key. -/
def insertSources (held : Sources) (edge : Text × Text) (sources : List Text) : Sources :=
  (edge, sources) :: held.filter fun entry => entry.1 ≠ edge

def heldSources (held : Sources) (edge : Text × Text) : List Text :=
  ((held.find? fun entry => entry.1 = edge).map Prod.snd).getD []

-- `entry(edge).or_default()`, then every source that is not held yet.
def uniteSources (held : Sources) (entry : (Text × Text) × List Text) : Sources :=
  insertSources held entry.1 (entry.2.foldl pushNew (heldSources held entry.1))

def mergeProposal (kept lost : EntityProposal) : EntityProposal where
  classes := lost.classes.foldl pushNew kept.classes
  edits := lost.edits.foldl pushNew kept.edits
  attrRekeys := lost.attrRekeys.foldl pushNew kept.attrRekeys
  promoted := lost.promoted.foldl pushNew kept.promoted
  promotedSources := lost.promotedSources.foldl uniteSources kept.promotedSources
  retracted := lost.retracted.foldl pushNew kept.retracted

section Retarget

variable (move : Text × Text)

def absorbProposal (byPath : Table EntityProposal) : Table EntityProposal :=
  match byPath.lookup move.1 with
  | none => byPath
  | some lost =>
      let rest := byPath.erase move.1
      match rest.lookup move.2 with
      | some kept => rest.insert move.2 (mergeProposal kept lost)
      | none => rest.insert move.2 lost

def redirectSources (path : Text) (sources : Sources) : Sources :=
  sources.foldl (fun out entry =>
    let target := follow move entry.1.2
    if target ≠ path then insertSources out (entry.1.1, target) entry.2 else out) []

def redirectPromoted (path : Text) (promoted : List (Text × Text × Text)) :
    List (Text × Text × Text) :=
  (promoted.map fun edge => (edge.1, edge.2.1, follow move edge.2.2)).filter fun edge =>
    edge.2.2 ≠ path

def redirectProposal (path : Text) (proposal : EntityProposal) : EntityProposal :=
  { proposal with
    promotedSources := redirectSources move path proposal.promotedSources
    promoted := redirectPromoted move path proposal.promoted }

def mapEntries (change : Text → EntityProposal → EntityProposal) (byPath : Table EntityProposal) :
    Table EntityProposal where
  entries := byPath.entries.map (Sigma.map id change)
  nodupKeys := byPath.nodupKeys.map₂ change

/-- `retarget`, as far as the proposals go: the entities and their shapes are merged beside them. -/
def retarget (byPath : Table EntityProposal) : Table EntityProposal :=
  mapEntries (redirectProposal move) (absorbProposal move byPath)

end Retarget

-- One merge after the other.
def retargets (moves : List (Text × Text)) (byPath : Table EntityProposal) : Table EntityProposal :=
  moves.foldl (fun byPath move => retarget move byPath) byPath

namespace Sources

variable (held : Sources) (edge other : Text × Text) (ids : List Text) (memory : Text)

def Keyed : Prop := (held.map Prod.fst).Nodup

def backs : Prop := ∃ ids, (edge, ids) ∈ held ∧ memory ∈ ids

theorem keys_insert : other ∈ (insertSources held edge ids).map Prod.fst ↔
    other = edge ∨ other ∈ held.map Prod.fst := by
  by_cases same : other = edge
  · simp [insertSources, same]
  · simp [insertSources, same]

theorem keyed_insert (once : Keyed held) : Keyed (insertSources held edge ids) := by
  have rest : ((held.filter fun entry => entry.1 ≠ edge).map Prod.fst).Nodup :=
    once.sublist (List.filter_sublist.map Prod.fst)
  simpa [Keyed, insertSources] using rest

theorem backs_insert : backs (insertSources held edge ids) other memory ↔
    (other = edge ∧ memory ∈ ids) ∨ (other ≠ edge ∧ backs held other memory) := by
  by_cases same : other = edge
  · subst same
    simp [backs, insertSources]
  · simp [backs, insertSources, same]

theorem mem_heldSources (once : Keyed held) :
    memory ∈ heldSources held edge ↔ backs held edge memory := by
  cases found : held.find? fun entry => entry.1 = edge with
  | none =>
      have absent : ∀ ids, (edge, ids) ∉ held := by
        intro ids member
        simpa using List.find?_eq_none.mp found _ member
      simp [heldSources, found, backs, absent]
  | some entry =>
      obtain rfl : entry.1 = edge := by simpa using List.find?_some found
      have member := List.mem_of_find?_eq_some found
      constructor
      · intro source
        exact ⟨entry.2, member, by simpa [heldSources, found] using source⟩
      · intro backed
        obtain ⟨ids, listed, source⟩ := backed
        have same : (entry.1, ids) = entry := List.inj_on_of_nodup_map once listed member rfl
        rw [← same] at found
        simpa [heldSources, found] using source

theorem keys_unite (entry : (Text × Text) × List Text) :
    other ∈ (uniteSources held entry).map Prod.fst ↔ other ∈ held.map Prod.fst ∨ other = entry.1 := by
  rw [uniteSources, keys_insert, or_comm]

theorem backs_unite (once : Keyed held) (entry : (Text × Text) × List Text) :
    backs (uniteSources held entry) other memory ↔
      backs held other memory ∨ (other = entry.1 ∧ memory ∈ entry.2) := by
  rw [uniteSources, backs_insert, mem_foldl_pushNew, mem_heldSources held entry.1 memory once]
  by_cases same : other = entry.1 <;> simp [same]

theorem keys_foldl_unite (lost : Sources) :
    other ∈ (lost.foldl uniteSources held).map Prod.fst ↔
      other ∈ held.map Prod.fst ∨ other ∈ lost.map Prod.fst := by
  induction lost generalizing held with
  | nil => simp
  | cons entry lost ih =>
      rw [List.foldl_cons, ih, keys_unite]
      simp [or_assoc]

theorem keyed_foldl_unite (lost : Sources) (once : Keyed held) :
    Keyed (lost.foldl uniteSources held) := by
  induction lost generalizing held with
  | nil => exact once
  | cons entry lost ih => exact ih _ (keyed_insert held entry.1 _ once)

theorem backs_foldl_unite (lost : Sources) (once : Keyed held) :
    backs (lost.foldl uniteSources held) other memory ↔
      backs held other memory ∨ backs lost other memory := by
  induction lost generalizing held with
  | nil => simp [backs]
  | cons entry lost ih =>
      have step : Keyed (uniteSources held entry) := keyed_insert held entry.1 _ once
      rw [List.foldl_cons, ih _ step, backs_unite held other memory once]
      have split : backs (entry :: lost) other memory ↔
          (other = entry.1 ∧ memory ∈ entry.2) ∨ backs lost other memory := by
        constructor
        · intro backed
          obtain ⟨ids, member, source⟩ := backed
          cases List.mem_cons.mp member with
          | inl here => exact Or.inl (by simp [← here, source])
          | inr deeper => exact Or.inr ⟨ids, deeper, source⟩
        · intro backed
          cases backed with
          | inl here => exact ⟨entry.2, by simp [here.1], here.2⟩
          | inr deeper =>
              obtain ⟨ids, member, source⟩ := deeper
              exact ⟨ids, List.mem_cons_of_mem _ member, source⟩
      rw [split, or_assoc]

section Redirect

variable (move : Text × Text) (path : Text)

def goesTo (entry : (Text × Text) × List Text) : Prop :=
  (entry.1.1, follow move entry.1.2) = edge ∧ edge.2 ≠ path

def redirectOne (out : Sources) (entry : (Text × Text) × List Text) : Sources :=
  let target := follow move entry.1.2
  if target ≠ path then insertSources out (entry.1.1, target) entry.2 else out

theorem redirectSources_eq (sources : Sources) :
    redirectSources move path sources = sources.foldl (redirectOne move path) [] := rfl

theorem redirectOne_cases (out : Sources) (entry : (Text × Text) × List Text) :
    (follow move entry.1.2 ≠ path ∧
        redirectOne move path out entry =
          insertSources out (entry.1.1, follow move entry.1.2) entry.2) ∨
      (follow move entry.1.2 = path ∧ redirectOne move path out entry = out) := by
  by_cases loop : follow move entry.1.2 = path
  · exact Or.inr ⟨loop, by simp [redirectOne, loop]⟩
  · exact Or.inl ⟨loop, by simp [redirectOne, loop]⟩

theorem keyed_redirect (sources out : Sources) (once : Keyed out) :
    Keyed (sources.foldl (redirectOne move path) out) := by
  induction sources generalizing out with
  | nil => exact once
  | cons entry sources ih =>
      apply ih
      cases redirectOne_cases move path out entry with
      | inl goes =>
          rw [goes.2]
          exact keyed_insert out _ _ once
      | inr stays =>
          rw [stays.2]
          exact once

theorem keys_redirect (sources out : Sources) :
    edge ∈ (sources.foldl (redirectOne move path) out).map Prod.fst ↔
      edge ∈ out.map Prod.fst ∨ ∃ entry ∈ sources, goesTo edge move path entry := by
  induction sources generalizing out with
  | nil => simp
  | cons entry sources ih =>
      rw [List.foldl_cons, ih]
      have step : edge ∈ (redirectOne move path out entry).map Prod.fst ↔
          edge ∈ out.map Prod.fst ∨ goesTo edge move path entry := by
        cases redirectOne_cases move path out entry with
        | inl goes =>
            rw [goes.2, keys_insert, or_comm]
            refine or_congr Iff.rfl ⟨fun same => ⟨same.symm, ?_⟩, fun goes' => goes'.1.symm⟩
            rw [same]
            exact goes.1
        | inr stays =>
            rw [stays.2, or_iff_left]
            rintro ⟨rfl, away⟩
            exact away stays.1
      rw [step, or_assoc]
      simp

theorem of_backs_redirect (sources out : Sources)
    (backed : backs (sources.foldl (redirectOne move path) out) edge memory) :
    backs out edge memory ∨ ∃ entry ∈ sources, goesTo edge move path entry ∧ memory ∈ entry.2 := by
  induction sources generalizing out with
  | nil => exact Or.inl backed
  | cons entry sources ih =>
      cases ih _ backed with
      | inr later =>
          obtain ⟨later, member, goes, source⟩ := later
          exact Or.inr ⟨later, List.mem_cons_of_mem _ member, goes, source⟩
      | inl now =>
          cases redirectOne_cases move path out entry with
          | inl goes =>
              rw [goes.2, backs_insert] at now
              cases now with
              | inl here =>
                  refine Or.inr ⟨entry, List.mem_cons_self, ⟨here.1.symm, ?_⟩, here.2⟩
                  rw [here.1]
                  exact goes.1
              | inr before => exact Or.inl before.2
          | inr stays => exact Or.inl (stays.2 ▸ now)

theorem backs_redirect_of_out (sources out : Sources) (backed : backs out edge memory)
    (unhit : ∀ entry ∈ sources, ¬goesTo edge move path entry) :
    backs (sources.foldl (redirectOne move path) out) edge memory := by
  induction sources generalizing out with
  | nil => exact backed
  | cons entry sources ih =>
      apply ih
      · cases redirectOne_cases move path out entry with
        | inl goes =>
            rw [goes.2, backs_insert]
            refine Or.inr ⟨?_, backed⟩
            intro same
            refine unhit entry List.mem_cons_self ⟨same.symm, ?_⟩
            rw [same]
            exact goes.1
        | inr stays =>
            rw [stays.2]
            exact backed
      · intro later member
        exact unhit later (List.mem_cons_of_mem _ member)

theorem backs_redirect_of_unique (sources out : Sources) (entry : (Text × Text) × List Text)
    (member : entry ∈ sources) (goes : goesTo edge move path entry) (source : memory ∈ entry.2)
    (alone : ∀ other ∈ sources, goesTo edge move path other → other = entry) :
    backs (sources.foldl (redirectOne move path) out) edge memory := by
  induction sources generalizing out with
  | nil => simp at member
  | cons head sources ih =>
      by_cases deeper : entry ∈ sources
      · exact ih _ deeper fun other later => alone other (List.mem_cons_of_mem _ later)
      · obtain rfl : entry = head := by
          cases List.mem_cons.mp member with
          | inl here => exact here
          | inr later => exact absurd later deeper
        rw [List.foldl_cons]
        apply backs_redirect_of_out
        · cases redirectOne_cases move path out entry with
          | inl inserted =>
              rw [inserted.2, backs_insert]
              exact Or.inl ⟨goes.1.symm, source⟩
          | inr stays =>
              have loop : edge.2 = path := goes.1 ▸ stays.1
              exact absurd loop goes.2
        · intro other later hits
          exact deeper (alone other (List.mem_cons_of_mem _ later) hits ▸ later)

end Redirect

end Sources

section Tables

def HasProposal (byPath : Table EntityProposal) (path : Text) (holds : EntityProposal → Prop) : Prop :=
  ∃ proposal, byPath.lookup path = some proposal ∧ holds proposal

def Promoted (byPath : Table EntityProposal) (path property target : Text) : Prop :=
  HasProposal byPath path fun proposal => ∃ key, (key, property, target) ∈ proposal.promoted

def Sourced (byPath : Table EntityProposal) (path property target : Text) : Prop :=
  HasProposal byPath path fun proposal =>
    (property, target) ∈ proposal.promotedSources.map Prod.fst

def Backs (byPath : Table EntityProposal) (path : Text) (label : Text × Text) (target : Text) : Prop :=
  HasProposal byPath path fun proposal =>
    Sources.backs proposal.promotedSources (label.1, target) label.2

def KeyedTable (byPath : Table EntityProposal) : Prop :=
  ∀ path proposal, byPath.lookup path = some proposal → Sources.Keyed proposal.promotedSources

variable (move : Text × Text) (byPath : Table EntityProposal) (path property target : Text)

theorem lookup_mapEntries (change : Text → EntityProposal → EntityProposal) :
    (mapEntries change byPath).lookup path = (byPath.lookup path).map (change path) :=
  List.dlookup_map₂ path

theorem absorb_lookup_source (away : move.1 ≠ move.2) :
    (absorbProposal move byPath).lookup move.1 = none := by
  cases lost : byPath.lookup move.1 with
  | none => simp [absorbProposal, lost]
  | some lost' =>
      cases kept : (byPath.erase move.1).lookup move.2 <;>
        simp [absorbProposal, lost, kept, away, AList.lookup_erase]

theorem absorb_lookup_other (elsewhere : path ≠ move.1) (distinct : path ≠ move.2) :
    (absorbProposal move byPath).lookup path = byPath.lookup path := by
  cases lost : byPath.lookup move.1 with
  | none => simp [absorbProposal, lost]
  | some lost' =>
      cases kept : (byPath.erase move.1).lookup move.2 <;>
        simp [absorbProposal, lost, kept, elsewhere, distinct]

theorem absorb_lookup_target (away : move.1 ≠ move.2) :
    (absorbProposal move byPath).lookup move.2 =
      match byPath.lookup move.1, byPath.lookup move.2 with
      | none, kept => kept
      | some lost, some kept => some (mergeProposal kept lost)
      | some lost, none => some lost := by
  cases lost : byPath.lookup move.1 with
  | none => simp [absorbProposal, lost]
  | some lost' =>
      have rest : (byPath.erase move.1).lookup move.2 = byPath.lookup move.2 :=
        AList.lookup_erase_ne away.symm
      cases kept : byPath.lookup move.2 <;> simp [absorbProposal, lost, rest, kept]

theorem absorb_holds (away : move.1 ≠ move.2) (holds : EntityProposal → Prop)
    (merged : ∀ kept lost, byPath.lookup move.2 = some kept →
      (holds (mergeProposal kept lost) ↔ holds kept ∨ holds lost)) :
    HasProposal (absorbProposal move byPath) path holds ↔
      ∃ path', follow move path' = path ∧ HasProposal byPath path' holds := by
  by_cases source : path = move.1
  · subst source
    refine iff_of_false ?_ ?_
    · simp [HasProposal, absorb_lookup_source move byPath away]
    · rintro ⟨path', followed, _⟩
      exact follow_ne away path' followed
  · by_cases here : path = move.2
    · subst here
      have split : (∃ path', follow move path' = move.2 ∧ HasProposal byPath path' holds) ↔
          HasProposal byPath move.1 holds ∨ HasProposal byPath move.2 holds := by
        simp only [follow_eq_target]
        constructor
        · rintro ⟨path', (rfl | rfl), held⟩
          · exact Or.inl held
          · exact Or.inr held
        · rintro (held | held)
          · exact ⟨move.1, Or.inl rfl, held⟩
          · exact ⟨move.2, Or.inr rfl, held⟩
      rw [split]
      simp only [HasProposal, absorb_lookup_target move byPath away]
      cases lost : byPath.lookup move.1 with
      | none => simp
      | some lost' =>
          cases kept : byPath.lookup move.2 with
          | none => simp
          | some kept' => simp [merged kept' lost' kept, or_comm]
    · simp only [HasProposal, absorb_lookup_other move byPath path source here, follow_eq_other here]
      constructor
      · rintro ⟨proposal, found, held⟩
        exact ⟨path, ⟨source, rfl⟩, proposal, found, held⟩
      · rintro ⟨path', ⟨_, rfl⟩, proposal, found, held⟩
        exact ⟨proposal, found, held⟩

theorem keyed_absorb (away : move.1 ≠ move.2) (keyed : KeyedTable byPath) :
    KeyedTable (absorbProposal move byPath) := by
  intro path proposal found
  by_cases source : path = move.1
  · rw [source, absorb_lookup_source move byPath away] at found
    simp at found
  · by_cases here : path = move.2
    · rw [here, absorb_lookup_target move byPath away] at found
      cases lost : byPath.lookup move.1 with
      | none => exact keyed move.2 proposal (by simpa [lost] using found)
      | some lost' =>
          cases kept : byPath.lookup move.2 with
          | none =>
              obtain rfl : lost' = proposal := by simpa [lost, kept] using found
              exact keyed move.1 lost' lost
          | some kept' =>
              obtain rfl : mergeProposal kept' lost' = proposal := by simpa [lost, kept] using found
              exact Sources.keyed_foldl_unite _ _ (keyed move.2 kept' kept)
    · rw [absorb_lookup_other move byPath path source here] at found
      exact keyed path proposal found

theorem retarget_holds (holds : EntityProposal → Prop) :
    HasProposal (retarget move byPath) path holds ↔
      HasProposal (absorbProposal move byPath) path fun proposal =>
        holds (redirectProposal move path proposal) := by
  simp only [HasProposal, retarget, lookup_mapEntries]
  cases (absorbProposal move byPath).lookup path <;> simp

theorem keyed_retarget : KeyedTable (retarget move byPath) := by
  intro path proposal found
  rw [retarget, lookup_mapEntries] at found
  cases absorbed : (absorbProposal move byPath).lookup path with
  | none => simp [absorbed] at found
  | some proposal' =>
      obtain rfl : redirectProposal move path proposal' = proposal := by simpa [absorbed] using found
      exact Sources.keyed_redirect move path _ [] List.nodup_nil

end Tables

section Step

variable (move : Text × Text) (byPath : Table EntityProposal) (path property target : Text)

theorem mem_redirectPromoted (promoted : List (Text × Text × Text)) :
    (∃ key, (key, property, target) ∈ redirectPromoted move path promoted) ↔
      target ≠ path ∧ ∃ target', follow move target' = target ∧
        ∃ key, (key, property, target') ∈ promoted := by
  simp only [redirectPromoted, List.mem_filter, List.mem_map, decide_eq_true_eq]
  constructor
  · rintro ⟨key, ⟨edge, member, same⟩, away⟩
    obtain ⟨key', property', target'⟩ := edge
    simp only [Prod.mk.injEq] at same
    obtain ⟨rfl, rfl, followed⟩ := same
    exact ⟨away, target', followed, key', member⟩
  · rintro ⟨away, target', followed, key, member⟩
    exact ⟨key, ⟨_, member, by simp [followed]⟩, away⟩

section Contract

variable {L : Type} (label : L) (holds : L → Text → EntityProposal → Prop)

def Unites : Prop :=
  ∀ target kept lost, byPath.lookup move.2 = some kept →
    (holds label target (mergeProposal kept lost) ↔ holds label target kept ∨ holds label target lost)

def HeldBefore (proposal : EntityProposal) : Prop :=
  target ≠ path ∧ ∃ target', follow move target' = target ∧ holds label target' proposal

variable (away : move.1 ≠ move.2) (unites : Unites move byPath label holds)

include away unites

theorem contracted_of_holds
    (redirected : ∀ proposal, HasProposal (absorbProposal move byPath) path (· = proposal) →
      holds label target (redirectProposal move path proposal) →
        HeldBefore move path target label holds proposal)
    (held : HasProposal (retarget move byPath) path (holds label target)) :
    Contracted (follow move) (fun path label target => HasProposal byPath path (holds label target))
      path label target := by
  obtain ⟨proposal, found, held⟩ := (retarget_holds move byPath path _).mp held
  obtain ⟨other, target', followed, held'⟩ := redirected proposal ⟨proposal, found, rfl⟩ held
  obtain ⟨path', start, before⟩ :=
    (absorb_holds move byPath path away _ (unites target')).mp ⟨proposal, found, held'⟩
  exact ⟨other.symm, path', target', start, followed, before⟩

theorem holds_of_contracted
    (redirected : ∀ proposal, HasProposal (absorbProposal move byPath) path (· = proposal) →
      HeldBefore move path target label holds proposal →
        holds label target (redirectProposal move path proposal))
    (contracted : Contracted (follow move)
      (fun path label target => HasProposal byPath path (holds label target)) path label target) :
    HasProposal (retarget move byPath) path (holds label target) := by
  obtain ⟨other, path', target', start, followed, before⟩ := contracted
  obtain ⟨proposal, found, held⟩ :=
    (absorb_holds move byPath path away _ (unites target')).mpr ⟨path', start, before⟩
  rw [retarget_holds]
  exact ⟨proposal, found, redirected proposal ⟨proposal, found, rfl⟩ ⟨other.symm, target', followed, held⟩⟩

end Contract

theorem promoted_retarget (away : move.1 ≠ move.2) :
    Promoted (retarget move byPath) path property target ↔
      Contracted (follow move) (Promoted byPath) path property target := by
  have unites : Unites move byPath property fun property target proposal =>
      ∃ key, (key, property, target) ∈ proposal.promoted := by
    intro target kept lost _
    simp only [mergeProposal, mem_foldl_pushNew]
    exact exists_or
  have redirected (proposal : EntityProposal) :=
    mem_redirectPromoted move path property target proposal.promoted
  constructor
  · exact contracted_of_holds move byPath path target property _ away unites
      fun proposal _ => (redirected proposal).mp
  · exact holds_of_contracted move byPath path target property _ away unites
      fun proposal _ => (redirected proposal).mpr

theorem mem_redirectSources (sources : Sources) :
    (property, target) ∈ (redirectSources move path sources).map Prod.fst ↔
      target ≠ path ∧ ∃ target', follow move target' = target ∧
        (property, target') ∈ sources.map Prod.fst := by
  rw [Sources.redirectSources_eq, Sources.keys_redirect]
  simp only [List.map_nil, List.not_mem_nil, false_or, Sources.goesTo, Prod.mk.injEq]
  constructor
  · rintro ⟨entry, member, ⟨rfl, followed⟩, other⟩
    exact ⟨other, entry.1.2, followed, List.mem_map_of_mem member⟩
  · rintro ⟨other, target', followed, member⟩
    obtain ⟨entry, listed, key⟩ := List.mem_map.mp member
    exact ⟨entry, listed, by simp [key, followed], other⟩

theorem sourced_retarget (away : move.1 ≠ move.2) :
    Sourced (retarget move byPath) path property target ↔
      Contracted (follow move) (Sourced byPath) path property target := by
  have unites : Unites move byPath property fun property target proposal =>
      (property, target) ∈ proposal.promotedSources.map Prod.fst := by
    intro target kept lost _
    exact Sources.keys_foldl_unite _ _ _
  have redirected (proposal : EntityProposal) :=
    mem_redirectSources move path property target proposal.promotedSources
  constructor
  · exact contracted_of_holds move byPath path target property _ away unites
      fun proposal _ => (redirected proposal).mp
  · exact holds_of_contracted move byPath path target property _ away unites
      fun proposal _ => (redirected proposal).mpr

def CollidesAt : Prop :=
  target = move.2 ∧ path ≠ move.1 ∧ path ≠ move.2 ∧
    Sourced byPath path property move.1 ∧ Sourced byPath path property move.2

variable (label : Text × Text) (keyed : KeyedTable byPath)

include keyed

theorem unites_backs : Unites move byPath label fun label target proposal =>
    Sources.backs proposal.promotedSources (label.1, target) label.2 := by
  intro target kept lost found
  exact Sources.backs_foldl_unite _ _ _ _ (keyed move.2 kept found)

theorem backs_retarget_sound (away : move.1 ≠ move.2)
    (backed : Backs (retarget move byPath) path label target) :
    Contracted (follow move) (Backs byPath) path label target := by
  refine contracted_of_holds move byPath path target label _ away
    (unites_backs move byPath label keyed) ?_ backed
  intro proposal _ held
  cases Sources.of_backs_redirect _ _ move path proposal.promotedSources [] held with
  | inl nothing => simp [Sources.backs] at nothing
  | inr found =>
      obtain ⟨entry, member, ⟨key, other⟩, source⟩ := found
      simp only [Prod.mk.injEq] at key
      exact ⟨other, entry.1.2, key.2, entry.2, by simpa [← key.1] using member, source⟩

theorem backs_retarget_complete (away : move.1 ≠ move.2)
    (apart : ¬CollidesAt move byPath path label.1 target)
    (contracted : Contracted (follow move) (Backs byPath) path label target) :
    Backs (retarget move byPath) path label target := by
  refine holds_of_contracted move byPath path target label _ away
    (unites_backs move byPath label keyed) ?_ contracted
  intro proposal present before
  obtain ⟨other, target', followed, ids, member, source⟩ := before
  have found : (absorbProposal move byPath).lookup path = some proposal := by
    obtain ⟨stored, found, rfl⟩ := present
    exact found
  have once := keyed_absorb move byPath away keyed path _ found
  refine Sources.backs_redirect_of_unique _ _ move path _ [] ((label.1, target'), ids) member
    ⟨by simp [followed], other⟩ source ?_
  rintro ⟨⟨property, target''⟩, ids'⟩ listed ⟨key, _⟩
  obtain ⟨rfl, followed'⟩ : property = label.1 ∧ follow move target'' = target := by simpa using key
  by_cases same : target'' = target'
  · exact List.inj_on_of_nodup_map once listed member (by simp [same])
  · -- Two different targets follow to one only when they are the two merged entities.
    exfalso
    by_cases here : target = move.2
    · subst here
      rw [follow_eq_target] at followed followed'
      have both : (label.1, move.1) ∈ proposal.promotedSources.map Prod.fst ∧
          (label.1, move.2) ∈ proposal.promotedSources.map Prod.fst := by
        have first := List.mem_map_of_mem (f := Prod.fst) member
        have second := List.mem_map_of_mem (f := Prod.fst) listed
        rcases followed with rfl | rfl <;> rcases followed' with rfl | rfl
        · exact absurd rfl same
        · exact ⟨first, second⟩
        · exact ⟨second, first⟩
        · exact absurd rfl same
      have elsewhere : path ≠ move.1 := by
        rintro rfl
        rw [absorb_lookup_source move byPath away] at found
        simp at found
      rw [absorb_lookup_other move byPath path elsewhere other.symm] at found
      exact apart ⟨rfl, elsewhere, other.symm, ⟨_, found, both.1⟩, ⟨_, found, both.2⟩⟩
    · rw [follow_eq_other here] at followed followed'
      exact same (followed'.2.trans followed.2.symm)

end Step

section Runs

theorem retargets_cons (move : Text × Text) (rest : List (Text × Text))
    (byPath : Table EntityProposal) :
    retargets (move :: rest) byPath = retargets rest (retarget move byPath) := rfl

theorem contracted_run {L : Type} (edges : Table EntityProposal → Text → L → Text → Prop)
    (moves : List (Text × Text)) (some : moves ≠ [])
    (step : ∀ move ∈ moves, ∀ byPath path label target,
      edges (retarget move byPath) path label target ↔
        Contracted (follow move) (edges byPath) path label target)
    (byPath : Table EntityProposal) (path : Text) (label : L) (target : Text) :
    edges (retargets moves byPath) path label target ↔
      Contracted (sequential moves) (edges byPath) path label target := by
  induction moves generalizing byPath with
  | nil => exact absurd rfl some
  | cons move rest ih =>
      have first := step move List.mem_cons_self byPath
      rw [retargets_cons, sequential_eq]
      cases rest with
      | nil => exact first path label target
      | cons next rest =>
          rw [ih (by simp) (fun later member => step later (List.mem_cons_of_mem _ member)),
            ← contracted_comp]
          exact contracted_congr fun source target => first source label target

def CollidesAlong : List (Text × Text) → Table EntityProposal → Text → Text → Text → Prop
  | [], _, _, _, _ => False
  | move :: rest, byPath, path, property, target =>
      (∃ path' target', sequential rest path' = path ∧ sequential rest target' = target ∧
        CollidesAt move byPath path' property target') ∨
      CollidesAlong rest (retarget move byPath) path property target

theorem keyed_retargets (moves : List (Text × Text)) (byPath : Table EntityProposal)
    (keyed : KeyedTable byPath) : KeyedTable (retargets moves byPath) := by
  induction moves generalizing byPath with
  | nil => exact keyed
  | cons move rest ih => exact ih _ (keyed_retarget move byPath)

theorem backs_retargets_sound (moves : List (Text × Text)) (some : moves ≠ [])
    (proper : ∀ move ∈ moves, move.1 ≠ move.2) (byPath : Table EntityProposal)
    (keyed : KeyedTable byPath) (path : Text) (label : Text × Text) (target : Text)
    (backed : Backs (retargets moves byPath) path label target) :
    Contracted (sequential moves) (Backs byPath) path label target := by
  induction moves generalizing byPath with
  | nil => exact absurd rfl some
  | cons move rest ih =>
      have away := proper move List.mem_cons_self
      rw [sequential_eq, ← contracted_comp]
      cases rest with
      | nil =>
          have first := backs_retarget_sound move byPath path target label keyed away backed
          exact ⟨first.1, path, target, rfl, rfl, first⟩
      | cons next rest =>
          have later := ih (by simp) (fun later member => proper later (List.mem_cons_of_mem _ member))
            _ (keyed_retarget move byPath) backed
          exact later.mono fun path label target held =>
            backs_retarget_sound move byPath path target label keyed away held

theorem backs_retargets_complete (moves : List (Text × Text)) (some : moves ≠ [])
    (proper : ∀ move ∈ moves, move.1 ≠ move.2) (byPath : Table EntityProposal)
    (keyed : KeyedTable byPath) (path : Text) (label : Text × Text) (target : Text)
    (apart : ¬CollidesAlong moves byPath path label.1 target)
    (contracted : Contracted (sequential moves) (Backs byPath) path label target) :
    Backs (retargets moves byPath) path label target := by
  induction moves generalizing byPath with
  | nil => exact absurd rfl some
  | cons move rest ih =>
      have away := proper move List.mem_cons_self
      rw [CollidesAlong, not_or] at apart
      rw [sequential_eq, ← contracted_comp] at contracted
      obtain ⟨other, path', target', start, followed, before⟩ := contracted
      have here : Backs (retarget move byPath) path' label target' := by
        refine backs_retarget_complete move byPath path' target' label keyed away ?_ before
        intro collides
        exact apart.1 ⟨path', target', start, followed, collides⟩
      cases rest with
      | nil =>
          obtain rfl : path' = path := start
          obtain rfl : target' = target := followed
          exact here
      | cons next rest =>
          exact ih (by simp) (fun later member => proper later (List.mem_cons_of_mem _ member)) _
            (keyed_retarget move byPath) apart.2 ⟨other, path', target', start, followed, here⟩

/-- What a run of merges that ends with this one leaves of the edges and of their sources. -/
structure KeepsProvenance (byPath : Table EntityProposal) (moves : List (Text × Text))
    (last : Text × Text) (after : Table EntityProposal) : Prop where
  gone : after.lookup last.1 = none
  promoted : ∀ path property target, Promoted after path property target →
    target ≠ last.1 ∧ target ≠ path
  sourced : ∀ path property target, Sourced after path property target →
    target ≠ last.1 ∧ target ≠ path
  edges : ∀ path property target, Promoted after path property target ↔
    Contracted (sequential (moves ++ [last])) (Promoted byPath) path property target
  keys : ∀ path property target, Sourced after path property target ↔
    Contracted (sequential (moves ++ [last])) (Sourced byPath) path property target
  sound : ∀ path label target, Backs after path label target →
    Contracted (sequential (moves ++ [last])) (Backs byPath) path label target
  complete : ∀ path label target, ¬CollidesAlong (moves ++ [last]) byPath path label.1 target →
    Contracted (sequential (moves ++ [last])) (Backs byPath) path label target →
      Backs after path label target
  matched : (∀ path property target, Promoted byPath path property target ↔
      Sourced byPath path property target) →
    ∀ path property target, Promoted after path property target ↔ Sourced after path property target

theorem retargets_append (moves : List (Text × Text)) (last : Text × Text)
    (byPath : Table EntityProposal) :
    retargets (moves ++ [last]) byPath = retarget last (retargets moves byPath) := by
  rw [retargets, List.foldl_append]
  rfl

theorem retargets_keep_provenance (byPath : Table EntityProposal) (keyed : KeyedTable byPath)
    (moves : List (Text × Text)) (last : Text × Text)
    (proper : ∀ move ∈ moves ++ [last], move.1 ≠ move.2) :
    KeepsProvenance byPath moves last (retargets (moves ++ [last]) byPath) := by
  have some : moves ++ [last] ≠ [] := by simp
  have away : last.1 ≠ last.2 := proper last (by simp)
  have edges := contracted_run Promoted (moves ++ [last]) some
    (fun move member byPath path property target =>
      promoted_retarget move byPath path property target (proper move member)) byPath
  have keys := contracted_run Sourced (moves ++ [last]) some
    (fun move member byPath path property target =>
      sourced_retarget move byPath path property target (proper move member)) byPath
  have renamed (edges : Text → Text → Text → Prop) (path property target : Text)
      (edge : Contracted (follow last) edges path property target) :
      target ≠ last.1 ∧ target ≠ path := by
    obtain ⟨other, _, target', _, followed, _⟩ := edge
    exact ⟨followed ▸ follow_ne away target', other.symm⟩
  constructor
  case gone =>
    rw [retargets_append, retarget, lookup_mapEntries, absorb_lookup_source last _ away]
    rfl
  case promoted =>
    intro path property target held
    rw [retargets_append, promoted_retarget _ _ _ _ _ away] at held
    exact renamed _ path property target held
  case sourced =>
    intro path property target held
    rw [retargets_append, sourced_retarget _ _ _ _ _ away] at held
    exact renamed _ path property target held
  case edges => exact edges
  case keys => exact keys
  case sound => exact backs_retargets_sound _ some proper byPath keyed
  case complete => exact backs_retargets_complete _ some proper byPath keyed
  case matched =>
    intro same path property target
    rw [edges, keys]
    exact contracted_congr fun source target => same source property target

end Runs

section Merged

def me : Text := "people/me".toList

def worksFor : Text := "schema:worksFor".toList

def employer : Text := "employer".toList

def acme : Text := "organizations/acme".toList

def acmeShop : Text := "shops/acme".toList

def edgeTo (target : Text) (sources : Sources) : EntityProposal where
  classes := []
  edits := []
  attrRekeys := []
  promoted := [(employer, worksFor, target)]
  promotedSources := sources
  retracted := []

def recorded : Table EntityProposal :=
  AList.singleton me (edgeTo acmeShop [((worksFor, acmeShop), ["m1".toList])])

theorem retargets_recorded :
    KeepsProvenance recorded [] (acmeShop, acme) (retargets [(acmeShop, acme)] recorded) := by
  refine retargets_keep_provenance recorded ?_ [] (acmeShop, acme) ?_
  · intro path proposal found
    by_cases here : path = me
    · subst here
      have held : recorded.lookup me =
          some (edgeTo acmeShop [((worksFor, acmeShop), ["m1".toList])]) := by
        decide
      obtain rfl := Option.some.inj (held.symm.trans found)
      simp [Sources.Keyed, edgeTo]
    · have missing : recorded.lookup path = none := by
        rw [AList.lookup_eq_none, recorded, AList.mem_keys, AList.keys_singleton]
        simpa using here
      rw [missing] at found
      simp at found
  · intro move member
    obtain rfl : move = (acmeShop, acme) := by simpa using member
    decide

def classified : Table EntityProposal := AList.singleton me (edgeTo acmeShop [])

theorem classified_unsourced :
    Promoted (retarget (acmeShop, acme) classified) me worksFor acme ∧
      ¬Sourced (retarget (acmeShop, acme) classified) me worksFor acme := by
  have held : (retarget (acmeShop, acme) classified).lookup me =
      some (edgeTo acme []) := by
    decide
  constructor
  · exact ⟨_, held, employer, List.mem_singleton.mpr rfl⟩
  · rintro ⟨proposal, found, sourced⟩
    obtain rfl := Option.some.inj (held.symm.trans found)
    simp [edgeTo] at sourced

end Merged

end Frona.Resolve
