import Mathlib.Data.List.Induction
import Frona.Consolidate.AttributeValues

set_option autoImplicit false

namespace Frona.Consolidate

open Utf8 (Text)
open Frona.Chat (Json)

section Union

variable (held : Json) (incoming : List Json)

/-- The merge keeps every value that is supplied, each once, whatever the order and the grouping in
which the values are supplied, and merging one of the sources again changes nothing. -/
structure MergesAsUnion : Prop where
  leaves : ∀ source ∈ held :: incoming, ∀ leaf ∈ leaves source, leaf ∈ leaves (mergeAll held incoming)
  nodup : (values (mergeAll held incoming)).Nodup
  idempotent : ∀ source ∈ incoming,
    mergeConsolidationAttributeValues (mergeAll held incoming) source = mergeAll held incoming
  orders : ∀ other : List Json, (other.flatMap values).Perm (incoming.flatMap values) →
    ∀ value, value ∈ values (mergeAll held other) ↔ value ∈ values (mergeAll held incoming)
  kept : ∀ source ∈ held :: incoming, ∀ value ∈ values source,
    value ∈ values (mergeAll held incoming)

/-- The value is a list of its own that begins with what is held and goes on with supplied values,
each once: when exactly these are held, it passes for all that is held. -/
def PassesForHeld (supplied : List Json) (value : Json) : Prop :=
  ∃ added, value = .array (values held ++ added) ∧ (values held ++ added).Nodup ∧
    (∀ item ∈ added, item ∈ supplied) ∧ (isArray held = true ∨ added ≠ [])

end Union

section Run

variable {held : Json}

structure Gathers (held current : Json) (seen : List Json) : Prop where
  nodup : (values current).Nodup
  grows : ∃ added, values current = values held ++ added ∧ ∀ item ∈ added, item ∈ seen
  shape : isArray current = true → isArray held = true ∨ values current ≠ values held
  all : ∀ value ∈ seen, value ∈ values current

theorem Gathers.start (nodup : (values held).Nodup) : Gathers held held [] where
  nodup := nodup
  grows := ⟨[], by simp⟩
  shape list := .inl list
  all := by simp

theorem Gathers.step {current value : Json} {seen : List Json} (gathers : Gathers held current seen)
    (apart : value ∈ values current ∨ current ≠ value) :
    Gathers held (mergeValue current value) (seen ++ [value]) := by
  obtain ⟨added, grown, from_⟩ := gathers.grows
  by_cases known : value ∈ values current
  · rw [mergeValue_held (.inl known)]
    refine ⟨gathers.nodup, ⟨added, grown, fun item member => ?_⟩, gathers.shape, ?_⟩
    · exact List.mem_append_left _ (from_ item member)
    · simp only [List.mem_append, List.mem_singleton]
      rintro other (old | rfl)
      · exact gathers.all other old
      · exact known
  · rw [mergeValue_new known (apart.resolve_left known)]
    refine ⟨?_, ⟨added ++ [value], by simp [grown], ?_⟩, fun _ => .inr ?_, ?_⟩
    · simpa [List.nodup_append, gathers.nodup] using fun item member => ne_of_mem_of_not_mem member known
    · simp only [List.mem_append, List.mem_singleton]
      rintro item (old | rfl)
      · exact .inl (from_ item old)
      · exact .inr rfl
    · intro same
      have := congrArg List.length same
      simp [grown] at this
    · simp only [values_array, List.mem_append, List.mem_singleton]
      rintro other (old | rfl)
      · exact .inl (gathers.all other old)
      · exact .inr rfl

theorem Gathers.passes {current value : Json} {seen supplied : List Json}
    (gathers : Gathers held current seen) (among : ∀ item ∈ seen, item ∈ supplied)
    (missing : value ∉ values current) (equal : current = value) :
    PassesForHeld held supplied value := by
  obtain ⟨added, grown, from_⟩ := gathers.grows
  subst equal
  have list : isArray current = true := by
    by_contra scalar
    rw [values_of_not_array (by simpa using scalar)] at missing
    simp at missing
  have spelled : current = .array (values current) := by
    cases current <;> first | rfl | simp [isArray] at list
  refine ⟨added, grown ▸ spelled, grown ▸ gathers.nodup, fun item member =>
    among item (from_ item member), (gathers.shape list).imp_right fun differs none => ?_⟩
  simp [none] at grown
  exact differs grown

theorem gathers_foldl (supplied front rest : List Json)
    (among : ∀ value ∈ front ++ rest, value ∈ supplied)
    (none : ∀ value ∈ rest, ¬PassesForHeld held supplied value) {current : Json}
    (gathers : Gathers held current front) :
    Gathers held (rest.foldl mergeValue current) (front ++ rest) := by
  induction rest generalizing front current with
  | nil => simpa using gathers
  | cons value rest ih =>
      have apart : value ∈ values current ∨ current ≠ value := by
        by_contra both
        rw [not_or, not_not] at both
        exact none value (by simp) (gathers.passes (fun item member => among item (by simp [member]))
          both.1 both.2)
      have next := ih (front ++ [value]) (by simpa using among)
        (fun other member => none other (by simp [member])) (gathers.step apart)
      simpa using next

theorem gathers_mergeAll (nodup : (values held).Nodup) (supplied incoming : List Json)
    (among : ∀ value ∈ incoming.flatMap values, value ∈ supplied)
    (none : ∀ value ∈ supplied, ¬PassesForHeld held supplied value) :
    Gathers held (mergeAll held incoming) (incoming.flatMap values) := by
  rw [mergeAll_eq_foldl]
  simpa using gathers_foldl supplied [] (incoming.flatMap values) (by simpa using among)
    (fun value member => none value (among value member)) (.start nodup)

theorem Gathers.mem_iff {current : Json} {seen : List Json} (gathers : Gathers held current seen)
    (value : Json) : value ∈ values current ↔ value ∈ values held ∨ value ∈ seen := by
  obtain ⟨added, grown, from_⟩ := gathers.grows
  constructor
  · intro member
    rw [grown, List.mem_append] at member
    exact member.imp_right (from_ value)
  · rintro (old | new)
    · simp [grown, old]
    · exact gathers.all value new

theorem mergeConsolidationAttributeValues_held {source : Json}
    (known : ∀ value ∈ values source, value ∈ values held) :
    mergeConsolidationAttributeValues held source = held := by
  unfold mergeConsolidationAttributeValues
  generalize values source = supplied at known
  induction supplied with
  | nil => rfl
  | cons value rest ih =>
      rw [List.foldl_cons, mergeValue_held (.inl (known value (by simp)))]
      exact ih fun other member => known other (by simp [member])

end Run

section Sound

variable {held : Json} {incoming : List Json}

theorem mergesAsUnion_of_none (nodup : (values held).Nodup)
    (none : ∀ value ∈ incoming.flatMap values,
      ¬PassesForHeld held (incoming.flatMap values) value) : MergesAsUnion held incoming := by
  have gathers := gathers_mergeAll nodup _ incoming (fun _ member => member) none
  have kept : ∀ source ∈ held :: incoming, ∀ value ∈ values source,
      value ∈ values (mergeAll held incoming) := by
    intro source member value supplied
    rw [gathers.mem_iff]
    rcases List.mem_cons.mp member with rfl | member
    · exact .inl supplied
    · exact .inr (List.mem_flatMap.mpr ⟨source, member, supplied⟩)
  refine ⟨?_, gathers.nodup, ?_, ?_, kept⟩
  · intro source member leaf inside
    rw [leaves_eq_flatMap] at inside ⊢
    obtain ⟨value, supplied, inside⟩ := List.mem_flatMap.mp inside
    exact List.mem_flatMap.mpr ⟨value, kept source member value supplied, inside⟩
  · intro source member
    exact mergeConsolidationAttributeValues_held (kept source (by simp [member]))
  · intro other perm value
    have others := gathers_mergeAll nodup (incoming.flatMap values) other
      (fun value member => perm.mem_iff.mp member) none
    rw [others.mem_iff, gathers.mem_iff, perm.mem_iff]

end Sound

section Exact

variable {held : Json} {incoming : List Json}

theorem values_prefix_mergeValue (current value : Json) :
    values current <+: values (mergeValue current value) := by
  by_cases known : value ∈ values current ∨ current = value
  · exact ⟨[], by rw [mergeValue_held known, List.append_nil]⟩
  · rw [not_or] at known
    exact ⟨[value], by rw [mergeValue_new known.1 known.2, values]⟩

theorem values_prefix_foldl (supplied : List Json) (current : Json) :
    values current <+: values (supplied.foldl mergeValue current) := by
  induction supplied generalizing current with
  | nil => exact List.prefix_rfl
  | cons value rest ih => exact (values_prefix_mergeValue current value).trans (ih _)

theorem mem_values_foldl {supplied : List Json} {current value : Json}
    (member : value ∈ values (supplied.foldl mergeValue current)) :
    value ∈ values current ∨ value ∈ supplied := by
  induction supplied generalizing current with
  | nil => exact .inl member
  | cons first rest ih =>
      rcases ih member with here | later
      · by_cases known : first ∈ values current ∨ current = first
        · rw [mergeValue_held known] at here
          exact .inl here
        · rw [not_or] at known
          rw [mergeValue_new known.1 known.2] at here
          simp only [values_array, List.mem_append, List.mem_singleton] at here
          exact here.imp_right fun same => by simp [same]
      · exact .inr (List.mem_cons_of_mem _ later)

theorem nodup_of_merges (merges : MergesAsUnion held incoming) : (values held).Nodup := by
  have grown := values_prefix_foldl (incoming.flatMap values) held
  rw [← mergeAll_eq_foldl] at grown
  exact merges.nodup.sublist grown.sublist

theorem array_not_mem (items : List Json) : Json.array items ∉ items := by
  intro member
  have := List.sizeOf_lt_of_mem member
  simp at this

theorem PassesForHeld.mono {supplied more : List Json} {value : Json}
    (passes : PassesForHeld held supplied value) (among : ∀ item ∈ supplied, item ∈ more) :
    PassesForHeld held more value := by
  obtain ⟨added, spelled, nodup, from_, list⟩ := passes
  exact ⟨added, spelled, nodup, fun item member => among item (from_ item member), list⟩

theorem foldl_spells (added : List Json) (nodup : (values held ++ added).Nodup)
    (none : ∀ value ∈ added, ¬PassesForHeld held added value)
    (list : isArray held = true ∨ added ≠ []) :
    added.foldl mergeValue held = .array (values held ++ added) := by
  induction added using List.reverseRecOn with
  | nil => cases held <;> simp_all [isArray]
  | append_singleton init value ih =>
      rw [← List.append_assoc] at nodup
      obtain ⟨before, -, apart⟩ := List.nodup_append.mp nodup
      have missing : value ∉ values held ++ init := fun member => apart value member value (by simp) rfl
      rw [List.foldl_append, List.foldl_cons, List.foldl_nil, ← List.append_assoc]
      by_cases grown : isArray held = true ∨ init ≠ []
      · rw [ih before (fun other member passes => none other (by simp [member])
          (passes.mono (by simp +contextual))) grown]
        refine mergeValue_new missing fun same => none value (by simp) ?_
        exact ⟨init, same.symm, before, by simp +contextual, grown⟩
      · simp only [not_or, not_not, Bool.not_eq_true] at grown
        obtain ⟨scalar, rfl⟩ := grown
        have alone := values_of_not_array scalar
        rw [List.append_nil] at missing ⊢
        refine mergeValue_new missing fun same => missing ?_
        simpa [alone] using same.symm

theorem foldl_passed {added copies rest : List Json} {value : Json}
    (spelled : added.foldl mergeValue held = value) (copied : ∀ copy ∈ copies, copy = value)
    (unspelled : value ∉ values value) (absent : value ∉ rest) :
    value ∉ values ((added ++ (copies ++ rest)).foldl mergeValue held) := by
  have dropped : copies.foldl mergeValue value = value := by
    induction copies with
    | nil => rfl
    | cons copy copies ih =>
        rw [List.foldl_cons, copied copy (by simp), mergeValue_held (.inr rfl)]
        exact ih fun other member => copied other (by simp [member])
  rw [List.foldl_append, List.foldl_append, spelled, dropped]
  intro member
  exact (mem_values_foldl member).elim unspelled absent

theorem perm_spelled_first {supplied added : List Json} (value : Json) (nodup : added.Nodup)
    (among : ∀ item ∈ added, item ∈ supplied) :
    ∃ copies rest, supplied.Perm (added ++ (copies ++ rest)) ∧ (∀ copy ∈ copies, copy = value) ∧
      value ∉ rest := by
  obtain ⟨sorted, perm, sublist⟩ := List.subperm_of_subset nodup among
  obtain ⟨others, split⟩ := sublist.exists_perm_append
  refine ⟨others.filter (· = value), others.filter fun other => !decide (other = value), ?_, ?_, ?_⟩
  · exact split.trans (perm.append (List.filter_append_perm _ _).symm)
  · simp
  · simp

theorem no_passes_of_merges (merges : MergesAsUnion held incoming) (size : Nat) :
    ∀ added value, added.length = size → value ∈ incoming.flatMap values →
      value = .array (values held ++ added) → (values held ++ added).Nodup →
      (∀ item ∈ added, item ∈ incoming.flatMap values) → ¬(isArray held = true ∨ added ≠ []) := by
  induction size using Nat.strong_induction_on with
  | _ size shorter =>
      intro added value length supplied spelled nodup among list
      -- A value of the ones spelled that passed itself would spell fewer.
      have none : ∀ item ∈ added, ¬PassesForHeld held added item := by
        rintro item member ⟨fewer, same, apart, from_, list'⟩
        have missing : item ∉ fewer := by
          intro inside
          exact array_not_mem (values held ++ fewer) (same ▸ List.mem_append_right _ inside)
        have bound : (item :: fewer).length ≤ added.length :=
          (List.subperm_of_subset (List.nodup_cons.mpr ⟨missing, (List.nodup_append.mp apart).2.1⟩)
            (List.cons_subset.mpr ⟨member, from_⟩)).length_le
        rw [List.length_cons] at bound
        exact shorter fewer.length (by omega) fewer item rfl (among item member) same apart
          (fun other inside => among other (from_ other inside)) list'
      obtain ⟨copies, rest, perm, copied, absent⟩ :=
        perm_spelled_first value (List.nodup_append.mp nodup).2.1 among
      have lost := foldl_passed ((foldl_spells added nodup none list).trans spelled.symm) copied
        (spelled ▸ array_not_mem _) absent
      have single : ∀ supplied : List Json,
          (supplied.map fun value => Json.array [value]).flatMap values = supplied := by
        intro supplied
        simp [List.flatMap_map]
      have same := merges.orders ((added ++ (copies ++ rest)).map fun value => .array [value])
        (by rw [single]; exact perm.symm) value
      rw [mergeAll_eq_foldl, single] at same
      obtain ⟨source, member, inside⟩ := List.mem_flatMap.mp supplied
      exact lost (same.mpr (merges.kept source (by simp [member]) value inside))

/-- The merge is a union exactly when nothing is held twice and no supplied value can be taken for
all that is held. -/
theorem mergesAsUnion_iff :
    MergesAsUnion held incoming ↔
      (values held).Nodup ∧ ∀ value ∈ incoming.flatMap values,
        ¬PassesForHeld held (incoming.flatMap values) value := by
  constructor
  · intro merges
    refine ⟨nodup_of_merges merges, ?_⟩
    rintro value supplied ⟨added, spelled, nodup, among, list⟩
    exact no_passes_of_merges merges added.length added value rfl supplied spelled nodup among list
  · rintro ⟨nodup, none⟩
    exact mergesAsUnion_of_none nodup none

theorem nested_list_dropped :
    ¬MergesAsUnion (.array [.string ['x']]) [.array [.array [.string ['x']]]] := by
  intro merges
  have kept := merges.kept (.array [.array [.string ['x']]]) (by simp) (.array [.string ['x']])
    (by simp)
  exact absurd kept (by decide)

end Exact

end Frona.Consolidate
