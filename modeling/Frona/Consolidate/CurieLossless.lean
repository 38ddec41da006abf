import Frona.Consolidate.CurieKeys

set_option autoImplicit false

namespace Frona.Consolidate

open Utf8 (Text)
open Frona.Chat (Json)
open Frona.Ontology (PrefixMap TermKind fronaPrefix)
open Frona.Text (trim)

section Exact

variable (upperCamel lowerCamel : Text → Text) (m : PrefixMap) (fields : Fields)

/-- Every value of the map stands among the values of the result under the CURIE of its key, and to
do it again changes nothing. -/
structure KeyedLosslessly : Prop where
  kept : ∀ entry ∈ fields, ∃ held,
    (curieKeyFields upperCamel lowerCamel m fields).lookup
      (curieKey upperCamel lowerCamel m (trim entry.1)) = some held ∧
    ∀ value ∈ values entry.2, value ∈ values held
  again : curieKeyFields upperCamel lowerCamel m (curieKeyFields upperCamel lowerCamel m fields) =
    curieKeyFields upperCamel lowerCamel m fields

/-- Of the keys with one CURIE, the last has the values of all. -/
def LastHoldsAll : Prop :=
  ∀ before last after, fields = before ++ last :: after →
    (∀ entry ∈ after, curieKey upperCamel lowerCamel m (trim entry.1) ≠
      curieKey upperCamel lowerCamel m (trim last.1)) →
    ∀ entry ∈ before, curieKey upperCamel lowerCamel m (trim entry.1) =
      curieKey upperCamel lowerCamel m (trim last.1) →
    ∀ value ∈ values entry.2, value ∈ values last.2

/-- The CURIE of a key is its own CURIE. -/
def Settles (key : Text) : Prop :=
  curieKey upperCamel lowerCamel m (trim (curieKey upperCamel lowerCamel m (trim key))) =
    curieKey upperCamel lowerCamel m (trim key)

variable {upperCamel lowerCamel m fields}

theorem exists_last {A : Type} {p : A → Prop} {items : List A} (some : ∃ item ∈ items, p item) :
    ∃ before last after, items = before ++ last :: after ∧ p last ∧ ∀ item ∈ after, ¬p item := by
  induction items with
  | nil => simp at some
  | cons first rest ih =>
      by_cases later : ∃ item ∈ rest, p item
      · obtain ⟨before, last, after, rfl, holds, none⟩ := ih later
        exact ⟨first :: before, last, after, rfl, holds, none⟩
      · obtain ⟨item, member, holds⟩ := some
        rcases List.mem_cons.mp member with rfl | member
        · exact ⟨[], item, rest, rfl, holds, by simpa using later⟩
        · exact absurd ⟨item, member, holds⟩ later

theorem curieKeyFields_last {before after : Fields} {last : Text × Json}
    (none : ∀ entry ∈ after, curieKey upperCamel lowerCamel m (trim entry.1) ≠
      curieKey upperCamel lowerCamel m (trim last.1)) :
    (curieKeyFields upperCamel lowerCamel m (before ++ last :: after)).lookup
      (curieKey upperCamel lowerCamel m (trim last.1)) = some last.2 := by
  rw [curieKeyFields, List.map_append, List.map_cons, List.foldl_append, List.foldl_cons,
    lookup_foldl_insertField, lookup_insertField]
  · simp [rekeyed]
  · simp only [List.map_map, List.mem_map, not_exists, not_and]
    exact fun entry member => none entry member

example : (curieKeyFields id id PrefixMap.standard [(['a'], .null), (['a'], .bool true)]).lookup
    (curieKey id id PrefixMap.standard ['a']) = some (.bool true) := by
  decide +kernel

theorem kept_iff :
    (∀ entry ∈ fields, ∃ held,
      (curieKeyFields upperCamel lowerCamel m fields).lookup
        (curieKey upperCamel lowerCamel m (trim entry.1)) = some held ∧
      ∀ value ∈ values entry.2, value ∈ values held) ↔
    LastHoldsAll upperCamel lowerCamel m fields := by
  constructor
  · rintro kept before last after rfl none entry member same
    obtain ⟨held, found, all⟩ := kept entry (by simp [member])
    rw [same, curieKeyFields_last none] at found
    exact Option.some.inj found ▸ all
  · intro holds entry member
    obtain ⟨before, last, after, rfl, same, none⟩ := exists_last
      (p := fun other : Text × Json => curieKey upperCamel lowerCamel m (trim other.1) =
        curieKey upperCamel lowerCamel m (trim entry.1)) ⟨entry, member, rfl⟩
    rw [← same] at none ⊢
    refine ⟨last.2, curieKeyFields_last none, ?_⟩
    simp only [List.mem_append, List.mem_cons] at member
    rcases member with earlier | rfl | later
    · exact holds before last after rfl none entry earlier same.symm
    · exact fun value inside => inside
    · exact absurd same.symm (none entry later)

theorem again_iff :
    curieKeyFields upperCamel lowerCamel m (curieKeyFields upperCamel lowerCamel m fields) =
        curieKeyFields upperCamel lowerCamel m fields ↔
      ∀ entry ∈ fields, Settles upperCamel lowerCamel m entry.1 := by
  have keys (key : Text) := mem_keys_foldl_insertField
    (fields.map (rekeyed upperCamel lowerCamel m)) [] key
  have nodup := nodup_foldl_insertField (fields.map (rekeyed upperCamel lowerCamel m)) [] (by simp)
  change ∀ key, key ∈ (curieKeyFields upperCamel lowerCamel m fields).map Prod.fst ↔ _ at keys
  change ((curieKeyFields upperCamel lowerCamel m fields).map Prod.fst).Nodup at nodup
  generalize curieKeyFields upperCamel lowerCamel m fields = result at keys nodup
  constructor
  · intro again entry member
    have full : (curieKeyFields upperCamel lowerCamel m result).length =
        ([] : Fields).length + (result.map (rekeyed upperCamel lowerCamel m)).length := by
      simp [again]
    have listed := (foldl_insertField_length _ _).2 full
    have same : result.map (rekeyed upperCamel lowerCamel m) = result := listed.symm.trans again
    have reached : curieKey upperCamel lowerCamel m (trim entry.1) ∈ result.map Prod.fst := by
      rw [keys]
      exact .inr (List.mem_map_of_mem (List.mem_map_of_mem member))
    obtain ⟨other, inside, key⟩ := List.mem_map.mp reached
    have fixed := List.map_inj_left.mp (same.trans result.map_id.symm) other inside
    rw [Settles, ← key]
    exact congrArg Prod.fst fixed
  · intro settles
    have same : result.map (rekeyed upperCamel lowerCamel m) = result := by
      refine (List.map_inj_left.mpr fun other inside => ?_).trans result.map_id
      have reached := (keys other.1).mp (List.mem_map_of_mem inside)
      simp only [List.map_nil, List.not_mem_nil, false_or, List.map_map, List.mem_map,
        Function.comp_apply] at reached
      obtain ⟨entry, member, key⟩ := reached
      refine Prod.ext ?_ rfl
      change curieKey upperCamel lowerCamel m (trim other.1) = other.1
      rw [← key]
      exact settles entry member
    rw [curieKeyFields, same]
    simpa using foldl_insertField_nodup result [] (by simpa using nodup)

/-- Keys become CURIEs without a loss, and for good, exactly when the last of the keys with one
CURIE has all their values and each CURIE is its own. -/
theorem keyedLosslessly_iff :
    KeyedLosslessly upperCamel lowerCamel m fields ↔
      LastHoldsAll upperCamel lowerCamel m fields ∧
        ∀ entry ∈ fields, Settles upperCamel lowerCamel m entry.1 := by
  rw [← kept_iff, ← again_iff]
  exact ⟨fun lossless => ⟨lossless.kept, lossless.again⟩, fun both => ⟨both.1, both.2⟩⟩

end Exact

section Loss

def numbers : Fields :=
  [("phone".toList, .string "555-1".toList), ("telephone".toList, .string "555-2".toList)]

theorem first_number_lost :
    ¬KeyedLosslessly Ontology.upperWords Ontology.lowerWords PrefixMap.standard numbers := by
  intro lossless
  obtain ⟨held, found, all⟩ := lossless.kept ("phone".toList, .string "555-1".toList) (by simp [numbers])
  have other : (curieKeyFields Ontology.upperWords Ontology.lowerWords PrefixMap.standard
      numbers).lookup (curieKey Ontology.upperWords Ontology.lowerWords PrefixMap.standard
        (trim "phone".toList)) = some (.string "555-2".toList) := by decide
  obtain rfl := Option.some.inj (found.symm.trans other)
  exact absurd (all (.string "555-1".toList) (List.mem_singleton.mpr rfl)) (by decide)

end Loss

end Frona.Consolidate
