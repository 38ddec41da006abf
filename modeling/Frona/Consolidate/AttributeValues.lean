import Mathlib.Data.List.Perm.Subperm
import Frona.Chat.Message

set_option autoImplicit false

namespace Frona.Consolidate

open Utf8 (Text)
open Frona.Chat (Json)

section Equality

mutual

def same : Json → Json → Bool
  | .null, .null => true
  | .bool a, .bool b => a = b
  | .number a, .number b => a = b
  | .string a, .string b => a = b
  | .array a, .array b => sameItems a b
  | .object a, .object b => sameFields a b
  | _, _ => false

def sameItems : List Json → List Json → Bool
  | [], [] => true
  | a :: as, b :: bs => same a b && sameItems as bs
  | _, _ => false

def sameFields : List (Text × Json) → List (Text × Json) → Bool
  | [], [] => true
  | (k, a) :: as, (l, b) :: bs => k = l && (same a b && sameFields as bs)
  | _, _ => false

end

mutual

theorem same_iff : ∀ a b : Json, same a b = true ↔ a = b
  | .array a, b => by cases b <;> simp [same, sameItems_iff a]
  | .object a, b => by cases b <;> simp [same, sameFields_iff a]
  | .null, b => by cases b <;> simp [same]
  | .bool _, b => by cases b <;> simp [same]
  | .number _, b => by cases b <;> simp [same]
  | .string _, b => by cases b <;> simp [same]

theorem sameItems_iff : ∀ a b : List Json, sameItems a b = true ↔ a = b
  | [], b => by cases b <;> simp [sameItems]
  | a :: as, b => by cases b <;> simp [sameItems, same_iff a, sameItems_iff as]

theorem sameFields_iff : ∀ a b : List (Text × Json), sameFields a b = true ↔ a = b
  | [], b => by cases b <;> simp [sameFields]
  | (_, a) :: as, b => by
      cases b with
      | nil => simp [sameFields]
      | cons first rest => simp [sameFields, same_iff a, sameFields_iff as, Prod.ext_iff, and_assoc]

end

instance : DecidableEq Json := fun a b => decidable_of_iff _ (same_iff a b)

end Equality

section Merge

def isArray : Json → Bool
  | .array _ => true
  | _ => false

def values : Json → List Json
  | .array items => items
  | value => [value]

def mergeValue (held value : Json) : Json :=
  if held = value then held
  else match held with
    | .array items => if value ∈ items then held else .array (items ++ [value])
    | first => .array [first, value]

def mergeConsolidationAttributeValues (held incoming : Json) : Json :=
  (values incoming).foldl mergeValue held

def mergeAll (held : Json) (incoming : List Json) : Json :=
  incoming.foldl mergeConsolidationAttributeValues held

@[simp] theorem values_array (items : List Json) : values (.array items) = items := rfl

theorem values_of_not_array {value : Json} (scalar : isArray value = false) :
    values value = [value] := by
  cases value <;> first | rfl | simp [isArray] at scalar

theorem mergeAll_eq_foldl (held : Json) (incoming : List Json) :
    mergeAll held incoming = (incoming.flatMap values).foldl mergeValue held := by
  induction incoming generalizing held with
  | nil => rfl
  | cons first rest ih =>
      rw [mergeAll, List.foldl_cons, List.flatMap_cons, List.foldl_append]
      exact ih _

theorem mergeValue_held {held value : Json} (known : value ∈ values held ∨ held = value) :
    mergeValue held value = held := by
  unfold mergeValue
  split
  · rfl
  · next differs =>
      have member : value ∈ values held := known.resolve_right differs
      cases held <;> simp_all [values]

theorem mergeValue_new {held value : Json} (missing : value ∉ values held)
    (differs : held ≠ value) : mergeValue held value = .array (values held ++ [value]) := by
  unfold mergeValue
  rw [if_neg differs]
  cases held <;> simp_all [values]

end Merge

section Fields

abbrev Fields := List (Text × Json)

def offer (fields : Fields) (entry : Text × Json) : Fields :=
  match fields with
  | [] => [entry]
  | (key, held) :: rest =>
      if key = entry.1 then (key, mergeConsolidationAttributeValues held entry.2) :: rest
      else (key, held) :: offer rest entry

theorem lookup_cons (key : Text) (entry : Text × Json) (rest : Fields) :
    List.lookup key (entry :: rest) = if entry.1 = key then some entry.2 else rest.lookup key := by
  rw [List.lookup_cons]
  by_cases same : entry.1 = key
  · simp [same]
  · rw [if_neg same, beq_eq_false_iff_ne.mpr (Ne.symm same)]

theorem lookup_offer (fields : Fields) (entry : Text × Json) (key : Text) :
    (offer fields entry).lookup key =
      if entry.1 = key then
        some (match fields.lookup key with
          | some held => mergeConsolidationAttributeValues held entry.2
          | none => entry.2)
      else fields.lookup key := by
  induction fields with
  | nil => simp [offer, lookup_cons]
  | cons first rest ih =>
      by_cases here : first.1 = entry.1
      · by_cases same : entry.1 = key
        · simp [offer, lookup_cons, here, same]
        · have other : ¬first.1 = key := here ▸ same
          simp [offer, lookup_cons, here, same]
      · by_cases same : entry.1 = key
        · have other : ¬first.1 = key := same ▸ here
          simp only [offer, if_neg here, lookup_cons, if_neg other, ih]
        · simp only [offer, if_neg here, lookup_cons, ih, if_neg same]

def offersFor (key : Text) (entries : Fields) : List Json :=
  (entries.filter fun entry => entry.1 = key).map Prod.snd

theorem lookup_foldl_offer (entries fields : Fields) (key : Text) :
    (entries.foldl offer fields).lookup key =
      match fields.lookup key, offersFor key entries with
      | some held, offers => some (mergeAll held offers)
      | none, [] => none
      | none, first :: rest => some (mergeAll first rest) := by
  induction entries generalizing fields with
  | nil => cases held : fields.lookup key <;> simp [offersFor, mergeAll, held]
  | cons entry rest ih =>
      rw [List.foldl_cons, ih, lookup_offer]
      by_cases same : entry.1 = key
      · cases held : fields.lookup key <;> simp [offersFor, mergeAll, same]
      · cases held : fields.lookup key <;> simp [offersFor, same]

end Fields

section Leaves

mutual

def leaves : Json → List Json
  | .array items => leavesOfItems items
  | value => [value]

def leavesOfItems : List Json → List Json
  | [] => []
  | item :: rest => leaves item ++ leavesOfItems rest

end

theorem leavesOfItems_eq_flatMap (items : List Json) :
    leavesOfItems items = items.flatMap leaves := by
  induction items with
  | nil => rfl
  | cons item rest ih => rw [leavesOfItems, ih, List.flatMap_cons]

theorem leaves_eq_flatMap (value : Json) : leaves value = (values value).flatMap leaves := by
  cases value <;> simp [leaves, values, leavesOfItems_eq_flatMap]

theorem leaf_mem_mergeValue {held value leaf : Json}
    (supplied : leaf ∈ leaves held ∨ leaf ∈ leaves value) :
    leaf ∈ leaves (mergeValue held value) := by
  by_cases known : value ∈ values held ∨ held = value
  · rw [mergeValue_held known]
    rcases supplied with old | new
    · exact old
    · rcases known with member | rfl
      · rw [leaves_eq_flatMap held]
        exact List.mem_flatMap.mpr ⟨value, member, new⟩
      · exact new
  · rw [not_or] at known
    rw [mergeValue_new known.1 known.2, leaves_eq_flatMap, values_array, List.flatMap_append,
      ← leaves_eq_flatMap, List.mem_append]
    simpa using supplied

end Leaves

end Frona.Consolidate
