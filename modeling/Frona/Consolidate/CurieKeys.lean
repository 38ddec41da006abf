import Frona.Consolidate.AttributeValues
import Frona.Ontology.TermRoundTrip

set_option autoImplicit false

namespace Frona.Consolidate

open Utf8 (Text)
open Frona.Chat (Json)
open Frona.Ontology (PrefixMap TermKind fronaPrefix)
open Frona.Text (trim)

section Insert

-- The map of a JSON object keeps the order of insertion.
def insertField (fields : Fields) (entry : Text × Json) : Fields :=
  match fields with
  | [] => [entry]
  | (key, held) :: rest =>
      if key = entry.1 then entry :: rest else (key, held) :: insertField rest entry

theorem lookup_insertField (fields : Fields) (entry : Text × Json) (key : Text) :
    (insertField fields entry).lookup key =
      if entry.1 = key then some entry.2 else fields.lookup key := by
  induction fields with
  | nil => simp [insertField, lookup_cons]
  | cons first rest ih =>
      by_cases here : first.1 = entry.1
      · simp only [insertField, if_pos here, lookup_cons]
        by_cases same : entry.1 = key
        · simp [same]
        · simp [same, here]
      · simp only [insertField, if_neg here, lookup_cons, ih]
        by_cases same : entry.1 = key
        · simp [same, same ▸ here]
        · simp [same]

example : (insertField [(['a'], .null)] (['a'], .bool true)).lookup ['a'] = some (.bool true) := by
  decide +kernel

theorem mem_keys_insertField (fields : Fields) (entry : Text × Json) (key : Text) :
    key ∈ (insertField fields entry).map Prod.fst ↔
      key ∈ fields.map Prod.fst ∨ key = entry.1 := by
  induction fields with
  | nil => simp [insertField]
  | cons first rest ih =>
      by_cases here : first.1 = entry.1
      · simp only [insertField, List.map_cons, List.mem_cons, here]
        grind
      · simp only [insertField, if_neg here, List.map_cons, List.mem_cons, ih]
        grind

theorem insertField_new (fields : Fields) (entry : Text × Json)
    (missing : entry.1 ∉ fields.map Prod.fst) : insertField fields entry = fields ++ [entry] := by
  induction fields with
  | nil => rfl
  | cons first rest ih =>
      simp only [List.map_cons, List.mem_cons, not_or] at missing
      simp only [insertField, if_neg (Ne.symm missing.1), ih missing.2, List.cons_append]

theorem length_insertField_held (fields : Fields) (entry : Text × Json)
    (held : entry.1 ∈ fields.map Prod.fst) : (insertField fields entry).length = fields.length := by
  induction fields with
  | nil => simp at held
  | cons first rest ih =>
      by_cases here : first.1 = entry.1
      · simp [insertField, here]
      · have later : entry.1 ∈ rest.map Prod.fst := by
          simpa [Ne.symm here] using held
        simp [insertField, here, ih later]

theorem nodup_insertField (fields : Fields) (entry : Text × Json)
    (nodup : (fields.map Prod.fst).Nodup) : ((insertField fields entry).map Prod.fst).Nodup := by
  induction fields with
  | nil => simp [insertField]
  | cons first rest ih =>
      simp only [List.map_cons, List.nodup_cons] at nodup
      by_cases here : first.1 = entry.1
      · simp only [insertField, if_pos here, List.map_cons, List.nodup_cons]
        rwa [← here]
      · simp only [insertField, if_neg here, List.map_cons, List.nodup_cons]
        refine ⟨?_, ih nodup.2⟩
        rw [mem_keys_insertField, not_or]
        exact ⟨nodup.1, here⟩

theorem nodup_foldl_insertField (entries fields : Fields) (nodup : (fields.map Prod.fst).Nodup) :
    ((entries.foldl insertField fields).map Prod.fst).Nodup := by
  induction entries generalizing fields with
  | nil => exact nodup
  | cons entry rest ih => exact ih _ (nodup_insertField fields entry nodup)

theorem mem_keys_foldl_insertField (entries fields : Fields) (key : Text) :
    key ∈ (entries.foldl insertField fields).map Prod.fst ↔
      key ∈ fields.map Prod.fst ∨ key ∈ entries.map Prod.fst := by
  induction entries generalizing fields with
  | nil => simp
  | cons entry rest ih =>
      rw [List.foldl_cons, ih, mem_keys_insertField, List.map_cons, List.mem_cons, or_assoc]

theorem foldl_insertField_length (entries fields : Fields) :
    (entries.foldl insertField fields).length ≤ fields.length + entries.length ∧
      ((entries.foldl insertField fields).length = fields.length + entries.length →
        entries.foldl insertField fields = fields ++ entries) := by
  induction entries generalizing fields with
  | nil => simp
  | cons entry rest ih =>
      have ⟨bound, exact_⟩ := ih (insertField fields entry)
      rw [List.foldl_cons, List.length_cons]
      by_cases held : entry.1 ∈ fields.map Prod.fst
      · rw [length_insertField_held fields entry held] at bound
        exact ⟨by omega, fun full => by omega⟩
      · rw [insertField_new fields entry held, List.length_append, List.length_singleton] at bound
        refine ⟨by rw [insertField_new fields entry held]; omega, fun full => ?_⟩
        rw [exact_ (by rw [full, insertField_new fields entry held]; simp; omega),
          insertField_new fields entry held, List.append_assoc, List.singleton_append]

theorem foldl_insertField_nodup (entries fields : Fields)
    (nodup : ((fields ++ entries).map Prod.fst).Nodup) :
    entries.foldl insertField fields = fields ++ entries := by
  induction entries generalizing fields with
  | nil => simp
  | cons entry rest ih =>
      have missing : entry.1 ∉ fields.map Prod.fst := by
        rw [List.map_append, List.nodup_append] at nodup
        intro member
        exact nodup.2.2 _ member entry.1 (by simp) rfl
      rw [List.foldl_cons, insertField_new fields entry missing, ih _ (by simpa using nodup)]
      simp

theorem lookup_foldl_insertField (entries fields : Fields) (key : Text)
    (none : key ∉ entries.map Prod.fst) :
    (entries.foldl insertField fields).lookup key = fields.lookup key := by
  induction entries generalizing fields with
  | nil => rfl
  | cons entry rest ih =>
      simp only [List.map_cons, List.mem_cons, not_or] at none
      rw [List.foldl_cons, ih _ none.2, lookup_insertField, if_neg (Ne.symm none.1)]

end Insert

section Curie

-- `to_upper_camel_case` and `to_lower_camel_case`
variable (upperCamel lowerCamel : Text → Text) (m : PrefixMap)

-- Common keys, and the standard properties for them.
def stdAttributeCuries : List (Text × Text) :=
  [("name".toList, "schema:name".toList),
    ("email".toList, "schema:email".toList),
    ("url".toList, "schema:url".toList),
    ("website".toList, "schema:url".toList),
    ("homepage".toList, "schema:url".toList),
    ("telephone".toList, "schema:telephone".toList),
    ("phone".toList, "schema:telephone".toList),
    ("address".toList, "schema:address".toList),
    ("description".toList, "schema:description".toList),
    ("givenname".toList, "schema:givenName".toList),
    ("familyname".toList, "schema:familyName".toList),
    ("jobtitle".toList, "schema:jobTitle".toList),
    ("role".toList, "schema:roleName".toList),
    ("timezone".toList, "schema:timezone".toList)]

def eqIgnoreAsciiCase (a b : Text) : Bool := a.map Char.toLower = b.map Char.toLower

/-- `rsplit(':').next()` -/
def afterLastColon (key : Text) : Text := ((key.splitOnP (· = ':')).getLast?).getD key

def stdCurie (key : Text) : Option Text :=
  if ':' ∈ key then none
  else (stdAttributeCuries.find? fun entry => eqIgnoreAsciiCase entry.1 key).map Prod.snd

def curieKey (key : Text) : Text :=
  match stdCurie key with
  | some curie => curie
  | none =>
      match m.repairTerm upperCamel lowerCamel key .ofProperty with
      | .ok term => term
      | .error _ =>
          match m.repairTerm upperCamel lowerCamel (afterLastColon key) .ofProperty with
          | .ok term => term
          | .error _ => "frona:attribute".toList

def rekeyed (entry : Text × Json) : Text × Json :=
  (curieKey upperCamel lowerCamel m (trim entry.1), entry.2)

def curieKeyFields (fields : Fields) : Fields :=
  (fields.map (rekeyed upperCamel lowerCamel m)).foldl insertField []

def curieKeyAttributes : Json → Json
  | .object fields => .object (curieKeyFields upperCamel lowerCamel m fields)
  | other => other

end Curie

end Frona.Consolidate
