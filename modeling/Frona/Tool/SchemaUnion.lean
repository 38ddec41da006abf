import Frona.Config.Merge

set_option autoImplicit false

namespace Frona.Tool

open Utf8 (Text)
open Frona.Chat (Json)
open Frona.Config

section Flatten

def unionKeys : List Text := ["oneOf".toList, "anyOf".toList, "allOf".toList]

def typeKey : Text := "type".toList

def propertiesKey : Text := "properties".toList

def requiredKey : Text := "required".toList

def objectType : Json := .string "object".toList

/-- `entry(key).or_insert_with`. -/
def orInsert (key : Text) (value : Json) (fields : Fields) : Fields :=
  if hasKey key fields then fields else fields ++ [(key, value)]

def insert (key : Text) (value : Json) (fields : Fields) : Fields :=
  upsert key (fun _ => value) fields

def branchesAt (key : Text) (obj : Fields) : Option (List Json) :=
  match get key (.object obj) with
  | some (.array branches) => some branches
  | _ => none

def findBranches : List Text → Fields → Option (List Json) × Fields
  | [], obj => (none, obj)
  | key :: later, obj =>
      match branchesAt key obj with
      | some branches => (some branches, removeKey key obj)
      | none => findBranches later (removeKey key obj)

def branchProperties (branch : Json) : Fields :=
  match get propertiesKey branch with
  | some (.object props) => props
  | _ => []

def unionProperties (branches : List Json) : Fields :=
  branches.foldl (fun properties branch =>
    (branchProperties branch).foldl (fun properties prop => orInsert prop.1 prop.2 properties)
      properties) []

def flattenObject (obj : Fields) : Fields :=
  match findBranches unionKeys obj with
  | (none, obj) => obj
  | (some branches, obj) =>
      if hasKey propertiesKey obj then orInsert typeKey objectType obj
      else
        removeKey requiredKey
          (insert propertiesKey (.object (unionProperties branches))
            (insert typeKey objectType obj))

def flattenTopLevelUnion : Json → Json
  | .object obj => .object (flattenObject obj)
  | schema => schema

def requiredNames (obj : Fields) : List Text :=
  match get requiredKey (.object obj) with
  | some (.array names) => names.filterMap fun name => match name with
      | .string text => some text
      | _ => none
  | _ => []

end Flatten

section Specification

/-- What a provider takes in place of a schema with these fields. -/
structure Flattened (obj : Fields) : Prop where
  gone : ∀ key ∈ unionKeys, hasKey key (flattenObject obj) = false
  kept : hasKey propertiesKey obj = true →
    get propertiesKey (.object (flattenObject obj)) = get propertiesKey (.object obj) ∧
      get requiredKey (.object (flattenObject obj)) = get requiredKey (.object obj) ∧
      (hasKey typeKey obj = true →
        get typeKey (.object (flattenObject obj)) = get typeKey (.object obj))
  merged : hasKey propertiesKey obj = false →
    ∀ key ∈ unionKeys, hasKey key (flattenObject obj) = false →
      ∀ branches, branchesAt key obj = some branches → ∀ branch ∈ branches,
        ∀ prop ∈ branchProperties branch, ∃ props,
          get propertiesKey (.object (flattenObject obj)) = some (.object props) ∧
            hasKey prop.1 props = true
  optional : hasKey propertiesKey obj = false → requiredNames (flattenObject obj) = []
  stable : flattenTopLevelUnion (flattenTopLevelUnion (.object obj)) =
    flattenTopLevelUnion (.object obj)

/-- No keyword stands behind one that is an array. -/
def EndsWithUnion (keys : List Text) (obj : Fields) : Prop :=
  keys.Pairwise fun key later => (branchesAt key obj).isSome = true → hasKey later obj = false

/-- A required list without properties comes with a keyword to flatten. -/
def RequiresWithUnion (obj : Fields) : Prop :=
  hasKey propertiesKey obj = true ∨ (∃ key ∈ unionKeys, (branchesAt key obj).isSome = true) ∨
    requiredNames obj = []

end Specification

section Lookups

variable {obj : Fields}

theorem get_orInsert (key other : Text) (value : Json) (fields : Fields) :
    get other (.object (orInsert key value fields)) =
      if key = other then some ((get key (.object fields)).getD value)
      else get other (.object fields) := by
  have present := get_isSome key fields
  unfold orInsert
  split
  next there =>
    rw [there] at present
    obtain ⟨old, found⟩ := Option.isSome_iff_exists.mp present
    split
    next same => rw [← same, found, Option.getD_some]
    next => rfl
  next missing =>
    have absent : get key (.object fields) = none := by
      rw [← Option.not_isSome_iff_eq_none, present]
      exact missing
    rw [get_append, get_cons]
    split
    next same => rw [← same, absent, Option.none_or, Option.getD_none]
    next => simp [Config.get]

theorem hasKey_orInsert (key other : Text) (value : Json) (fields : Fields) :
    hasKey other (orInsert key value fields) = (decide (key = other) || hasKey other fields) := by
  rw [← get_isSome, get_orInsert, ← get_isSome]
  by_cases same : key = other <;> simp [same]

theorem get_insert (key other : Text) (value : Json) (fields : Fields) :
    get other (.object (insert key value fields)) =
      if key = other then some value else get other (.object fields) :=
  get_upsert key other (fun _ => value) fields

theorem removeKey_absent {key : Text} (absent : hasKey key obj = false) :
    removeKey key obj = obj := by
  refine List.filter_eq_self.mpr fun entry member => ?_
  simpa using (not_hasKey_iff key obj).mp absent entry member

theorem hasKey_removeKey (key other : Text) :
    hasKey other (removeKey key obj) = (decide (key ≠ other) && hasKey other obj) := by
  rw [← get_isSome, get_removeKey, ← get_isSome]
  by_cases same : key = other <;> simp [same]

theorem branchesAt_removeKey {key other : Text} (apart : key ≠ other) :
    branchesAt other (removeKey key obj) = branchesAt other obj := by
  rw [branchesAt, get_removeKey, if_neg apart, branchesAt]

theorem branchesAt_absent {key : Text} (absent : hasKey key obj = false) :
    branchesAt key obj = none := by
  have missing := get_isSome key obj
  rw [absent, Option.isSome_eq_false_iff, Option.isNone_iff_eq_none] at missing
  rw [branchesAt, missing]

end Lookups

section Search

variable {keys : List Text} {obj : Fields}

theorem findBranches_none (distinct : keys.Nodup) :
    (findBranches keys obj).1 = none ↔ ∀ key ∈ keys, branchesAt key obj = none := by
  induction keys generalizing obj with
  | nil => simp [findBranches]
  | cons key later ih =>
      obtain ⟨new, distinct⟩ := List.nodup_cons.mp distinct
      rw [findBranches, List.forall_mem_cons]
      cases branchesAt key obj with
      | some branches => simp
      | none =>
          simp only [true_and]
          refine (ih distinct).trans (forall₂_congr fun other member => ?_)
          have apart : key ≠ other := fun same => new (same ▸ member)
          rw [branchesAt_removeKey apart]

theorem findBranches_some (distinct : keys.Nodup) {key : Text} {branches : List Json}
    (member : key ∈ keys) (found : branchesAt key obj = some branches)
    (gone : hasKey key (findBranches keys obj).2 = false) :
    (findBranches keys obj).1 = some branches := by
  induction keys generalizing obj with
  | nil => cases member
  | cons first later ih =>
      obtain ⟨new, distinct⟩ := List.nodup_cons.mp distinct
      rw [findBranches] at gone ⊢
      rcases List.mem_cons.mp member with rfl | member
      · rw [found]
      · have apart : first ≠ key := fun same => new (same ▸ member)
        cases ends : branchesAt first obj with
        | some other =>
            rw [ends] at gone
            simp only [hasKey_removeKey, decide_eq_true apart, Bool.true_and] at gone
            rw [branchesAt_absent gone] at found
            cases found
        | none =>
            rw [ends] at gone
            exact ih distinct member ((branchesAt_removeKey apart).trans found) gone

theorem findBranches_get {other : Text} (outside : other ∉ keys) :
    get other (.object (findBranches keys obj).2) = get other (.object obj) := by
  induction keys generalizing obj with
  | nil => rfl
  | cons key later ih =>
      obtain ⟨apart, outside⟩ := not_or.mp (mt List.mem_cons.mpr outside)
      rw [findBranches]
      split
      next => rw [get_removeKey, if_neg (Ne.symm apart)]
      next => rw [ih outside, get_removeKey, if_neg (Ne.symm apart)]

theorem findBranches_gone (distinct : keys.Nodup) :
    (∀ key ∈ keys, hasKey key (findBranches keys obj).2 = false) ↔ EndsWithUnion keys obj := by
  induction keys generalizing obj with
  | nil => simp [EndsWithUnion]
  | cons key later ih =>
      obtain ⟨new, distinct⟩ := List.nodup_cons.mp distinct
      have apart : ∀ other ∈ later, key ≠ other := fun other member same => new (same ▸ member)
      have others : ∀ other ∈ later, hasKey other (removeKey key obj) = hasKey other obj := by
        intro other member
        rw [hasKey_removeKey, decide_eq_true (apart other member), Bool.true_and]
      have self : hasKey key (removeKey key obj) = false := by simp [hasKey_removeKey]
      rw [findBranches, EndsWithUnion, List.pairwise_cons, List.forall_mem_cons]
      cases found : branchesAt key obj with
      | some branches =>
          simp only [self, true_and, Option.isSome_some, forall_const]
          constructor
          · intro gone
            have absent : ∀ other ∈ later, hasKey other obj = false := fun other member =>
              (others other member).symm.trans (gone other member)
            exact ⟨absent, List.pairwise_of_forall_mem_list fun _ _ other member _ =>
              absent other member⟩
          · exact fun alone other member => (others other member).trans (alone.1 other member)
      | none =>
          have same : EndsWithUnion later (removeKey key obj) ↔ EndsWithUnion later obj := by
            refine List.Pairwise.iff_of_mem fun first second => ?_
            rw [branchesAt_removeKey (apart _ first), others _ second]
          have gone := get_isSome key (findBranches later (removeKey key obj)).2
          rw [findBranches_get new, get_removeKey, if_pos rfl, Option.isSome_none] at gone
          simp only [← gone, true_and, Option.isSome_none, Bool.false_eq_true, false_implies,
            implies_true]
          exact (ih distinct).trans same

end Search

section Flattening

variable {obj : Fields}

theorem unionKeys_nodup : unionKeys.Nodup := by decide

theorem hasKey_findBranches {key : Text} (outside : key ∉ unionKeys) :
    hasKey key (findBranches unionKeys obj).2 = hasKey key obj := by
  rw [← get_isSome, findBranches_get outside, get_isSome]

theorem flattenObject_cases (obj : Fields) :
    ((findBranches unionKeys obj).1 = none ∧
      flattenObject obj = (findBranches unionKeys obj).2) ∨
    ∃ branches, (findBranches unionKeys obj).1 = some branches ∧
      ((hasKey propertiesKey obj = true ∧
          flattenObject obj = orInsert typeKey objectType (findBranches unionKeys obj).2) ∨
        (hasKey propertiesKey obj = false ∧
          flattenObject obj = removeKey requiredKey
            (insert propertiesKey (.object (unionProperties branches))
              (insert typeKey objectType (findBranches unionKeys obj).2)))) := by
  have properties : hasKey propertiesKey (findBranches unionKeys obj).2 =
      hasKey propertiesKey obj := hasKey_findBranches (by decide)
  unfold flattenObject
  generalize findBranches unionKeys obj = found at properties ⊢
  obtain ⟨_ | branches, rest⟩ := found
  · exact .inl ⟨rfl, rfl⟩
  · refine .inr ⟨branches, rfl, ?_⟩
    cases present : hasKey propertiesKey obj with
    | true => exact .inl ⟨rfl, if_pos (properties.trans present)⟩
    | false =>
        refine .inr ⟨rfl, if_neg ?_⟩
        rw [properties, present]
        exact Bool.false_ne_true

theorem hasKey_flattenObject {key : Text} (member : key ∈ unionKeys) :
    hasKey key (flattenObject obj) = hasKey key (findBranches unionKeys obj).2 := by
  have outside : typeKey ≠ key ∧ propertiesKey ≠ key ∧ requiredKey ≠ key := by
    have apart : ∀ key ∈ unionKeys, typeKey ≠ key ∧ propertiesKey ≠ key ∧ requiredKey ≠ key := by
      decide
    exact apart key member
  rcases flattenObject_cases obj with ⟨-, same⟩ | ⟨branches, -, ⟨-, same⟩ | ⟨-, same⟩⟩
  · rw [same]
  · rw [same, hasKey_orInsert, decide_eq_false outside.1, Bool.false_or]
  · rw [same, ← get_isSome, get_removeKey, if_neg outside.2.2, get_insert, if_neg outside.2.1,
      get_insert, if_neg outside.1, get_isSome]

theorem flattenObject_gone :
    (∀ key ∈ unionKeys, hasKey key (flattenObject obj) = false) ↔ EndsWithUnion unionKeys obj := by
  refine (forall₂_congr fun key member => ?_).trans (findBranches_gone unionKeys_nodup)
  rw [hasKey_flattenObject member]

theorem flattenObject_plain (plain : ∀ key ∈ unionKeys, hasKey key obj = false) :
    flattenObject obj = obj := by
  have search : ∀ keys : List Text, (∀ key ∈ keys, hasKey key obj = false) →
      findBranches keys obj = (none, obj) := by
    intro keys absent
    induction keys with
    | nil => rfl
    | cons key later ih =>
        obtain ⟨first, absent⟩ := List.forall_mem_cons.mp absent
        rw [findBranches, branchesAt_absent first, removeKey_absent first]
        exact ih absent
  rw [flattenObject, search unionKeys plain]

theorem flattenObject_kept (present : hasKey propertiesKey obj = true) {key : Text}
    (named : key = propertiesKey ∨ key = requiredKey ∨
      (key = typeKey ∧ hasKey typeKey obj = true)) :
    get key (.object (flattenObject obj)) = get key (.object obj) := by
  have outside : key ∉ unionKeys := by
    rcases named with rfl | rfl | ⟨rfl, -⟩ <;> decide
  have kept : get key (.object (findBranches unionKeys obj).2) = get key (.object obj) :=
    findBranches_get outside
  rcases flattenObject_cases obj with ⟨-, same⟩ | ⟨branches, -, ⟨-, same⟩ | ⟨missing, -⟩⟩
  · rw [same, kept]
  · rw [same, get_orInsert]
    split
    next isType =>
      subst isType
      rcases named with typed | typed | ⟨-, typed⟩
      · exact absurd typed (by decide)
      · exact absurd typed (by decide)
      · rw [← get_isSome] at typed
        obtain ⟨value, found⟩ := Option.isSome_iff_exists.mp typed
        rw [kept, found, Option.getD_some]
    next => exact kept
  · rw [present] at missing
    cases missing

end Flattening

section Merging

theorem hasKey_foldl_orInsert (props fields : Fields) (key : Text) :
    hasKey key (props.foldl (fun fields prop => orInsert prop.1 prop.2 fields) fields) =
      (hasKey key fields || hasKey key props) := by
  induction props generalizing fields with
  | nil => simp [hasKey]
  | cons prop rest ih =>
      have first : hasKey key (prop :: rest) = (decide (prop.1 = key) || hasKey key rest) := by
        simp [hasKey, beq_eq_decide]
      rw [List.foldl_cons, ih, hasKey_orInsert, first]
      by_cases same : prop.1 = key <;> simp [same]

theorem hasKey_unionProperties (branches : List Json) (key : Text) :
    hasKey key (unionProperties branches) =
      branches.any fun branch => hasKey key (branchProperties branch) := by
  have merged : ∀ fields, hasKey key (branches.foldl (fun properties branch =>
      (branchProperties branch).foldl (fun properties prop => orInsert prop.1 prop.2 properties)
        properties) fields) =
      (hasKey key fields || branches.any fun branch => hasKey key (branchProperties branch)) := by
    induction branches with
    | nil => simp
    | cons branch rest ih =>
        intro fields
        rw [List.foldl_cons, ih, hasKey_foldl_orInsert, List.any_cons, Bool.or_assoc]
  exact merged []

variable {obj : Fields}

theorem flattenObject_merged (missing : hasKey propertiesKey obj = false) {key : Text}
    (member : key ∈ unionKeys) (gone : hasKey key (flattenObject obj) = false)
    {branches : List Json} (found : branchesAt key obj = some branches) {branch : Json}
    (inside : branch ∈ branches) {prop : Text × Json} (listed : prop ∈ branchProperties branch) :
    ∃ props, get propertiesKey (.object (flattenObject obj)) = some (.object props) ∧
      hasKey prop.1 props = true := by
  rw [hasKey_flattenObject member] at gone
  have search := findBranches_some unionKeys_nodup member found gone
  rcases flattenObject_cases obj with ⟨none, -⟩ | ⟨other, some, ⟨present, -⟩ | ⟨-, same⟩⟩
  · rw [search] at none
    cases none
  · rw [missing] at present
    cases present
  · rw [search, Option.some.injEq] at some
    subst some
    refine ⟨unionProperties branches, ?_, ?_⟩
    · rw [same, get_removeKey, if_neg (by decide), get_insert, if_pos rfl]
    · rw [hasKey_unionProperties, List.any_eq_true]
      exact ⟨branch, inside, (hasKey_iff _ _).mpr ⟨prop, listed, rfl⟩⟩

theorem requiredNames_flattenObject (missing : hasKey propertiesKey obj = false) :
    requiredNames (flattenObject obj) = [] ↔
      (∃ key ∈ unionKeys, (branchesAt key obj).isSome = true) ∨ requiredNames obj = [] := by
  rcases flattenObject_cases obj with ⟨none, same⟩ | ⟨branches, some, ⟨present, -⟩ | ⟨-, same⟩⟩
  · have absent := (findBranches_none unionKeys_nodup).mp none
    have kept : requiredNames (flattenObject obj) = requiredNames obj := by
      rw [same, requiredNames, findBranches_get (by decide), requiredNames]
    rw [kept]
    refine (or_iff_right ?_).symm
    rintro ⟨key, member, found⟩
    rw [absent key member] at found
    cases found
  · rw [missing] at present
    cases present
  · refine iff_of_true ?_ (.inl ?_)
    · rw [same, requiredNames, get_removeKey, if_pos rfl]
    · by_contra unfound
      have absent : ∀ key ∈ unionKeys, branchesAt key obj = none := by
        intro key member
        by_contra found
        exact unfound ⟨key, member, Option.isSome_iff_ne_none.mpr found⟩
      rw [(findBranches_none unionKeys_nodup).mpr absent] at some
      cases some

end Merging

/-- Just these schemas are flattened. -/
theorem flattened_iff (obj : Fields) :
    Flattened obj ↔ EndsWithUnion unionKeys obj ∧ RequiresWithUnion obj := by
  have required : RequiresWithUnion obj ↔
      (hasKey propertiesKey obj = false → requiredNames (flattenObject obj) = []) := by
    unfold RequiresWithUnion
    cases missing : hasKey propertiesKey obj with
    | true => simp
    | false => simp [requiredNames_flattenObject missing]
  constructor
  · exact fun flat => ⟨flattenObject_gone.mp flat.gone, required.mpr flat.optional⟩
  · rintro ⟨ends, requires⟩
    have gone := flattenObject_gone.mpr ends
    refine ⟨gone, fun present => ?_, ?_, required.mp requires, ?_⟩
    · exact ⟨flattenObject_kept present (.inl rfl), flattenObject_kept present (.inr (.inl rfl)),
        fun typed => flattenObject_kept present (.inr (.inr ⟨rfl, typed⟩))⟩
    · exact fun missing key member removed branches found branch inside prop listed =>
        flattenObject_merged missing member removed found inside listed
    · exact congrArg Json.object (flattenObject_plain gone)

def twoUnions : Fields :=
  [("oneOf".toList, .array [.object [(propertiesKey, .object [("a".toList, .object [])])]]),
    ("anyOf".toList, .array [.object [(requiredKey, .array [.string "a".toList])]])]

theorem later_union_stays : ¬ ∀ obj, Flattened obj := by
  intro claimed
  have stays : hasKey "anyOf".toList (flattenObject twoUnions) = true := by decide
  rw [(claimed twoUnions).gone "anyOf".toList (by decide)] at stays
  cases stays

end Frona.Tool
