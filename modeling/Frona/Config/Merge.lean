import Frona.Config.Document

set_option autoImplicit false

namespace Frona.Config

open Utf8 (Text)
open Frona.Chat (Json)

section Values

mutual

theorem induct_value {motive : Json → Prop}
    (object : ∀ fields, (∀ entry ∈ fields, motive entry.2) → motive (.object fields))
    (other : ∀ value, isObject value = false → motive value) : ∀ value, motive value
  | .object fields => object fields (induct_fields object other fields)
  | .null => other .null rfl
  | .bool value => other (.bool value) rfl
  | .number digits => other (.number digits) rfl
  | .string text => other (.string text) rfl
  | .array items => other (.array items) rfl

theorem induct_fields {motive : Json → Prop}
    (object : ∀ fields, (∀ entry ∈ fields, motive entry.2) → motive (.object fields))
    (other : ∀ value, isObject value = false → motive value) :
    ∀ fields : Fields, ∀ entry ∈ fields, motive entry.2
  | [], _, member => absurd member List.not_mem_nil
  | (_, value) :: rest, entry, member =>
      (List.mem_cons.mp member).elim (fun first => first ▸ induct_value object other value)
        (induct_fields object other rest entry)

end

theorem wellKeyedFields_iff (fields : Fields) :
    WellKeyedFields fields ↔ ∀ entry ∈ fields, WellKeyed entry.2 := by
  induction fields with
  | nil => simp [WellKeyedFields]
  | cons entry rest ih =>
      obtain ⟨key, value⟩ := entry
      simp [WellKeyedFields, ih]

theorem wellKeyed_object (fields : Fields) :
    WellKeyed (.object fields) ↔
      (fields.map Prod.fst).Nodup ∧ ∀ entry ∈ fields, WellKeyed entry.2 := by
  rw [WellKeyed, wellKeyedFields_iff]

theorem get_other {value : Json} (key : Text) (other : isObject value = false) :
    get key value = none := by
  cases value <;> first | rfl | simp [isObject] at other

def fieldsOf : Json → Fields
  | .object fields => fields
  | _ => []

theorem get_fieldsOf (key : Text) (value : Json) :
    get key (.object (fieldsOf value)) = get key value := by
  cases value <;> rfl

theorem get_cons (key : Text) (entry : Text × Json) (rest : Fields) :
    get key (.object (entry :: rest)) =
      if entry.1 = key then some entry.2 else get key (.object rest) := by
  simp only [get, List.find?_cons]
  by_cases same : entry.1 = key
  · simp [same]
  · simp [same, beq_eq_false_iff_ne.mpr same]

theorem get_eq_none (key : Text) (fields : Fields) :
    get key (.object fields) = none ↔ ∀ entry ∈ fields, entry.1 ≠ key := by
  simp [get]

theorem get_isSome (key : Text) (fields : Fields) :
    (get key (.object fields)).isSome = hasKey key fields := by
  induction fields with
  | nil => rfl
  | cons entry rest ih =>
      rw [get_cons, hasKey, List.any_cons]
      by_cases same : entry.1 = key
      · simp [same]
      · rw [if_neg same, ih, beq_eq_false_iff_ne.mpr same, Bool.false_or, hasKey]

theorem get_update (key other : Text) (change : Json → Json) (fields : Fields) :
    get other (.object (update key change fields)) =
      if key = other then (get other (.object fields)).map change
      else get other (.object fields) := by
  induction fields with
  | nil => simp [update, get]
  | cons entry rest ih =>
      have step : update key change (entry :: rest) =
          (if entry.1 = key then (entry.1, change entry.2) else entry) :: update key change rest :=
        rfl
      rw [step, get_cons, get_cons, ih]
      by_cases mine : entry.1 = key
      · by_cases same : key = other <;> simp [mine, same]
      · by_cases same : key = other
        · subst same
          simp [mine]
        · simp [mine, same]

theorem get_removeKey (key other : Text) (fields : Fields) :
    get other (.object (removeKey key fields)) =
      if key = other then none else get other (.object fields) := by
  induction fields with
  | nil => simp [removeKey, get]
  | cons entry rest ih =>
      rw [get_cons, removeKey, List.filter_cons]
      by_cases mine : entry.1 = key
      · rw [if_neg (by simp [mine])]
        refine ih.trans ?_
        by_cases same : key = other <;> simp [mine, same]
      · rw [if_pos (by simp [mine]), get_cons]
        refine (congrArg (ite _ _) ih).trans ?_
        by_cases same : key = other
        · subst same
          simp [mine]
        · simp [same]

theorem get_append (key : Text) (fields more : Fields) :
    get key (.object (fields ++ more)) =
      (get key (.object fields)).or (get key (.object more)) := by
  simp only [get, List.find?_append]
  cases fields.find? fun entry => entry.1 == key <;> rfl

theorem get_upsert (key other : Text) (change : Json → Json) (fields : Fields) :
    get other (.object (upsert key change fields)) =
      if key = other then some (change ((get key (.object fields)).getD .null))
      else get other (.object fields) := by
  have present := get_isSome key fields
  unfold upsert
  split
  next there =>
    rw [get_update]
    split
    next same =>
      subst same
      rw [there] at present
      obtain ⟨old, found⟩ := Option.isSome_iff_exists.mp present
      simp [found]
    next => rfl
  next absent =>
    have none : get key (.object fields) = none := by
      rw [← Option.not_isSome_iff_eq_none, present]
      simpa using absent
    rw [get_append, get_cons]
    by_cases same : key = other
    · subst same
      simp [none]
    · simp [same, get]

end Values

section Steps

def mergeField (path : List Text) (base : Fields) (field : Text × Json) : Fields :=
  if isMarker field.2 && isSensitiveConfigPath (path ++ [field.1]) then base
  else if isNull field.2 then removeKey field.1 base
  else upsert field.1 (fun old => merge (path ++ [field.1]) old field.2) base

theorem mergeFields_cons (path : List Text) (base : Fields) (field : Text × Json)
    (rest : Fields) :
    mergeFields path base (field :: rest) = mergeFields path (mergeField path base field) rest :=
  rfl

theorem merge_object (path : List Text) (base : Json) (values : Fields) :
    merge path base (.object values) =
      if isExtraParamsPath path then .object values
      else .object (mergeFields path (fieldsOf base) values) := by
  cases base <;> rfl

theorem merge_other {patch : Json} (path : List Text) (base : Json)
    (other : isObject patch = false) : merge path base patch = patch := by
  cases patch <;> first | rfl | simp [isObject] at other

def outcome (path : List Text) (field : Text × Json) (old : Option Json) : Option Json :=
  if isMarker field.2 && isSensitiveConfigPath (path ++ [field.1]) then old
  else if isNull field.2 then none
  else some (merge (path ++ [field.1]) (old.getD .null) field.2)

theorem get_mergeField (path : List Text) (base : Fields) (field : Text × Json) (key : Text) :
    get key (.object (mergeField path base field)) =
      if field.1 = key then outcome path field (get key (.object base))
      else get key (.object base) := by
  unfold mergeField outcome
  split
  next => simp
  next =>
    split
    next => rw [get_removeKey]
    next =>
      rw [get_upsert]
      split
      next same => rw [same]
      next => rfl

theorem get_mergeFields (path : List Text) (base fields : Fields) (key : Text)
    (keyed : (fields.map Prod.fst).Nodup) :
    get key (.object (mergeFields path base fields)) =
      match get key (.object fields) with
      | none => get key (.object base)
      | some value => outcome path (key, value) (get key (.object base)) := by
  induction fields generalizing base with
  | nil => rfl
  | cons field rest ih =>
      obtain ⟨fresh, others⟩ := List.nodup_cons.mp keyed
      rw [mergeFields_cons, ih _ others, get_cons, get_mergeField]
      by_cases same : field.1 = key
      · have none : get key (.object rest) = none := by
          rw [get_eq_none]
          intro entry member equal
          exact fresh (same ▸ equal ▸ List.mem_map_of_mem member)
        rw [none, if_pos same, if_pos same, ← same]
      · rw [if_neg same, if_neg same]

theorem get_merge (path : List Text) (base : Json) (fields : Fields) (key : Text)
    (walked : isExtraParamsPath path = false) (keyed : (fields.map Prod.fst).Nodup) :
    get key (merge path base (.object fields)) =
      match get key (.object fields) with
      | none => get key base
      | some value => outcome path (key, value) (get key base) := by
  rw [merge_object, walked]
  simp only [Bool.false_eq_true, if_false]
  rw [get_mergeFields path _ fields key keyed, get_fieldsOf]

end Steps

section Paths

/-- The patch has something to say about a path below this one: a value there, or one that takes
the place of everything around it. -/
def Mentions (path : List Text) (patch : Json) : List Text → Prop
  | [] => True
  | key :: rest =>
      if isObject patch && !isExtraParamsPath path then
        match get key patch with
        | none => False
        | some value => Mentions (path ++ [key]) value rest
      else True

theorem sensitive_head {path : List Text} (sensitive : isSensitiveConfigPath path = true) :
    path.head? ≠ some modelsKey := by
  unfold isSensitiveConfigPath at sensitive
  cases Bool.or_eq_true_iff.mp sensitive with
  | inl listed =>
      have heads : ∀ path ∈ sensitivePaths, path.head? ≠ some modelsKey := by decide
      exact heads path (List.contains_iff_mem.mp listed)
  | inr provider =>
      split at provider
      next root name field =>
        have same := beq_iff_eq.mp (Bool.and_eq_true_iff.mp provider).1
        rw [List.head?_cons, same]
        decide
      next => simp at provider

theorem extraParams_head {path : List Text} (extra : isExtraParamsPath path = true) :
    path.head? = some modelsKey := by
  unfold isExtraParamsPath at extra
  split at extra
  next root name rest =>
    simp only [Bool.and_eq_true, beq_iff_eq] at extra
    rw [List.head?_cons, extra.1.1]
  next => simp at extra

theorem not_sensitive_of_extraParams {path : List Text} {key : Text} {rest : List Text}
    (extra : isExtraParamsPath (path ++ key :: rest) = true) :
    isSensitiveConfigPath (path ++ [key]) = false := by
  have head := extraParams_head extra
  rw [Bool.eq_false_iff]
  intro sensitive
  refine sensitive_head sensitive ?_
  simpa [List.head?_append] using head

theorem not_extraParams_of_sensitive {path more : List Text}
    (sensitive : isSensitiveConfigPath (path ++ more) = true) :
    isExtraParamsPath path = false := by
  rw [Bool.eq_false_iff]
  intro extra
  refine sensitive_head sensitive ?_
  simp [List.head?_append, extraParams_head extra]

theorem fallbackSteps_append {steps more : List Text} (walked : fallbackSteps steps = true) :
    fallbackSteps (steps ++ more) = fallbackSteps more := by
  fun_induction fallbackSteps steps with
  | case1 => rfl
  | case2 => simp at walked
  | case3 key index rest ih =>
      simp only [Bool.and_eq_true] at walked
      simp only [List.cons_append, fallbackSteps, walked.1.1, walked.1.2, Bool.true_and,
        ih walked.2]

theorem extraParams_alone {path more : List Text} (extra : isExtraParamsPath path = true)
    (longer : isExtraParamsPath (path ++ more) = true) : more = [] := by
  unfold isExtraParamsPath at extra
  split at extra
  next root name rest =>
    simp only [Bool.and_eq_true, beq_iff_eq] at extra
    obtain ⟨⟨_, last⟩, steps⟩ := extra
    cases more with
    | nil => rfl
    | cons key others =>
        have parts : rest = rest.dropLast ++ ["extra_params".toList] := by
          have nonempty : rest ≠ [] := by
            intro empty
            simp [empty] at last
          rw [List.getLast?_eq_some_getLast nonempty] at last
          rw [← Option.some.inj last]
          exact (List.dropLast_append_getLast nonempty).symm
        simp only [List.cons_append, isExtraParamsPath, Bool.and_eq_true] at longer
        have walked := longer.2
        rw [parts, List.append_assoc, List.dropLast_append_of_ne_nil (by simp),
          fallbackSteps_append steps, List.singleton_append, List.dropLast_cons_cons] at walked
        cases left : (key :: others).dropLast with
        | nil => simp [left, fallbackSteps] at walked
        | cons index tail =>
            simp [left, fallbackSteps] at walked
  next => simp at extra

theorem at_null (key : Text) (rest : List Text) : at? (key :: rest) .null = none := rfl

theorem at_getD (old : Option Json) (key : Text) (rest : List Text) :
    at? (key :: rest) (old.getD .null) = old.bind (at? (key :: rest)) := by
  cases old <;> rfl

theorem isObject_of_get {key : Text} {value found : Json} (there : get key value = some found) :
    ∃ fields, value = .object fields := by
  cases value <;> first | exact ⟨_, rfl⟩ | simp [get] at there

theorem wellKeyed_get {key : Text} {value found : Json} (keyed : WellKeyed value)
    (there : get key value = some found) : WellKeyed found := by
  obtain ⟨fields, rfl⟩ := isObject_of_get there
  obtain ⟨entry, first, same⟩ := Option.map_eq_some_iff.mp there
  exact same ▸ ((wellKeyed_object fields).mp keyed).2 entry (List.mem_of_find?_eq_some first)

theorem at_merge_cons (path : List Text) (base : Json) (fields : Fields) (key : Text)
    (rest : List Text) (walked : isExtraParamsPath path = false)
    (keyed : WellKeyed (.object fields)) :
    at? (key :: rest) (merge path base (.object fields)) =
      match get key (.object fields) with
      | none => at? (key :: rest) base
      | some value => (outcome path (key, value) (get key base)).bind (at? rest) := by
  rw [at?, get_merge path base fields key walked ((wellKeyed_object fields).mp keyed).1]
  cases get key (.object fields) <;> rfl

theorem outcome_marker {path : List Text} {key : Text} {value : Json} (old : Option Json)
    (marker : isMarker value = true) (sensitive : isSensitiveConfigPath (path ++ [key]) = true) :
    outcome path (key, value) old = old := by
  simp [outcome, marker, sensitive]

theorem outcome_null (path : List Text) (key : Text) (old : Option Json) :
    outcome path (key, .null) old = none := rfl

theorem outcome_value {path : List Text} {key : Text} {value : Json} (old : Option Json)
    (kept : (isMarker value && isSensitiveConfigPath (path ++ [key])) = false)
    (present : isNull value = false) :
    outcome path (key, value) old = some (merge (path ++ [key]) (old.getD .null) value) := by
  simp [outcome, kept, present]

theorem null_of_isNull {value : Json} (null : isNull value = true) : value = .null := by
  cases value <;> first | rfl | simp [isNull] at null

theorem at_merge_unmentioned {sub : List Text} {path : List Text} {base patch : Json}
    (keyed : WellKeyed patch) (untouched : ¬ Mentions path patch sub) :
    at? sub (merge path base patch) = at? sub base := by
  induction sub generalizing path base patch with
  | nil => exact absurd trivial untouched
  | cons key rest ih =>
      unfold Mentions at untouched
      split at untouched
      next walked =>
        obtain ⟨object, literal⟩ := Bool.and_eq_true_iff.mp walked
        obtain ⟨fields, rfl⟩ : ∃ fields, patch = .object fields := by
          cases patch <;> first | exact ⟨_, rfl⟩ | simp [isObject] at object
        rw [at_merge_cons path base fields key rest (by simpa using literal) keyed]
        split at untouched
        next => rfl
        next value there =>
          have inner := @ih (path ++ [key]) ((get key base).getD .null) value
            (wellKeyed_get keyed there) untouched
          cases kept : isMarker value && isSensitiveConfigPath (path ++ [key]) with
          | true =>
              obtain ⟨marker, sensitive⟩ := Bool.and_eq_true_iff.mp kept
              rw [outcome_marker _ marker sensitive, at?]
          | false =>
              cases null : isNull value with
              | true =>
                  obtain rfl := null_of_isNull null
                  cases rest <;> exact absurd trivial untouched
              | false =>
                  rw [outcome_value _ kept null, Option.bind_some, inner]
                  cases rest with
                  | nil => exact absurd trivial untouched
                  | cons next rest => rw [at_getD, ← at?]
      next => exact absurd trivial untouched

theorem at_merge_extraParams {key : Text} {rest : List Text} {path : List Text}
    {base patch value : Json} (keyed : WellKeyed patch)
    (extra : isExtraParamsPath (path ++ key :: rest) = true)
    (there : at? (key :: rest) patch = some value) :
    at? (key :: rest) (merge path base patch) = if isNull value then none else some value := by
  induction rest generalizing key path base patch with
  | nil =>
      rw [at?, Option.bind_eq_some_iff] at there
      obtain ⟨found, here, same⟩ := there
      obtain rfl : found = value := Option.some.inj same
      obtain ⟨fields, rfl⟩ := isObject_of_get here
      have walked : isExtraParamsPath path = false := by
        rw [Bool.eq_false_iff]
        intro literal
        exact absurd (extraParams_alone literal extra) (List.cons_ne_nil _ _)
      rw [at_merge_cons path base fields key [] walked keyed, here]
      cases null : isNull found with
      | true =>
          obtain rfl := null_of_isNull null
          rfl
      | false =>
          have literal : ∀ old, merge (path ++ [key]) old found = found := by
            intro old
            cases found with
            | object inner => rw [merge_object, if_pos extra]
            | _ => rfl
          have kept : (isMarker found && isSensitiveConfigPath (path ++ [key])) = false := by
            rw [not_sensitive_of_extraParams extra, Bool.and_false]
          simp only [outcome_value _ kept null, literal]
          rfl
  | cons next rest ih =>
      rw [at?, Option.bind_eq_some_iff] at there
      obtain ⟨found, here, below⟩ := there
      obtain ⟨fields, rfl⟩ := isObject_of_get here
      have walked : isExtraParamsPath path = false := by
        rw [Bool.eq_false_iff]
        intro literal
        exact absurd (extraParams_alone literal extra) (List.cons_ne_nil _ _)
      have present : isNull found = false := by
        rw [Bool.eq_false_iff]
        intro null
        simp [null_of_isNull null, at_null] at below
      rw [at_merge_cons path base fields key _ walked keyed, here]
      have kept : (isMarker found && isSensitiveConfigPath (path ++ [key])) = false := by
        rw [not_sensitive_of_extraParams extra, Bool.and_false]
      simp only [outcome_value _ kept present]
      exact ih (wellKeyed_get keyed here) (by simpa using extra) below

theorem at_merge_sensitive {key : Text} {rest : List Text} {path : List Text}
    {base patch : Json} (keyed : WellKeyed patch)
    (sensitive : isSensitiveConfigPath (path ++ key :: rest) = true) :
    (∀ value, at? (key :: rest) patch = some value → isMarker value = true →
      at? (key :: rest) (merge path base patch) = at? (key :: rest) base) ∧
    ((∀ value, at? (key :: rest) patch = some value → isObject value = true →
      isMarker value = true) →
      ∀ value, at? (key :: rest) (merge path base patch) = some value → isMarker value = true →
        at? (key :: rest) base = some value) := by
  induction rest generalizing key path base patch with
  | nil =>
      have walked := not_extraParams_of_sensitive sensitive
      cases patch with
      | object fields =>
          rw [at_merge_cons path base fields key [] walked keyed]
          simp only [at?]
          cases there : get key (.object fields) with
          | none => exact ⟨by simp, fun _ _ stored _ => stored⟩
          | some found =>
              cases marker : isMarker found with
              | true =>
                  simp only [outcome_marker _ marker sensitive]
                  exact ⟨fun _ _ _ => trivial, fun _ _ stored _ => stored⟩
              | false =>
                  simp only [Option.bind_some, Option.some.injEq]
                  refine ⟨fun value same mark => by simp [← same, marker] at mark, ?_⟩
                  intro shape value stored mark
                  have plain : isObject found = false := by
                    rw [Bool.eq_false_iff]
                    intro object
                    simp [shape found rfl object] at marker
                  cases null : isNull found with
                  | true =>
                      obtain rfl := null_of_isNull null
                      simp [outcome_null] at stored
                  | false =>
                      rw [outcome_value _ (by simp [marker]) null, merge_other _ _ plain] at stored
                      obtain rfl : found = value := by simpa using stored
                      simp [marker] at mark
      | _ => simp [at?, get, merge]
  | cons next rest ih =>
      have walked := not_extraParams_of_sensitive sensitive
      cases patch with
      | object fields =>
          rw [at_merge_cons path base fields key _ walked keyed]
          rw [at?]
          cases there : get key (.object fields) with
          | none => exact ⟨by simp, fun _ _ stored _ => stored⟩
          | some found =>
              simp only [Option.bind_some]
              cases kept : isMarker found && isSensitiveConfigPath (path ++ [key]) with
              | true =>
                  obtain ⟨marker, early⟩ := Bool.and_eq_true_iff.mp kept
                  rw [outcome_marker _ marker early]
                  exact ⟨fun _ _ _ => rfl, fun _ _ stored _ => stored⟩
              | false =>
                  cases null : isNull found with
                  | true =>
                      obtain rfl := null_of_isNull null
                      simp [outcome_null, at_null]
                  | false =>
                      have deeper : isSensitiveConfigPath ((path ++ [key]) ++ next :: rest) = true := by
                        simpa using sensitive
                      have inner := @ih next (path ++ [key]) ((get key base).getD .null) found
                        (wellKeyed_get keyed there) deeper
                      rw [outcome_value _ kept null, Option.bind_some]
                      rw [at_getD, ← at?] at inner
                      exact inner
      | _ => simp [at?, get, merge]

end Paths

section Twice

def Settled (path : List Text) (base : Fields) (field : Text × Json) : Prop :=
  (isMarker field.2 && isSensitiveConfigPath (path ++ [field.1])) = true ∨
  (isNull field.2 = true ∧ hasKey field.1 base = false) ∨
  (isNull field.2 = false ∧ hasKey field.1 base = true ∧
    ∀ entry ∈ base, entry.1 = field.1 →
      merge (path ++ [field.1]) entry.2 field.2 = entry.2)

theorem hasKey_iff (key : Text) (fields : Fields) :
    hasKey key fields = true ↔ ∃ entry ∈ fields, entry.1 = key := by
  simp [hasKey]

theorem not_hasKey_iff (key : Text) (fields : Fields) :
    hasKey key fields = false ↔ ∀ entry ∈ fields, entry.1 ≠ key := by
  simp [hasKey]

theorem update_eq_self {key : Text} {change : Json → Json} {fields : Fields}
    (same : ∀ entry ∈ fields, entry.1 = key → change entry.2 = entry.2) :
    update key change fields = fields := by
  refine (List.map_congr_left fun entry member => ?_).trans (List.map_id fields)
  split
  next mine => exact Prod.ext rfl (same entry member mine)
  next => rfl

theorem mergeField_settled {path : List Text} {base : Fields} {field : Text × Json}
    (settled : Settled path base field) : mergeField path base field = base := by
  unfold mergeField
  split
  next => rfl
  next other =>
    cases settled with
    | inl marked => exact absurd marked other
    | inr rest =>
        cases rest with
        | inl absent =>
            rw [if_pos absent.1, removeKey, List.filter_eq_self]
            intro entry member
            simpa using (not_hasKey_iff field.1 base).mp absent.2 entry member
        | inr present =>
            rw [if_neg (by simp [present.1]), upsert, if_pos present.2.1]
            exact update_eq_self present.2.2

theorem mem_upsert_of_ne {key : Text} {change : Json → Json} {base : Fields}
    {entry : Text × Json} (other : entry.1 ≠ key) :
    entry ∈ upsert key change base ↔ entry ∈ base := by
  unfold upsert
  split
  next =>
    simp only [update, List.mem_map]
    constructor
    · intro there
      obtain ⟨old, member, same⟩ := there
      split at same
      next mine => exact absurd ((congrArg Prod.fst same).symm.trans mine) other
      next => exact same ▸ member
    · intro member
      exact ⟨entry, member, if_neg other⟩
  next =>
    simp only [List.mem_append, List.mem_singleton, or_iff_left_iff_imp]
    intro same
    exact absurd (congrArg Prod.fst same) other

theorem mem_mergeField_of_ne {path : List Text} {base : Fields} {field entry : Text × Json}
    (other : entry.1 ≠ field.1) : entry ∈ mergeField path base field ↔ entry ∈ base := by
  unfold mergeField
  split
  next => rfl
  next =>
    split
    next => simp [removeKey, other]
    next => exact mem_upsert_of_ne other

theorem settled_other {path : List Text} {base : Fields} {field other : Text × Json}
    (settled : Settled path base field) (apart : other.1 ≠ field.1) :
    Settled path (mergeField path base other) field := by
  have same (entry : Text × Json) (mine : entry.1 = field.1) :
      entry ∈ mergeField path base other ↔ entry ∈ base :=
    mem_mergeField_of_ne fun equal => apart (equal.symm.trans mine)
  have keys : hasKey field.1 (mergeField path base other) = hasKey field.1 base := by
    rw [Bool.eq_iff_iff, hasKey_iff, hasKey_iff]
    constructor
    · intro there
      obtain ⟨entry, member, mine⟩ := there
      exact ⟨entry, (same entry mine).mp member, mine⟩
    · intro there
      obtain ⟨entry, member, mine⟩ := there
      exact ⟨entry, (same entry mine).mpr member, mine⟩
  unfold Settled
  rw [keys]
  refine settled.imp_right fun rest => rest.imp_right fun present => ?_
  exact ⟨present.1, present.2.1, fun entry member mine =>
    present.2.2 entry ((same entry mine).mp member) mine⟩

theorem mergeField_settles {path : List Text} (base : Fields) {field : Text × Json}
    (twice : ∀ old, merge (path ++ [field.1]) (merge (path ++ [field.1]) old field.2) field.2 =
      merge (path ++ [field.1]) old field.2) :
    Settled path (mergeField path base field) field := by
  unfold mergeField
  split
  next marked => exact Or.inl marked
  next =>
    split
    next null => exact Or.inr (Or.inl ⟨null, by simp [not_hasKey_iff, removeKey]⟩)
    next present =>
      refine Or.inr (Or.inr ⟨by simpa using present, ?_, ?_⟩)
      · have there := get_upsert field.1 field.1
          (fun old => merge (path ++ [field.1]) old field.2) base
        rw [← get_isSome, there]
        simp
      · intro entry member mine
        unfold upsert at member
        split at member
        next =>
          obtain ⟨old, _, same⟩ := List.mem_map.mp member
          split at same
          next => rw [← same]; exact twice old.2
          next differs => exact absurd ((congrArg Prod.fst same).trans mine) differs
        next absent =>
          cases List.mem_append.mp member with
          | inl old =>
              have none := (not_hasKey_iff field.1 base).mp (by simpa using absent)
              exact absurd mine (none entry old)
          | inr new =>
              rw [List.mem_singleton.mp new]
              exact twice .null

theorem mergeFields_settled {path : List Text} {base fields : Fields}
    (settled : ∀ field ∈ fields, Settled path base field) :
    mergeFields path base fields = base := by
  induction fields with
  | nil => rfl
  | cons field rest ih =>
      rw [mergeFields_cons, mergeField_settled (settled field List.mem_cons_self)]
      exact ih fun other member => settled other (List.mem_cons_of_mem _ member)

theorem mergeFields_keeps {path : List Text} {base fields : Fields} {field : Text × Json}
    (settled : Settled path base field) (apart : ∀ other ∈ fields, other.1 ≠ field.1) :
    Settled path (mergeFields path base fields) field := by
  induction fields generalizing base with
  | nil => exact settled
  | cons other rest ih =>
      rw [mergeFields_cons]
      exact ih (settled_other settled (apart other List.mem_cons_self))
        fun later member => apart later (List.mem_cons_of_mem _ member)

theorem mergeFields_settles {path : List Text} (base : Fields) {fields : Fields}
    (keyed : (fields.map Prod.fst).Nodup)
    (twice : ∀ field ∈ fields, ∀ old,
      merge (path ++ [field.1]) (merge (path ++ [field.1]) old field.2) field.2 =
        merge (path ++ [field.1]) old field.2) :
    ∀ field ∈ fields, Settled path (mergeFields path base fields) field := by
  induction fields generalizing base with
  | nil => simp
  | cons first rest ih =>
      obtain ⟨fresh, others⟩ := List.nodup_cons.mp keyed
      intro field member
      rw [mergeFields_cons]
      cases List.mem_cons.mp member with
      | inl here =>
          subst here
          refine mergeFields_keeps (mergeField_settles base (twice field List.mem_cons_self)) ?_
          intro other later same
          exact fresh (same ▸ List.mem_map_of_mem later)
      | inr later =>
          exact ih _ others (fun other member => twice other (List.mem_cons_of_mem _ member)) field
            later

theorem merge_twice {patch : Json} (path : List Text) (base : Json) (keyed : WellKeyed patch) :
    merge path (merge path base patch) patch = merge path base patch := by
  induction patch using induct_value generalizing path base with
  | object fields ih =>
      obtain ⟨keys, inner⟩ := (wellKeyed_object fields).mp keyed
      rw [merge_object, merge_object]
      split
      next => rfl
      next =>
        refine congrArg Json.object (mergeFields_settled ?_)
        exact mergeFields_settles _ keys fun field member old =>
          ih field member _ old (inner field member)
  | other value leaf => rw [merge_other _ _ leaf, merge_other _ _ leaf]

end Twice

end Frona.Config
