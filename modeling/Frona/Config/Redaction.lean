import Frona.Config.Merge
import Mathlib.Data.List.Nodup

set_option autoImplicit false

namespace Frona.Config

open Utf8 (Text)
open Frona.Chat (Json)

mutual

def dropNulls (path : List Text) : Json → Json
  | .object fields =>
      if isExtraParamsPath path then .object fields else .object (dropNullFields path fields)
  | .null => .null
  | .bool value => .bool value
  | .number digits => .number digits
  | .string text => .string text
  | .array items => .array items

def dropNullFields (path : List Text) : Fields → Fields
  | [] => []
  | (key, value) :: rest =>
      if isSensitiveConfigPath (path ++ [key]) then (key, value) :: dropNullFields path rest
      else if isNull value then dropNullFields path rest
      else (key, dropNulls (path ++ [key]) value) :: dropNullFields path rest

end

inductive Mirrors (hidden : List Text → Bool) : List Text → Json → Json → Prop
  | leaf {path : List Text} {value : Json} (leaf : isObject value = false) :
      Mirrors hidden path value value
  | object {path : List Text} {fields : Fields} (shown : Text × Json → Json)
      (markers : ∀ entry ∈ fields, hidden (path ++ [entry.1]) = true →
        isMarker (shown entry) = true)
      (others : ∀ entry ∈ fields, hidden (path ++ [entry.1]) = false →
        Mirrors hidden (path ++ [entry.1]) entry.2 (shown entry)) :
      Mirrors hidden path (.object fields) (.object (fields.map fun entry => (entry.1, shown entry)))

section Mirrored

variable {hidden : List Text → Bool}

theorem mirrors_refl (path : List Text) (value : Json) :
    Mirrors (fun _ => false) path value value := by
  induction value using induct_value generalizing path with
  | object fields ih =>
      have same := @Mirrors.object (fun _ => false) path fields Prod.snd (by simp)
        fun entry member _ => ih entry member _
      rwa [List.map_id''] at same
      intro entry
      rfl
  | other value leaf => exact .leaf leaf

theorem Mirrors.congr {other : List Text → Bool} {path : List Text} {value shown : Json}
    (mirrors : Mirrors hidden path value shown)
    (agree : ∀ key rest, hidden (path ++ key :: rest) = other (path ++ key :: rest)) :
    Mirrors other path value shown := by
  induction mirrors with
  | leaf leaf => exact .leaf leaf
  | object shown markers others ih =>
      refine .object shown (fun entry member secret => ?_) fun entry member plain => ?_
      · exact markers entry member ((agree entry.1 []).trans secret)
      · refine ih entry member ((agree entry.1 []).trans plain) fun key rest => ?_
        simpa using agree entry.1 (key :: rest)

theorem mirrors_isNull {path : List Text} {value shown : Json}
    (mirrors : Mirrors hidden path value shown) : isNull shown = isNull value := by
  cases mirrors <;> rfl

theorem dropNulls_other {value : Json} (path : List Text) (leaf : isObject value = false) :
    dropNulls path value = value := by
  cases value <;> first | rfl | simp [isObject] at leaf

example : isNull (dropNulls [] .null) = true := by decide +kernel

theorem Mirrors.update {other : List Text → Bool} {path : List Text} {key : Text}
    {fields shown : Fields} {change : Json → Json}
    (mirrors : Mirrors hidden path (.object fields) (.object shown))
    (apart : ∀ second rest, second ≠ key →
      hidden (path ++ second :: rest) = other (path ++ second :: rest))
    (marked : other (path ++ [key]) = true → ∀ value, isMarker (change value) = true)
    (changed : other (path ++ [key]) = false →
      hidden (path ++ [key]) = false ∧ ∀ entry ∈ fields, entry.1 = key → ∀ before,
        Mirrors hidden (path ++ [key]) entry.2 before →
          Mirrors other (path ++ [key]) entry.2 (change before)) :
    Mirrors other path (.object fields) (.object (update key change shown)) := by
  cases mirrors with
  | leaf leaf => simp [isObject] at leaf
  | object shown markers others =>
      have maps : Config.update key change (fields.map fun entry => (entry.1, shown entry)) =
          fields.map fun entry =>
            (entry.1, if entry.1 = key then change (shown entry) else shown entry) := by
        rw [Config.update, List.map_map]
        refine List.map_congr_left fun entry _ => ?_
        simp only [Function.comp]
        split <;> rfl
      rw [maps]
      refine .object _ (fun entry member secret => ?_) fun entry member plain => ?_
      · split
        next mine => exact marked (mine ▸ secret) _
        next differs =>
          exact markers entry member ((apart entry.1 [] differs).trans secret)
      · split
        next mine =>
          have kept := changed (mine ▸ plain)
          rw [mine]
          exact kept.2 entry member mine _ (mine ▸ others entry member (mine ▸ kept.1))
        next differs =>
          refine (others entry member ((apart entry.1 [] differs).trans plain)).congr ?_
          intro second rest
          simpa using apart entry.1 (second :: rest) differs

theorem mirrors_redactKey {path : List Text} {value shown : Json} (key : Text)
    (mirrors : Mirrors hidden path value shown) :
    Mirrors (fun other => hidden other || other == path ++ [key]) path value
      (redactAsIsSet [key] shown) := by
  cases mirrors with
  | leaf leaf =>
      have same : redactAsIsSet [key] value = value := by
        cases value <;> first | rfl | simp [isObject] at leaf
      rw [same]
      exact .leaf leaf
  | object shown markers others =>
      refine (Mirrors.object shown markers others).update (fun second rest differs => ?_)
        (fun _ value => rfl) (by simp)
      have apart : (path ++ second :: rest == path ++ [key]) = false := by
        simp [differs]
      rw [apart, Bool.or_false]

theorem mirrors_redactPair {value shown : Json} (first second : Text)
    (mirrors : Mirrors hidden [] value shown) (outer : hidden [first] = false) :
    Mirrors (fun other => hidden other || other == [first, second]) [] value
      (redactAsIsSet [first, second] shown) := by
  cases mirrors with
  | leaf leaf =>
      have same : redactAsIsSet [first, second] value = value := by
        cases value <;> first | rfl | simp [isObject] at leaf
      rw [same]
      exact .leaf leaf
  | object shown markers others =>
      refine (Mirrors.object shown markers others).update (fun other rest differs => ?_)
        (by simp [outer]) fun _ => ⟨outer, fun entry _ _ before inner => ?_⟩
      · have apart : ([] ++ other :: rest == [first, second]) = false := by
          simp [differs]
        rw [apart, Bool.or_false]
      · exact mirrors_redactKey second inner

theorem mirrors_redactAll {value shown : Json} (paths : List (List Text))
    (pairs : ∀ path ∈ paths, path.length = 2) (outer : ∀ first, hidden [first] = false)
    (mirrors : Mirrors hidden [] value shown) :
    Mirrors (fun other => hidden other || paths.contains other) [] value
      (paths.foldl (fun value path => redactAsIsSet path value) shown) := by
  induction paths generalizing hidden shown with
  | nil => simpa using mirrors
  | cons path rest ih =>
      match path, pairs path List.mem_cons_self with
      | [first, second], _ =>
          have step := mirrors_redactPair first second mirrors (outer first)
          have more := ih (fun path member => pairs path (List.mem_cons_of_mem _ member))
            (by simp [outer]) step
          refine more.congr fun key below => ?_
          simp only [List.contains_cons, Bool.or_assoc]

theorem listed_not_provider (rest : List Text) :
    sensitivePaths.contains (providersKey :: rest) = false := by
  have heads : ∀ path ∈ sensitivePaths, path.head? ≠ some providersKey := by decide
  rw [Bool.eq_false_iff]
  intro listed
  exact heads _ (List.contains_iff_mem.mp listed) rfl

theorem sensitive_provider (name key : Text) (rest : List Text) :
    isSensitiveConfigPath (providersKey :: name :: key :: rest) =
      (providersKey :: name :: key :: rest == [providersKey, name, "api_key".toList]) := by
  unfold isSensitiveConfigPath
  rw [listed_not_provider, Bool.false_or]
  cases rest with
  | nil =>
      rw [Bool.eq_iff_iff]
      simp [sensitiveProviderFields]
  | cons next rest => simp

theorem mirrors_providers {value shown : Json}
    (mirrors : Mirrors (fun path => sensitivePaths.contains path) [providersKey] value shown) :
    Mirrors isSensitiveConfigPath [providersKey] value (redactProviders shown) := by
  cases mirrors with
  | leaf leaf =>
      have same : redactProviders value = value := by
        cases value <;> first | rfl | simp [isObject] at leaf
      rw [same]
      exact .leaf leaf
  | @object _ fields shown markers others =>
      have maps : redactProviders (.object (fields.map fun entry => (entry.1, shown entry))) =
          .object (fields.map fun entry => (entry.1, redactAsIsSet ["api_key".toList]
            (shown entry))) := by
        rw [redactProviders, List.map_map]
        rfl
      rw [maps]
      refine .object _ (fun entry _ secret => ?_) fun entry member _ => ?_
      · unfold isSensitiveConfigPath at secret
        rw [List.singleton_append, listed_not_provider] at secret
        simp at secret
      · have one := mirrors_redactKey "api_key".toList
          (others entry member (listed_not_provider [entry.1]))
        refine one.congr fun key rest => ?_
        simp only [List.cons_append, List.nil_append]
        rw [listed_not_provider, Bool.false_or, sensitive_provider]

theorem mirrors_literal {path : List Text} {value shown : Json}
    (mirrors : Mirrors isSensitiveConfigPath path value shown)
    (models : path.head? = some modelsKey) : shown = value := by
  induction mirrors with
  | leaf => rfl
  | @object path fields shown markers others ih =>
      have same : ∀ entry ∈ fields, shown entry = entry.2 := by
        intro entry member
        have below : (path ++ [entry.1]).head? = some modelsKey := by
          simp [List.head?_append, models]
        have plain : isSensitiveConfigPath (path ++ [entry.1]) = false := by
          rw [Bool.eq_false_iff]
          exact fun sensitive => sensitive_head sensitive below
        exact ih entry member plain below
      refine congrArg Json.object ((List.map_congr_left fun entry member => ?_).trans
        (List.map_id fields))
      rw [same entry member]
      rfl

section Around

variable {done rest : Fields} {key : Text} {value : Json}

theorem apart_of_nodup (keyed : ((done ++ (key, value) :: rest).map Prod.fst).Nodup) :
    (∀ entry ∈ done, entry.1 ≠ key) ∧ ∀ entry ∈ rest, entry.1 ≠ key := by
  rw [List.map_append, List.map_cons, List.nodup_append] at keyed
  obtain ⟨_, tail, apart⟩ := keyed
  refine ⟨fun entry member => ?_, fun entry member same => ?_⟩
  · exact apart _ (List.mem_map_of_mem member) _ List.mem_cons_self
  · exact (List.nodup_cons.mp tail).1 (List.mem_map.mpr ⟨entry, member, same⟩)

theorem removeKey_between (keyed : ((done ++ (key, value) :: rest).map Prod.fst).Nodup) :
    removeKey key (done ++ (key, value) :: rest) = done ++ rest := by
  obtain ⟨before, after⟩ := apart_of_nodup keyed
  rw [removeKey, List.filter_append, List.filter_cons_of_neg (by simp)]
  rw [List.filter_eq_self.mpr fun entry member => by simpa using before entry member]
  rw [List.filter_eq_self.mpr fun entry member => by simpa using after entry member]

theorem upsert_between (change : Json → Json)
    (keyed : ((done ++ (key, value) :: rest).map Prod.fst).Nodup) :
    upsert key change (done ++ (key, value) :: rest) = done ++ (key, change value) :: rest := by
  obtain ⟨before, after⟩ := apart_of_nodup keyed
  have there : hasKey key (done ++ (key, value) :: rest) = true := by simp [hasKey]
  have keeps (part : Fields) (apart : ∀ entry ∈ part, entry.1 ≠ key) :
      update key change part = part :=
    update_eq_self fun entry member same => absurd same (apart entry member)
  have parts : update key change (done ++ (key, value) :: rest) =
      update key change done ++ (key, change value) :: update key change rest := by
    simp [update]
  rw [upsert, if_pos there, parts, keeps done before, keeps rest after]

end Around

theorem mergeFields_mirrored (path : List Text) (shown : Text × Json → Json) (done rest : Fields)
    (keyed : ((done ++ rest).map Prod.fst).Nodup)
    (markers : ∀ entry ∈ rest, isSensitiveConfigPath (path ++ [entry.1]) = true →
      isMarker (shown entry) = true)
    (others : ∀ entry ∈ rest, isSensitiveConfigPath (path ++ [entry.1]) = false →
      isNull (shown entry) = isNull entry.2 ∧
        merge (path ++ [entry.1]) entry.2 (shown entry) = dropNulls (path ++ [entry.1]) entry.2) :
    mergeFields path (done ++ rest) (rest.map fun entry => (entry.1, shown entry)) =
      done ++ dropNullFields path rest := by
  induction rest generalizing done with
  | nil => rfl
  | cons entry rest ih =>
      obtain ⟨key, value⟩ := entry
      have first : (key, value) ∈ (key, value) :: rest := List.mem_cons_self
      have markers' := fun entry member => markers entry (List.mem_cons_of_mem _ member)
      have others' := fun entry member => others entry (List.mem_cons_of_mem _ member)
      rw [List.map_cons, mergeFields_cons, mergeField, dropNullFields]
      cases secret : isSensitiveConfigPath (path ++ [key]) with
      | true =>
          rw [if_pos (by simp [markers _ first secret]), if_pos rfl]
          have next := ih (done ++ [(key, value)]) (by simpa using keyed) markers' others'
          simpa using next
      | false =>
          obtain ⟨null, merged⟩ := others _ first secret
          simp only [Bool.and_false, Bool.false_eq_true, if_false, null]
          split
          next =>
            rw [removeKey_between keyed]
            refine ih done ?_ markers' others'
            rw [List.map_append, List.map_cons] at keyed
            rw [List.map_append]
            exact keyed.sublist ((List.sublist_cons_self _ _).append_left _)
          next =>
            rw [upsert_between _ keyed, merged]
            have next := ih (done ++ [(key, dropNulls (path ++ [key]) value)])
              (by simpa using keyed) markers' others'
            simpa using next

theorem merge_mirrored {path : List Text} {value shown : Json}
    (mirrors : Mirrors isSensitiveConfigPath path value shown) (keyed : WellKeyed value) :
    merge path value shown = dropNulls path value := by
  induction mirrors with
  | leaf leaf => rw [merge_other _ _ leaf, dropNulls_other _ leaf]
  | @object path fields shown markers others ih =>
      obtain ⟨keys, inner⟩ := (wellKeyed_object fields).mp keyed
      rw [merge_object, dropNulls]
      cases extra : isExtraParamsPath path with
      | true =>
          rw [if_pos rfl, if_pos rfl]
          exact mirrors_literal (.object shown markers others) (extraParams_head extra)
      | false =>
          rw [if_neg (by simp), if_neg (by simp)]
          refine congrArg Json.object (mergeFields_mirrored path shown [] fields keys markers ?_)
          intro entry member plain
          exact ⟨mirrors_isNull (others entry member plain),
            ih entry member plain (inner entry member)⟩

end Mirrored

section Restored

theorem mirrors_insertUnset {fields shown : Fields} (keyed : (fields.map Prod.fst).Nodup)
    (default : hasDefaultSecret (.object fields) = true)
    (mirrors : Mirrors isSensitiveConfigPath [] (.object fields) (.object shown)) :
    Mirrors isSensitiveConfigPath [] (.object fields)
      (.object (update "auth".toList insertUnset shown)) := by
  have plain : isSensitiveConfigPath ["auth".toList] = false := by decide
  have secret : isSensitiveConfigPath ["auth".toList, "encryption_secret".toList] = true := by
    decide
  refine mirrors.update (fun _ _ _ => rfl) (fun marked => Bool.noConfusion (plain.symm.trans marked)) ?_
  refine fun _ => ⟨plain, fun entry member mine before inner => ?_⟩
  -- The default was found, so `auth` is an object with the key.
  obtain ⟨auth, there, found⟩ : ∃ auth, get "auth".toList (.object fields) = some auth ∧
      (get "encryption_secret".toList auth).isSome := by
    unfold hasDefaultSecret at default
    split at default
    next text there =>
      rw [at?, Option.bind_eq_some_iff] at there
      obtain ⟨auth, here, deeper⟩ := there
      rw [at?, Option.bind_eq_some_iff] at deeper
      obtain ⟨value, inside, _⟩ := deeper
      exact ⟨auth, here, by rw [inside]; rfl⟩
    next => simp at default
  obtain ⟨other, first, same⟩ := Option.map_eq_some_iff.mp there
  have key : (other.1 == "auth".toList) = true := by simpa using List.find?_some first
  obtain rfl : other = entry :=
    List.inj_on_of_nodup_map keyed (List.mem_of_find?_eq_some first) member
      ((beq_iff_eq.mp key).trans mine.symm)
  rw [same] at inner ⊢
  cases inner with
  | leaf leaf => simp [get_other _ leaf] at found
  | @object _ inside shown markers others =>
      rw [get_isSome, hasKey_iff] at found
      have has : hasKey "encryption_secret".toList
          (inside.map fun entry => (entry.1, shown entry)) = true := by
        obtain ⟨entry, member, mine⟩ := found
        exact (hasKey_iff _ _).mpr ⟨_, List.mem_map_of_mem member, mine⟩
      rw [insertUnset, upsert, if_pos has]
      exact (Mirrors.object shown markers others).update (fun _ _ _ => rfl)
        (fun _ _ => rfl) (fun plain => Bool.noConfusion (secret.symm.trans plain))

theorem redact_mirrors (doc : Document) :
    Mirrors isSensitiveConfigPath [] doc.value (redactConfigForApi doc.value) := by
  have pairs : ∀ path ∈ sensitivePaths, path.length = 2 := by decide
  have none : isSensitiveConfigPath ([] ++ [providersKey]) = false := by decide
  have listed : Mirrors (fun path => sensitivePaths.contains path) [] doc.value
      (sensitivePaths.foldl (fun value path => redactAsIsSet path value) doc.value) :=
    (mirrors_redactAll sensitivePaths pairs (fun _ => rfl) (mirrors_refl [] doc.value)).congr
      (by simp)
  unfold redactConfigForApi
  generalize sensitivePaths.foldl (fun value path => redactAsIsSet path value) doc.value = shown
    at listed ⊢
  obtain ⟨value, keyed⟩ := doc
  cases listed with
  | leaf leaf =>
      have same (change : Json → Json) (key : Text) : within key change value = value := by
        cases value <;> first | rfl | simp [isObject] at leaf
      simp only [same]
      split <;> exact .leaf leaf
  | @object _ fields shown markers others =>
      have provided : Mirrors isSensitiveConfigPath [] (.object fields)
          (.object (update providersKey redactProviders
            (fields.map fun entry => (entry.1, shown entry)))) := by
        refine (Mirrors.object shown markers others).update (fun second rest differs => ?_)
          (fun secret => Bool.noConfusion (none.symm.trans secret))
          fun _ => ⟨listed_not_provider [], fun entry _ _ before inner => mirrors_providers inner⟩
        have apart : (second == providersKey) = false := by simpa using differs
        unfold isSensitiveConfigPath
        simp only [List.nil_append]
        split
        next same =>
          rw [(List.cons.inj same).1] at apart
          simp [apart]
        next => simp
      simp only [within]
      split
      next default =>
        exact mirrors_insertUnset ((wellKeyed_object fields).mp keyed).1 default provided
      next => exact provided

/-- What the API shows of a document restores it when it is merged back, but for null members; and
a patch changes what it mentions, once, with literal parameters and without markers for secrets. -/
theorem deepMerge_document (doc base patch : Document) :
    deepMerge doc.value (redactConfigForApi doc.value) = dropNulls [] doc.value ∧
    (∀ path, ¬ Mentions [] patch.value path →
      at? path (deepMerge base.value patch.value) = at? path base.value) ∧
    deepMerge (deepMerge base.value patch.value) patch.value = deepMerge base.value patch.value ∧
    (∀ path value, isExtraParamsPath path = true → at? path patch.value = some value →
      at? path (deepMerge base.value patch.value) = if isNull value then none else some value) ∧
    ∀ path, isSensitiveConfigPath path = true →
      (∀ value, at? path patch.value = some value → isMarker value = true →
        at? path (deepMerge base.value patch.value) = at? path base.value) ∧
      ((∀ value, at? path patch.value = some value → isObject value = true →
        isMarker value = true) →
        ∀ value, at? path (deepMerge base.value patch.value) = some value →
          isMarker value = true → at? path base.value = some value) := by
  refine ⟨merge_mirrored (redact_mirrors doc) doc.wellKeyed,
    fun path untouched => at_merge_unmentioned patch.wellKeyed untouched,
    merge_twice [] base.value patch.wellKeyed, fun path value extra there => ?_,
    fun path sensitive => ?_⟩
  · cases path with
    | nil => simp [isExtraParamsPath] at extra
    | cons key rest => exact at_merge_extraParams patch.wellKeyed extra there
  · cases path with
    | nil => exact absurd sensitive (by decide)
    | cons key rest => exact at_merge_sensitive patch.wellKeyed sensitive

def nullPort : Document where
  value := .object [("server".toList, .object [("port".toList, .null)])]
  wellKeyed := by simp [WellKeyed, WellKeyedFields]

theorem null_member_not_restored :
    ¬ ∀ doc : Document, deepMerge doc.value (redactConfigForApi doc.value) = doc.value := by
  intro claimed
  have dropped : at? ["server".toList, "port".toList]
      (deepMerge nullPort.value (redactConfigForApi nullPort.value)) = none :=
    Option.isNone_iff_eq_none.mp (by decide)
  rw [claimed nullPort] at dropped
  cases dropped

end Restored

end Frona.Config
