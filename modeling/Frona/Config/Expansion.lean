import Frona.Config.Pointer
import Frona.Text.Words

set_option autoImplicit false

namespace Frona.Config

open Utf8 (Text stripPrefix stripPrefix_append stripPrefix_eq_some)
open Frona.Chat (Json)

def openBrace : Char := Char.ofNat 0x7b

def closeBrace : Char := Char.ofNat 0x7d

section Scanner

-- `std::env::var`
variable (env : Text → Option Text)

/-- The two loops of `expand_env_vars`: outside a reference, and in the name of one. -/
def expandFrom : Option Text → Text → Text
  | none, [] => []
  | none, [c] => [c]
  | none, c :: next :: rest =>
      if c = '$' ∧ next = openBrace then expandFrom (some []) rest
      else c :: expandFrom none (next :: rest)
  | some name, [] => (env name).getD []
  | some name, c :: rest =>
      if c = closeBrace then (env name).getD [] ++ expandFrom none rest
      else expandFrom (some (name ++ [c])) rest

def expandEnvVars (input : Text) : Text := expandFrom env none input

inductive Piece where
  | literal (c : Char)
  | reference (name : Text)
  deriving DecidableEq

def Piece.text : Piece → Text
  | literal c => [c]
  | reference name => '$' :: openBrace :: name ++ [closeBrace]

def Piece.value : Piece → Text
  | literal c => [c]
  | reference name => (env name).getD []

def textOf (pieces : List Piece) : Text := pieces.flatMap Piece.text

def valueOf (pieces : List Piece) : Text := pieces.flatMap (Piece.value env)

/-- No reference begins outside the references, and each ends with its first brace. -/
def WellRead : List Piece → Prop
  | [] => True
  | .literal c :: rest => (c = '$' → rest.head? ≠ some (.literal openBrace)) ∧ WellRead rest
  | .reference name :: rest => closeBrace ∉ name ∧ WellRead rest

instance decidableWellRead : (pieces : List Piece) → Decidable (WellRead pieces)
  | [] => isTrue trivial
  | .literal _ :: rest =>
      have := decidableWellRead rest
      inferInstanceAs (Decidable (_ ∧ _))
  | .reference _ :: rest =>
      have := decidableWellRead rest
      inferInstanceAs (Decidable (_ ∧ _))

/-- A reference begins and never ends. -/
def Unterminated (text : Text) : Prop :=
  ∃ before name, text = before ++ '$' :: openBrace :: name ∧ closeBrace ∉ name

theorem expandFrom_name (name done rest : Text) (inside : closeBrace ∉ name) :
    expandFrom env (some done) (name ++ closeBrace :: rest) =
      (env (done ++ name)).getD [] ++ expandFrom env none rest := by
  induction name generalizing done with
  | nil => simp [expandFrom]
  | cons c name ih =>
      have other : c ≠ closeBrace := fun same => inside (by simp [same])
      have more : closeBrace ∉ name := fun member => inside (List.mem_cons_of_mem c member)
      rw [List.cons_append, expandFrom, if_neg other, ih _ more, List.append_assoc,
        List.singleton_append]

theorem expandFrom_literal {c : Char} {rest : Text}
    (plain : c = '$' → rest.head? ≠ some openBrace) :
    expandFrom env none (c :: rest) = c :: expandFrom env none rest := by
  cases rest with
  | nil => rfl
  | cons next rest =>
      rw [expandFrom, if_neg]
      rintro ⟨dollar, brace⟩
      exact plain dollar (by simp [brace])

theorem head_textOf (pieces : List Piece) (brace : (textOf pieces).head? = some openBrace) :
    pieces.head? = some (.literal openBrace) := by
  cases pieces with
  | nil => cases brace
  | cons piece rest =>
      cases piece with
      | literal c =>
          have same : c = openBrace := by simpa [textOf, Piece.text] using brace
          rw [same, List.head?_cons]
      | reference name =>
          have dollar : '$' = openBrace := by simpa [textOf, Piece.text] using brace
          exact absurd dollar (by decide)

theorem expandEnvVars_textOf {pieces : List Piece} (read : WellRead pieces) :
    expandEnvVars env (textOf pieces) = valueOf env pieces := by
  induction pieces with
  | nil => rfl
  | cons piece rest ih =>
      cases piece with
      | literal c =>
          have plain : c = '$' → (textOf rest).head? ≠ some openBrace :=
            fun dollar brace => read.1 dollar (head_textOf rest brace)
          exact (expandFrom_literal env plain).trans (congrArg (List.cons c) (ih read.2))
      | reference name =>
          have whole : textOf (.reference name :: rest) =
              '$' :: openBrace :: (name ++ closeBrace :: textOf rest) := by
            simp [textOf, Piece.text]
          rw [expandEnvVars, whole, expandFrom, if_pos ⟨rfl, rfl⟩,
            expandFrom_name env name [] (textOf rest) read.1, List.nil_append]
          exact congrArg _ (ih read.2)

omit env in
theorem Unterminated.after {text : Text} (open_ : Unterminated text) (first : Text) :
    Unterminated (first ++ text) := by
  obtain ⟨before, name, rfl, unclosed⟩ := open_
  exact ⟨first ++ before, name, (List.append_assoc _ _ _).symm, unclosed⟩

omit env in
theorem wellRead_of_terminated (text : Text) (terminated : ¬Unterminated text) :
    ∃ pieces, WellRead pieces ∧ textOf pieces = text := by
  match text with
  | [] => exact ⟨[], trivial, rfl⟩
  | [c] => exact ⟨[.literal c], ⟨by simp, trivial⟩, rfl⟩
  | c :: next :: rest =>
      by_cases begins : c = '$' ∧ next = openBrace
      · obtain ⟨rfl, rfl⟩ := begins
        have closed : closeBrace ∈ rest := by
          by_contra unclosed
          exact terminated ⟨[], rest, rfl, unclosed⟩
        obtain ⟨name, after, whole, inside⟩ := List.eq_append_cons_of_mem closed
        have shorter : after.length < rest.length := by
          rw [whole, List.length_append, List.length_cons]
          omega
        obtain ⟨pieces, read, same⟩ := wellRead_of_terminated after fun open_ =>
          terminated (by simpa [whole] using open_.after ('$' :: openBrace :: name ++ [closeBrace]))
        exact ⟨.reference name :: pieces, ⟨inside, read⟩,
          by simp [textOf, Piece.text, whole, ← same]⟩
      · obtain ⟨pieces, read, same⟩ := wellRead_of_terminated (next :: rest) fun open_ =>
          terminated (open_.after [c])
        refine ⟨.literal c :: pieces, ⟨fun dollar brace => ?_, read⟩, ?_⟩
        · cases pieces with
          | nil => cases brace
          | cons piece pieces =>
              obtain rfl := Option.some.inj brace
              have braced : openBrace = next := (List.cons.inj same).1
              exact begins ⟨dollar, braced.symm⟩
        · exact congrArg (List.cons c) same
  termination_by text.length
  decreasing_by all_goals simp only [List.length_cons]; omega

end Scanner

section Documents

-- `serde_yaml::from_str` and `serde_yaml::to_string`
variable (env : Text → Option Text) (fromYaml : Text → Except Text Document)
  (toYaml : Json → Except Text Text)

def extraParams : Text := "extra_params".toList

def fallbacksKey : Text := "fallbacks".toList

-- A pointer and the value that was there
abbrev Literal := Text × Json

mutual

def extract (pointer : Text) : Json → Json × List Literal
  | .object fields =>
      let inner := extractFields pointer fields
      (.object (removeKey extraParams inner.1),
        (get extraParams (.object fields)).toList.map (pointer, ·) ++ inner.2)
  | value => (value, [])

def extractFields (pointer : Text) : Fields → Fields × List Literal
  | [] => ([], [])
  | (key, value) :: rest =>
      let after := extractFields pointer rest
      match value with
      | .array items =>
          if key = fallbacksKey then
            let inner := extractItems pointer 0 items
            ((key, .array inner.1) :: after.1, inner.2 ++ after.2)
          else ((key, .array items) :: after.1, after.2)
      | value => ((key, value) :: after.1, after.2)

def extractItems (pointer : Text) (index : Nat) : List Json → List Json × List Literal
  | [] => ([], [])
  | item :: rest =>
      let inner := extract
        (pointer ++ '/' :: fallbacksKey ++ '/' :: Nat.toDigits 10 index) item
      let after := extractItems pointer (index + 1) rest
      (inner.1 :: after.1, inner.2 ++ after.2)

end

def extractModels : Fields → Fields × List Literal
  | [] => ([], [])
  | (name, model) :: rest =>
      let inner := extract ('/' :: modelsKey ++ '/' :: escapeToken name) model
      let after := extractModels rest
      ((name, inner.1) :: after.1, inner.2 ++ after.2)

def extractAll (source : Json) : Json × List Literal :=
  match source, get modelsKey source with
  | .object fields, some (.object models) =>
      let inner := extractModels models
      (.object (update modelsKey (fun _ => .object inner.1) fields), inner.2)
  | source, _ => (source, [])

def insertParams (value : Json) : Json → Option Json
  | .object fields => some (.object (upsert extraParams (fun _ => value) fields))
  | _ => none

def restore : List Literal → Json → Option Json
  | [], document => some document
  | (pointer, value) :: rest, document =>
      (pointerMut (insertParams value) (tokensOf pointer) document).bind (restore rest)

def identityChanged : Text :=
  "environment expansion changed a model's identity while restoring extra_params".toList

def expandConfigEnvVars (input : Text) : Except Text Text := do
  let source ← fromYaml input
  let taken := extractAll source.value
  if taken.2 = [] then return expandEnvVars env input
  let text ← toYaml taken.1
  let expanded ← fromYaml (expandEnvVars env text)
  match restore taken.2 expanded.value with
  | some restored => toYaml restored
  | none => throw identityChanged

def expandedText (input : Text) : Except Text Text := do
  let source ← fromYaml input
  let taken := extractAll source.value
  if taken.2 = [] then return input else toYaml taken.1

end Documents

section Extraction

/-- What stands under `extra_params` in the fallback of the fallback, and so on. -/
def extraParamsAt : List Nat → Json → Option Json
  | [], model => get extraParams model
  | index :: rest, model =>
      match get fallbacksKey model with
      | some (.array items) => items[index]?.bind (extraParamsAt rest)
      | _ => none

def fallbackTokens (indices : List Nat) : List Text :=
  indices.flatMap fun index => [fallbacksKey, Nat.toDigits 10 index]

def modelTokens (name : Text) (indices : List Nat) : List Text :=
  modelsKey :: name :: fallbackTokens indices

def literalAt (name : Text) (indices : List Nat) (source : Json) : Option Json :=
  ((get modelsKey source).bind (get name)).bind (extraParamsAt indices)

theorem extraParams_ne : extraParams ≠ fallbacksKey := by decide

theorem escapeToken_plain {token : Text} (plain : ∀ c ∈ token, c ≠ '~' ∧ c ≠ '/') :
    escapeToken token = token := by
  have same : token.flatMap tilde = token := by
    conv_rhs => rw [← List.flatMap_singleton' token]
    exact List.flatMap_congr fun c member => if_neg (plain c member).1
  rw [escapeToken, same]
  conv_rhs => rw [← List.flatMap_singleton' token]
  exact List.flatMap_congr fun c member => if_neg (plain c member).2

theorem escapeToken_digits (index : Nat) :
    escapeToken (Nat.toDigits 10 index) = Nat.toDigits 10 index := by
  refine escapeToken_plain fun c member => ?_
  have digit := Nat.isDigit_of_mem_toDigits (by decide) (by decide) member
  constructor <;> rintro rfl <;> exact absurd digit (by decide)

theorem pointerTo_fallback (index : Nat) (rest : List Nat) :
    pointerTo (fallbackTokens (index :: rest)) =
      '/' :: fallbacksKey ++ '/' :: Nat.toDigits 10 index ++ pointerTo (fallbackTokens rest) := by
  have key : escapeToken fallbacksKey = fallbacksKey := by decide
  simp [fallbackTokens, pointerTo, escapeToken_digits, key]

section Found

mutual

theorem extract_sound : ∀ (model : Json) (pointer : Text), WellKeyed model →
    ∀ literal ∈ (extract pointer model).2, ∃ indices,
      literal.1 = pointer ++ pointerTo (fallbackTokens indices) ∧
        extraParamsAt indices model = some literal.2
  | .object fields, pointer, keyed, literal, member => by
      rw [extract] at member
      rcases List.mem_append.mp member with own | inner
      · obtain ⟨value, there, rfl⟩ := List.mem_map.mp own
        exact ⟨[], by simp [fallbackTokens, pointerTo], Option.mem_toList.mp there⟩
      · obtain ⟨items, index, rest, item, found, place, same, value⟩ :=
          extractFields_sound fields pointer keyed.1 keyed.2 literal inner
        exact ⟨index :: rest, same, by simp [extraParamsAt, found, place, value]⟩
  | .null, _, _, _, member | .bool _, _, _, _, member | .number _, _, _, _, member
  | .string _, _, _, _, member | .array _, _, _, _, member => by simp [extract] at member

theorem extractFields_sound : ∀ (fields : Fields) (pointer : Text),
    (fields.map Prod.fst).Nodup → WellKeyedFields fields →
    ∀ literal ∈ (extractFields pointer fields).2, ∃ items index rest item,
      get fallbacksKey (.object fields) = some (.array items) ∧ items[index]? = some item ∧
        literal.1 = pointer ++ pointerTo (fallbackTokens (index :: rest)) ∧
          extraParamsAt rest item = some literal.2
  | [], _, _, _, _, member => by simp [extractFields] at member
  | (key, value) :: rest, pointer, unique, keyed, literal, member => by
      have later : literal ∈ (extractFields pointer rest).2 → ∃ items index more item,
          get fallbacksKey (.object ((key, value) :: rest)) = some (.array items) ∧
            items[index]? = some item ∧
              literal.1 = pointer ++ pointerTo (fallbackTokens (index :: more)) ∧
                extraParamsAt more item = some literal.2 := by
        intro member
        obtain ⟨items, index, more, item, found, place⟩ :=
          extractFields_sound rest pointer (List.nodup_cons.mp unique).2 keyed.2 literal member
        have other : key ≠ fallbacksKey := by
          rintro rfl
          have absent := get_eq_none fallbacksKey rest
          rw [found] at absent
          have := absent.mpr fun entry stored same =>
            (List.nodup_cons.mp unique).1 (List.mem_map.mpr ⟨entry, stored, same⟩)
          cases this
        exact ⟨items, index, more, item, by rw [get_cons, if_neg other, found], place⟩
      match value, keyed.1 with
      | .array items, inside =>
          rw [extractFields] at member
          split at member
          next same =>
            rcases List.mem_append.mp member with inner | after
            · obtain ⟨index, more, item, place, found, value⟩ :=
                extractItems_sound items pointer 0 inside literal inner
              rw [Nat.zero_add] at found
              exact ⟨items, index, more, item, by rw [get_cons, if_pos same], place, found, value⟩
            · exact later after
          next => exact later member
      | .object _, _ | .null, _ | .bool _, _ | .number _, _ | .string _, _ =>
          exact later (by simpa [extractFields] using member)

theorem extractItems_sound : ∀ (items : List Json) (pointer : Text) (first : Nat),
    WellKeyedItems items → ∀ literal ∈ (extractItems pointer first items).2,
    ∃ index rest item, items[index]? = some item ∧
      literal.1 = pointer ++ pointerTo (fallbackTokens ((first + index) :: rest)) ∧
        extraParamsAt rest item = some literal.2
  | [], _, _, _, _, member => by simp [extractItems] at member
  | item :: rest, pointer, first, keyed, literal, member => by
      rw [extractItems] at member
      rcases List.mem_append.mp member with inner | after
      · obtain ⟨indices, same, value⟩ := extract_sound item _ keyed.1 literal inner
        refine ⟨0, indices, item, rfl, ?_, value⟩
        rw [same, pointerTo_fallback]
        simp
      · obtain ⟨index, more, found, place, same, value⟩ :=
          extractItems_sound rest pointer (first + 1) keyed.2 literal after
        refine ⟨index + 1, more, found, place, ?_, value⟩
        rw [same, Nat.add_right_comm, Nat.add_assoc]

end

theorem extractItems_mem {items : List Json} {pointer : Text} {item : Json} {index : Nat}
    {literal : Literal} (first : Nat) (place : items[index]? = some item)
    (member : literal ∈ (extract (pointer ++ '/' :: fallbacksKey ++ '/' ::
      Nat.toDigits 10 (first + index)) item).2) :
    literal ∈ (extractItems pointer first items).2 := by
  induction items generalizing first index with
  | nil => simp at place
  | cons head rest ih =>
      rw [extractItems]
      refine List.mem_append.mpr ?_
      cases index with
      | zero =>
          obtain rfl := Option.some.inj place
          exact .inl member
      | succ index =>
          refine .inr (ih (first + 1) place ?_)
          rwa [Nat.add_right_comm, Nat.add_assoc]

theorem extractFields_mem {fields : Fields} {items : List Json} {pointer : Text}
    {literal : Literal} (found : get fallbacksKey (.object fields) = some (.array items))
    (member : literal ∈ (extractItems pointer 0 items).2) :
    literal ∈ (extractFields pointer fields).2 := by
  induction fields with
  | nil => simp [get] at found
  | cons entry rest ih =>
      obtain ⟨key, value⟩ := entry
      rw [get_cons] at found
      split at found
      next same =>
        obtain rfl := Option.some.inj found
        rw [extractFields, if_pos same]
        exact List.mem_append_left _ member
      next other =>
        have after := ih found
        cases value with
        | array inner =>
            rw [extractFields, if_neg other]
            exact after
        | object | null | bool | number | string => simpa [extractFields] using after

theorem extract_complete (indices : List Nat) (pointer : Text) {model value : Json}
    (there : extraParamsAt indices model = some value) :
    (pointer ++ pointerTo (fallbackTokens indices), value) ∈ (extract pointer model).2 := by
  induction indices generalizing pointer model with
  | nil =>
      cases model with
      | object fields =>
          refine List.mem_append_left _ (List.mem_map.mpr ⟨value, Option.mem_toList.mpr there, ?_⟩)
          simp [fallbackTokens, pointerTo]
      | null | bool | number | string | array => cases there
  | cons index rest ih =>
      rw [extraParamsAt] at there
      split at there
      next items found =>
        obtain ⟨item, place, inner⟩ := Option.bind_eq_some_iff.mp there
        cases model with
        | object fields =>
            rw [pointerTo_fallback, ← List.append_assoc, ← List.append_assoc]
            refine List.mem_append_right _ (extractFields_mem found (extractItems_mem 0 place ?_))
            rw [Nat.zero_add]
            exact ih _ inner
        | null | bool | number | string | array => cases found
      next => cases there

theorem pointerTo_model (name : Text) (indices : List Nat) :
    pointerTo (modelTokens name indices) =
      '/' :: modelsKey ++ '/' :: escapeToken name ++ pointerTo (fallbackTokens indices) := by
  have key : escapeToken modelsKey = modelsKey := by decide
  simp [modelTokens, pointerTo, key]

theorem extractModels_sound {models : Fields} (unique : (models.map Prod.fst).Nodup)
    (keyed : WellKeyedFields models) {literal : Literal}
    (member : literal ∈ (extractModels models).2) :
    ∃ name indices model, get name (.object models) = some model ∧
      literal.1 = pointerTo (modelTokens name indices) ∧
        extraParamsAt indices model = some literal.2 := by
  induction models with
  | nil => simp [extractModels] at member
  | cons entry rest ih =>
      obtain ⟨name, model⟩ := entry
      rw [List.map_cons, List.nodup_cons] at unique
      rw [extractModels] at member
      rcases List.mem_append.mp member with inner | after
      · obtain ⟨indices, same, value⟩ := extract_sound model _ keyed.1 literal inner
        refine ⟨name, indices, model, by rw [get_cons, if_pos rfl], ?_, value⟩
        rw [pointerTo_model, same]
      · obtain ⟨other, indices, model, found, place⟩ := ih unique.2 keyed.2 after
        refine ⟨other, indices, model, ?_, place⟩
        rw [get_cons, if_neg, found]
        rintro rfl
        rw [(get_eq_none _ rest).mpr fun entry stored same =>
          unique.1 (List.mem_map.mpr ⟨entry, stored, same⟩)] at found
        cases found

theorem extractModels_complete {models : Fields} {name : Text} {indices : List Nat}
    {model value : Json} (found : get name (.object models) = some model)
    (there : extraParamsAt indices model = some value) :
    (pointerTo (modelTokens name indices), value) ∈ (extractModels models).2 := by
  induction models with
  | nil => simp [get] at found
  | cons entry rest ih =>
      obtain ⟨key, first⟩ := entry
      rw [extractModels]
      rw [get_cons] at found
      split at found
      next same =>
        obtain rfl := Option.some.inj found
        have same : key = name := same
        subst same
        rw [pointerTo_model]
        exact List.mem_append_left _ (extract_complete indices _ there)
      next => exact List.mem_append_right _ (ih found)

theorem mem_extractAll (source : Document) (literal : Literal) :
    literal ∈ (extractAll source.value).2 ↔ ∃ name indices,
      literal.1 = pointerTo (modelTokens name indices) ∧
        literalAt name indices source.value = some literal.2 := by
  obtain ⟨source, keyed⟩ := source
  unfold extractAll literalAt
  split
  next fields models same found =>
    have inside : WellKeyed (.object models) := wellKeyed_get keyed found
    simp only [found, Option.bind_some]
    constructor
    · intro member
      obtain ⟨name, indices, model, there, same, value⟩ :=
        extractModels_sound inside.1 inside.2 member
      exact ⟨name, indices, same, by rw [there, Option.bind_some, value]⟩
    · rintro ⟨name, indices, same, value⟩
      obtain ⟨model, there, value⟩ := Option.bind_eq_some_iff.mp value
      obtain ⟨pointer, held⟩ := literal
      obtain rfl : pointer = _ := same
      exact extractModels_complete there value
  next missing =>
    refine ⟨fun member => (by cases member), ?_⟩
    rintro ⟨name, indices, -, value⟩
    obtain ⟨model, there, -⟩ := Option.bind_eq_some_iff.mp value
    obtain ⟨models, found, there⟩ := Option.bind_eq_some_iff.mp there
    cases models with
    | object models =>
        cases source with
        | object fields => exact absurd found (missing fields models rfl)
        | null | bool | number | string | array => cases found
    | null | bool | number | string | array => cases there

end Found

end Extraction

section Restoring

theorem fallbackTokens_inj {first second : List Nat}
    (same : fallbackTokens first = fallbackTokens second) : first = second := by
  induction first generalizing second with
  | nil =>
      cases second with
      | nil => rfl
      | cons index rest => simp [fallbackTokens] at same
  | cons index rest ih =>
      cases second with
      | nil => simp [fallbackTokens] at same
      | cons other more =>
          obtain ⟨digits, rests⟩ : Nat.toDigits 10 index = Nat.toDigits 10 other ∧
              fallbackTokens rest = fallbackTokens more := by
            simpa [fallbackTokens] using same
          rw [Text.toDigits_inj digits, ih rests]

theorem fallbackTokens_cases (first second : List Nat) (differ : first ≠ second) :
    (∃ index rest, second = first ++ index :: rest) ∨
      Apart (fallbackTokens first) (fallbackTokens second ++ [extraParams]) := by
  induction first generalizing second with
  | nil =>
      cases second with
      | nil => exact absurd rfl differ
      | cons index rest => exact .inl ⟨index, rest, rfl⟩
  | cons here first ih =>
      cases second with
      | nil => exact .inr ⟨[], fallbacksKey, extraParams, _, [], rfl, rfl, extraParams_ne.symm⟩
      | cons there second =>
          by_cases same : here = there
          · subst same
            rcases ih second (fun same => differ (by rw [same])) with ⟨index, rest, rfl⟩ | apart
            · exact .inl ⟨index, rest, rfl⟩
            · obtain ⟨common, one, other, before, after, left, right, parts⟩ := apart
              refine .inr ⟨fallbacksKey :: Nat.toDigits 10 here :: common, one, other, before,
                after, ?_, ?_, parts⟩
              · exact congrArg ([fallbacksKey, Nat.toDigits 10 here] ++ ·) left
              · exact congrArg ([fallbacksKey, Nat.toDigits 10 here] ++ ·) right
          · refine .inr ⟨[fallbacksKey], Nat.toDigits 10 here, Nat.toDigits 10 there, _, _, rfl,
              rfl, fun digits => same (Text.toDigits_inj digits)⟩

theorem modelTokens_cases (name other : Text) (first second : List Nat)
    (differ : ¬(name = other ∧ first = second)) :
    (name = other ∧ ∃ index rest, second = first ++ index :: rest) ∨
      Apart (modelTokens name first) (modelTokens other second ++ [extraParams]) := by
  by_cases same : name = other
  · subst same
    rcases fallbackTokens_cases first second (fun same => differ ⟨rfl, same⟩) with below | apart
    · exact .inl ⟨rfl, below⟩
    · obtain ⟨common, here, there, before, after, left, right, parts⟩ := apart
      refine .inr ⟨modelsKey :: name :: common, here, there, before, after, ?_, ?_, parts⟩
      · exact congrArg ([modelsKey, name] ++ ·) left
      · exact congrArg ([modelsKey, name] ++ ·) right
  · exact .inr ⟨[modelsKey], name, other, _, _, rfl, rfl, same⟩

variable {name : Text} {indices : List Nat} {value document changed : Json}

theorem insertParams_cases {old new : Json} (done : insertParams value old = some new) :
    ∃ fields, old = .object fields ∧
      new = .object (upsert extraParams (fun _ => value) fields) := by
  cases old with
  | object fields =>
      obtain rfl := Option.some.inj done
      exact ⟨fields, rfl, rfl⟩
  | null | bool | number | string | array => cases done

theorem inserted_here
    (done : pointerMut (insertParams value) (modelTokens name indices) document = some changed) :
    pointerGet (modelTokens name indices ++ [extraParams]) changed = some value := by
  obtain ⟨old, new, -, inserted, there⟩ := pointerMut_here done
  obtain ⟨fields, rfl, rfl⟩ := insertParams_cases inserted
  rw [pointerGet_append, there, Option.bind_some, pointerGet, get_upsert, if_pos rfl]
  rfl

theorem inserted_elsewhere (other : Text) (place : List Nat)
    (differ : ¬(name = other ∧ indices = place))
    (done : pointerMut (insertParams value) (modelTokens name indices) document = some changed) :
    pointerGet (modelTokens other place ++ [extraParams]) changed =
      pointerGet (modelTokens other place ++ [extraParams]) document := by
  rcases modelTokens_cases name other indices place differ with ⟨rfl, index, rest, rfl⟩ | apart
  · obtain ⟨old, new, before, inserted, after⟩ := pointerMut_here done
    obtain ⟨fields, rfl, rfl⟩ := insertParams_cases inserted
    have below : modelTokens name (indices ++ index :: rest) ++ [extraParams] =
        modelTokens name indices ++ fallbacksKey ::
          (Nat.toDigits 10 index :: fallbackTokens rest ++ [extraParams]) := by
      simp [modelTokens, fallbackTokens]
    rw [below, pointerGet_append, pointerGet_append, before, after]
    simp only [Option.bind_some, pointerGet, get_upsert, if_neg extraParams_ne]
  · exact pointerMut_apart apart done

theorem restore_cons {pointer : Text} {rest : List Literal} {result : Json}
    (restored : restore ((pointer, value) :: rest) document = some result) :
    ∃ next, pointerMut (insertParams value) (tokensOf pointer) document = some next ∧
      restore rest next = some result :=
  Option.bind_eq_some_iff.mp restored

theorem tokensOf_model (name : Text) (indices : List Nat) :
    tokensOf (pointerTo (modelTokens name indices)) = modelTokens name indices :=
  tokensOf_pointerTo _ (by simp [modelTokens])

theorem restore_kept (held : Text → List Nat → Option Json) {literals : List Literal}
    {result : Json} (sound : ∀ literal ∈ literals, ∃ name indices,
      literal.1 = pointerTo (modelTokens name indices) ∧ held name indices = some literal.2)
    (restored : restore literals document = some result) (holds : held name indices = some value)
    (there : pointerGet (modelTokens name indices ++ [extraParams]) document = some value ∨
      (pointerTo (modelTokens name indices), value) ∈ literals) :
    pointerGet (modelTokens name indices ++ [extraParams]) result = some value := by
  induction literals generalizing document with
  | nil =>
      obtain rfl := Option.some.inj restored
      exact there.resolve_right List.not_mem_nil
  | cons literal rest ih =>
      obtain ⟨pointer, first⟩ := literal
      obtain ⟨next, inserted, after⟩ := restore_cons restored
      obtain ⟨other, place, same, own⟩ := sound _ List.mem_cons_self
      obtain rfl : pointer = _ := same
      rw [tokensOf_model] at inserted
      refine ih (fun literal member => sound literal (List.mem_cons_of_mem _ member)) after ?_
      by_cases here : other = name ∧ place = indices
      · obtain ⟨rfl, rfl⟩ := here
        obtain rfl : first = value := Option.some.inj (own.symm.trans holds)
        exact .inl (inserted_here inserted)
      · rw [inserted_elsewhere name indices here inserted]
        refine there.imp_right fun member => (List.mem_cons.mp member).resolve_left fun head => ?_
        have pointers := congrArg tokensOf (congrArg Prod.fst head)
        rw [tokensOf_model, tokensOf_model] at pointers
        have names : name = other ∧ fallbackTokens indices = fallbackTokens place := by
          simpa [modelTokens] using pointers
        exact here ⟨names.1.symm, (fallbackTokens_inj names.2).symm⟩

theorem hasKey_shape (key : Text) (fields : Fields) :
    hasKey key (shapeFields fields) = hasKey key fields := by
  rw [← get_isSome, ← get_isSome, get_shape, Option.isSome_map]

theorem shapeFields_append (fields more : Fields) :
    shapeFields (fields ++ more) = shapeFields fields ++ shapeFields more := by
  induction fields with
  | nil => rfl
  | cons entry rest ih => rw [List.cons_append, shapeFields, shapeFields, ih, List.cons_append]

theorem insertParams_shape (value old : Json) :
    (insertParams value old).map shape = insertParams (shape value) (shape old) := by
  cases old with
  | object fields =>
      simp only [insertParams, shape, Option.map_some, upsert, hasKey_shape]
      split
      next => rw [shapeFields_update]
      next => rw [shapeFields_append]; rfl
  | null | bool | number | string | array => rfl

theorem restore_shape (literals : List Literal) {first second : Json}
    (same : shape first = shape second) :
    (restore literals first).map shape = (restore literals second).map shape := by
  induction literals generalizing first second with
  | nil => exact congrArg some same
  | cons literal rest ih =>
      obtain ⟨pointer, value⟩ := literal
      have inserted : (pointerMut (insertParams value) (tokensOf pointer) first).map shape =
          (pointerMut (insertParams value) (tokensOf pointer) second).map shape := by
        rw [pointerMut_shape (insertParams_shape value), same,
          ← pointerMut_shape (insertParams_shape value)]
      rw [restore, restore]
      cases left : pointerMut (insertParams value) (tokensOf pointer) first with
      | none =>
          rw [left, Option.map_none, eq_comm, Option.map_eq_none_iff] at inserted
          rw [inserted]
      | some next =>
          rw [left, Option.map_some, eq_comm, Option.map_eq_some_iff] at inserted
          obtain ⟨other, right, shapes⟩ := inserted
          rw [right]
          exact ih shapes.symm

end Restoring

section Scalars

inductive Style where
  | plain
  -- In a flow collection
  | flow
  | singleQuoted
  | doubleQuoted

def apostrophe : Char := Char.ofNat 0x27

def Style.quote : Style → Text
  | plain | flow => []
  | singleQuoted => [apostrophe]
  | doubleQuoted => ['"']

-- Printable, and no line break
def isInline (c : Char) : Bool :=
  let code := c.toNat
  32 ≤ code && code ≤ 0x7e ||
    0xa0 ≤ code && !([0x2028, 0x2029, 0xfeff, 0xfffe, 0xffff].contains code)

def indicators : List Char :=
  [',', '[', ']', openBrace, closeBrace, '#', '&', '*', '!', '|', '>', apostrophe, '"', '%', '@',
    Char.ofNat 0x60]

def plainRest : Text → Bool
  | [] => true
  | [c] => c != ':' && c != ' '
  | c :: next :: rest =>
      !(c == ':' && next == ' ') && !(c == ' ' && next == '#') && plainRest (next :: rest)

def documentMarks : List Text := ["---".toList, "...".toList]

def isPlain : Text → Bool
  | [] => true
  | c :: rest =>
      (if ['-', '?', ':'].contains c then rest.head?.any (· != ' ')
        else c != ' ' && !indicators.contains c) && plainRest (c :: rest) &&
        !documentMarks.contains ((c :: rest).take 3)

def flowIndicators : List Char := [',', '[', ']', openBrace, closeBrace, '?', ':']

def isSingleQuoted : Text → Bool
  | [] => true
  | [c] => c != apostrophe
  | c :: next :: rest =>
      if c = apostrophe then next == apostrophe && isSingleQuoted rest
      else isSingleQuoted (next :: rest)

-- Of one character
def escapes : List Char :=
  ['0', 'a', 'b', 't', 'n', 'v', 'f', 'r', 'e', ' ', '"', '/', '\\', 'N', '_', 'L', 'P']

def isDoubleQuoted : Text → Bool
  | [] => true
  | [c] => c != '"' && c != '\\'
  | c :: next :: rest =>
      if c = '\\' then escapes.contains next && isDoubleQuoted rest
      else c != '"' && isDoubleQuoted (next :: rest)

/-- The text is the content of a scalar, on one line. -/
def Style.holds (style : Style) (content : Text) : Bool :=
  content.all isInline && match style with
    | plain => isPlain content
    | flow => isPlain content && content.all fun c => !flowIndicators.contains c
    | singleQuoted => isSingleQuoted content
    | doubleQuoted => isDoubleQuoted content

inductive Part (C : Type) where
  | yaml (text : Text)
  | scalar (style : Style) (content : C)

variable {C D : Type}

def Part.fill (content : C → D) : Part C → Part D
  | yaml text => yaml text
  | scalar style inner => scalar style (content inner)

def Part.write : Part Text → Text
  | yaml text => text
  | scalar style content => style.quote ++ content ++ style.quote

def written (parts : List (Part Text)) : Text := parts.flatMap Part.write

def Part.valid : Part Text → Bool
  | yaml _ => true
  | scalar style content => style.holds content

def layout (parts : List (Part C)) : List (Part Unit) := parts.map (Part.fill fun _ => ())

-- The scanner of the library: the scalars of a document, and what stands between them
variable (scan : Text → Except Text (List (Part Text)))

/-- A scalar ends where its content does, so that another one can stand in its place. -/
structure ScansScalars : Prop where
  whole : ∀ text parts, scan text = .ok parts → written parts = text
  replaced : ∀ text before style content after,
    scan text = .ok (before ++ .scalar style content :: after) →
    ∀ other, style.holds other →
      scan (written (before ++ .scalar style other :: after)) =
        .ok (before ++ .scalar style other :: after)

/-- The scalars are the leaves of a document. -/
def ScalarsAreLeaves (fromYaml : Text → Except Text Document) : Prop :=
  ∀ text text' parts parts', scan text = .ok parts → scan text' = .ok parts' →
    layout parts = layout parts' →
    ∀ document document', fromYaml text = .ok document → fromYaml text' = .ok document' →
      shape document.value = shape document'.value

variable {scan} in
theorem ScansScalars.refill (scans : ScansScalars scan) {parts parts' : List (Part Text)}
    (before : List (Part Text)) (read : scan (written (before ++ parts)) = .ok (before ++ parts))
    (same : layout parts' = layout parts) (valid : ∀ part ∈ parts', part.valid) :
    scan (written (before ++ parts')) = .ok (before ++ parts') := by
  induction parts generalizing before parts' with
  | nil =>
      obtain rfl : parts' = [] := by simpa [layout] using same
      exact read
  | cons part rest ih =>
      cases parts' with
      | nil => simp [layout] at same
      | cons part' rest' =>
          have first := (List.cons.inj same).1
          have tail : layout rest' = layout rest := (List.cons.inj same).2
          have later : ∀ part ∈ rest', part.valid :=
            fun part member => valid part (List.mem_cons_of_mem _ member)
          have once : scan (written (before ++ part' :: rest)) = .ok (before ++ part' :: rest) := by
            cases part with
            | yaml text =>
                cases part' with
                | yaml other =>
                    obtain rfl : other = text := by simpa [Part.fill] using first
                    exact read
                | scalar style content => cases first
            | scalar style content =>
                cases part' with
                | yaml other => cases first
                | scalar style' other =>
                    obtain rfl : style' = style := by simpa [Part.fill] using first
                    exact scans.replaced _ before _ content rest read other
                      (valid (.scalar _ other) List.mem_cons_self)
          have moved := ih (before ++ [part']) (by simpa using once) tail later
          simpa using moved

def Part.pieces : Part (List Piece) → List Piece
  | yaml text => text.map .literal
  | scalar style content =>
      style.quote.map .literal ++ content ++ style.quote.map .literal

theorem layout_fill (content : C → D) (parts : List (Part C)) :
    layout (parts.map (Part.fill content)) = layout parts := by
  rw [layout, layout, List.map_map]
  refine List.map_congr_left fun part _ => ?_
  cases part <;> rfl

theorem textOf_literals (text : Text) : textOf (text.map .literal) = text := by
  simp [textOf, List.flatMap_map, Piece.text]

theorem valueOf_literals (env : Text → Option Text) (text : Text) :
    valueOf env (text.map .literal) = text := by
  simp [valueOf, List.flatMap_map, Piece.value]

theorem expandEnvVars_written (env : Text → Option Text) {parts : List (Part (List Piece))}
    (read : WellRead (parts.flatMap Part.pieces)) :
    expandEnvVars env (written (parts.map (Part.fill textOf))) =
      written (parts.map (Part.fill (valueOf env))) := by
  have before : written (parts.map (Part.fill textOf)) = textOf (parts.flatMap Part.pieces) := by
    rw [written, textOf, List.flatMap_map, List.flatMap_assoc]
    refine List.flatMap_congr fun part _ => ?_
    cases part with
    | yaml text => exact (textOf_literals text).symm
    | scalar style content =>
        change _ = textOf (_ ++ content ++ _)
        rw [textOf, List.flatMap_append, List.flatMap_append]
        exact congrArg₂ (· ++ _ ++ ·) (textOf_literals _).symm (textOf_literals _).symm
  have after : written (parts.map (Part.fill (valueOf env))) =
      valueOf env (parts.flatMap Part.pieces) := by
    rw [written, valueOf, List.flatMap_map, List.flatMap_assoc]
    refine List.flatMap_congr fun part _ => ?_
    cases part with
    | yaml text => exact (valueOf_literals env text).symm
    | scalar style content =>
        change _ = valueOf env (_ ++ content ++ _)
        rw [valueOf, List.flatMap_append, List.flatMap_append]
        exact congrArg₂ (· ++ _ ++ ·) (valueOf_literals env _).symm (valueOf_literals env _).symm
  rw [before, after, expandEnvVars_textOf env read]

end Scalars

section Loaded

variable {fromYaml : Text → Except Text Document} {toYaml : Json → Except Text Text}
  {scan : Text → Except Text (List (Part Text))}

theorem expandConfigEnvVars_cases {env : Text → Option Text} {input out : Text}
    (done : expandConfigEnvVars env fromYaml toYaml input = .ok out) :
    ∃ source, fromYaml input = .ok source ∧
      (((extractAll source.value).2 = [] ∧ expandedText fromYaml toYaml input = .ok input ∧
          out = expandEnvVars env input) ∨
        (extractAll source.value).2 ≠ [] ∧
          ∃ text expanded restored, expandedText fromYaml toYaml input = .ok text ∧
            fromYaml (expandEnvVars env text) = .ok expanded ∧
            restore (extractAll source.value).2 expanded.value = some restored ∧
            toYaml restored = .ok out) := by
  unfold expandConfigEnvVars at done
  unfold expandedText
  cases read : fromYaml input with
  | error text => rw [read] at done; cases done
  | ok source =>
      rw [read] at done
      refine ⟨source, rfl, ?_⟩
      change (if (extractAll source.value).2 = [] then _ else _) = _ at done
      change (_ ∧ (if (extractAll source.value).2 = [] then _ else _) = _ ∧ _) ∨
        _ ∧ ∃ text expanded restored, (if (extractAll source.value).2 = [] then _ else _) = _ ∧ _
      split at done
      next none =>
        exact .inl ⟨none, if_pos none, (Except.ok.inj done).symm⟩
      next some_ =>
        cases wrote : toYaml (extractAll source.value).1 with
        | error => rw [wrote] at done; cases done
        | ok text =>
            rw [wrote] at done
            change (fromYaml (expandEnvVars env text)).bind _ = _ at done
            cases reread : fromYaml (expandEnvVars env text) with
            | error => rw [reread] at done; cases done
            | ok expanded =>
                rw [reread] at done
                change (match restore (extractAll source.value).2 expanded.value with
                  | some restored => toYaml restored
                  | none => throw identityChanged) = _ at done
                cases put : restore (extractAll source.value).2 expanded.value with
                | none => rw [put] at done; cases done
                | some restored =>
                    rw [put] at done
                    exact .inr ⟨some_, text, expanded, restored, if_neg some_, reread, put, done⟩

/-- What `to_string` writes, `from_str` reads. -/
def ReadsBack (fromYaml : Text → Except Text Document) (toYaml : Json → Except Text Text) : Prop :=
  ∀ value text, toYaml value = .ok text →
    ∃ document, fromYaml text = .ok document ∧ document.value = value

theorem literal_kept (readsBack : ReadsBack fromYaml toYaml) {env : Text → Option Text}
    {input out : Text} {source : Document} (read : fromYaml input = .ok source)
    (done : expandConfigEnvVars env fromYaml toYaml input = .ok out) {name : Text}
    {indices : List Nat} {value : Json} (there : literalAt name indices source.value = some value) :
    ∃ loaded, fromYaml out = .ok loaded ∧
      pointerGet (modelTokens name indices ++ [extraParams]) loaded.value = some value := by
  have member := (mem_extractAll source (_, value)).mpr ⟨name, indices, rfl, there⟩
  obtain ⟨same, reread, taken⟩ := expandConfigEnvVars_cases done
  obtain rfl := Except.ok.inj (read.symm.trans reread)
  rcases taken with ⟨none, -, -⟩ | ⟨-, text, expanded, restored, -, -, put, wrote⟩
  · rw [none] at member
    cases member
  · obtain ⟨loaded, read, rfl⟩ := readsBack _ _ wrote
    exact ⟨loaded, read, restore_kept (literalAt · · source.value)
      (fun literal member => (mem_extractAll source literal).mp member) put there (.inr member)⟩

theorem loaded_shape (readsBack : ReadsBack fromYaml toYaml) (scans : ScansScalars scan)
    (leaves : ScalarsAreLeaves scan fromYaml) {parts : List (Part (List Piece))}
    (read : WellRead (parts.flatMap Part.pieces)) {input text : Text}
    (same : expandedText fromYaml toYaml input = .ok text)
    (inside : scan text = .ok (parts.map (Part.fill textOf))) {env env' : Text → Option Text}
    (valid : ∀ part ∈ parts.map (Part.fill (valueOf env)), part.valid)
    (valid' : ∀ part ∈ parts.map (Part.fill (valueOf env')), part.valid) {out out' : Text}
    (done : expandConfigEnvVars env fromYaml toYaml input = .ok out)
    (done' : expandConfigEnvVars env' fromYaml toYaml input = .ok out')
    {loaded loaded' : Document} (load : fromYaml out = .ok loaded)
    (load' : fromYaml out' = .ok loaded') : shape loaded.value = shape loaded'.value := by
  obtain rfl := scans.whole _ _ inside
  have expands (env : Text → Option Text)
      (valid : ∀ part ∈ parts.map (Part.fill (valueOf env)), part.valid) :
      scan (expandEnvVars env (written (parts.map (Part.fill textOf)))) =
        .ok (parts.map (Part.fill (valueOf env))) := by
    rw [expandEnvVars_written env read]
    exact scans.refill [] inside ((layout_fill _ _).trans (layout_fill _ _).symm) valid
  have shapes {first second : Document}
      (one : fromYaml (expandEnvVars env (written (parts.map (Part.fill textOf)))) = .ok first)
      (two : fromYaml (expandEnvVars env' (written (parts.map (Part.fill textOf)))) = .ok second) :
      shape first.value = shape second.value :=
    leaves _ _ _ _ (expands env valid) (expands env' valid')
      ((layout_fill _ _).trans (layout_fill _ _).symm) _ _ one two
  obtain ⟨source, from_, taken⟩ := expandConfigEnvVars_cases done
  obtain ⟨source', from', taken'⟩ := expandConfigEnvVars_cases done'
  obtain rfl := Except.ok.inj (from_.symm.trans from')
  rcases taken with ⟨none, text, rfl⟩ | ⟨some_, _, _, _, text, parsed, put, wrote⟩
  · rcases taken' with ⟨-, -, rfl⟩ | ⟨some_, -⟩
    · obtain rfl := Except.ok.inj (text.symm.trans same)
      exact shapes load load'
    · exact absurd none some_
  · rcases taken' with ⟨none, -, -⟩ | ⟨-, _, _, _, text', parsed', put', wrote'⟩
    · exact absurd none some_
    · obtain rfl := Except.ok.inj (text.symm.trans same)
      obtain rfl := Except.ok.inj (text'.symm.trans same)
      obtain ⟨final, reread, rfl⟩ := readsBack _ _ wrote
      obtain ⟨final', reread', rfl⟩ := readsBack _ _ wrote'
      obtain rfl := Except.ok.inj (load.symm.trans reread)
      obtain rfl := Except.ok.inj (load'.symm.trans reread')
      have both := restore_shape (extractAll source.value).2 (shapes parsed parsed')
      rw [put, put'] at both
      exact Option.some.inj both

end Loaded

section Flat

def keyValue : Text → Option (Text × Json)
  | [] => none
  | [_] => none
  | c :: next :: rest =>
      if c = ':' ∧ next = ' ' then some ([], .string rest)
      else (keyValue (next :: rest)).map fun entry => (c :: entry.1, entry.2)

theorem keyValue_wellKeyed {line : Text} {entry : Text × Json}
    (read : keyValue line = some entry) : WellKeyed entry.2 := by
  induction line using keyValue.induct generalizing entry with
  | case1 | case2 => cases read
  | case3 c next rest colon =>
      rw [keyValue, if_pos colon] at read
      obtain rfl := Option.some.inj read
      trivial
  | case4 c next rest other ih =>
      rw [keyValue, if_neg other] at read
      obtain ⟨inner, found, rfl⟩ := Option.map_eq_some_iff.mp read
      have inside : WellKeyed inner.2 := ih found
      exact inside

-- A mapping of keys to strings, one a line
def flatYaml (text : Text) : Except Text Document :=
  let entries := (text.splitOn '\n').filterMap keyValue
  if unique : (entries.map Prod.fst).Nodup then
    .ok ⟨.object entries, (wellKeyed_object entries).mpr ⟨unique, fun entry member => by
      obtain ⟨line, -, read⟩ := List.mem_filterMap.mp member
      exact keyValue_wellKeyed read⟩⟩
  else .error []

-- `a`, with the value of `X`
def oneReference : List (Part (List Piece)) :=
  [.yaml ['a', ':', ' '], .scalar .plain [.reference ['X']]]

def valueX (value : Text) : Text → Option Text :=
  fun name => if name = ['X'] then some value else none

end Flat

section OneModel

def head : Text := "models:\n  m:\n    x: ".toList

def middle : Text := "\n    extra_params: ".toList

def modelFields (x : Text) (params : Option Text) : Fields :=
  (['x'], .string x) :: params.toList.map fun params => (extraParams, .string params)

def modelDocument (x : Text) (params : Option Text) : Document where
  value := .object [(modelsKey, .object [(['m'], .object (modelFields x params))])]
  wellKeyed := by
    have keys : extraParams ≠ ['x'] := by decide
    cases params <;> simp [modelFields, WellKeyed, WellKeyedFields, keys.symm]

def modelText (x : Text) : Option Text → Text
  | none => head ++ (x ++ ['\n'])
  | some params => head ++ (x ++ (middle ++ (params ++ ['\n'])))

-- One model with a field and parameters, all strings on one line
def readModel (text : Text) : Except Text Document :=
  match stripPrefix head text with
  | none => .error []
  | some rest =>
      let x := rest.takeWhile (· ≠ '\n')
      let after := rest.dropWhile (· ≠ '\n')
      if after = ['\n'] then .ok (modelDocument x none)
      else match stripPrefix middle after with
        | none => .error []
        | some rest =>
            if rest.dropWhile (· ≠ '\n') = ['\n'] then
              .ok (modelDocument x (some (rest.takeWhile (· ≠ '\n'))))
            else .error []

def writeModel : Json → Except Text Text
  | .object [(models, .object [(name, .object ((field, .string x) :: rest))])] =>
      if models = modelsKey ∧ name = ['m'] ∧ field = ['x'] ∧ '\n' ∉ x then
        match rest with
        | [] => .ok (modelText x none)
        | [(extra, .string params)] =>
            if extra = extraParams ∧ '\n' ∉ params then .ok (modelText x (some params))
            else .error []
        | _ => .error []
      else .error []
  | _ => .error []

theorem line_append {line : Text} (inline : '\n' ∉ line) (rest : Text) :
    (line ++ '\n' :: rest).takeWhile (· ≠ '\n') = line ∧
      (line ++ '\n' :: rest).dropWhile (· ≠ '\n') = '\n' :: rest := by
  have solid : ∀ c ∈ line, decide (c ≠ '\n') = true := fun c member => by
    simpa using fun same : c = '\n' => inline (same ▸ member)
  rw [List.takeWhile_append_of_pos solid, List.dropWhile_append_of_pos solid]
  simp

theorem readModel_text {x : Text} (inline : '\n' ∉ x) (params : Option Text)
    (inside : ∀ held ∈ params, '\n' ∉ held) :
    readModel (modelText x params) = .ok (modelDocument x params) := by
  cases params with
  | none =>
      have line := line_append inline []
      simp only [readModel, modelText, stripPrefix_append, line, if_true]
  | some params =>
      have starts : middle = '\n' :: middle.tail := by
        unfold middle
        rw [String.toList_ofList]
        rfl
      have line := line_append inline (middle.tail ++ (params ++ ['\n']))
      rw [← List.cons_append, ← starts] at line
      have last := line_append (inside params rfl) []
      have more : middle ++ (params ++ ['\n']) ≠ ['\n'] := by
        intro same
        have lengths := congrArg List.length same
        rw [starts] at lengths
        simp at lengths
      simp only [readModel, modelText, stripPrefix_append, line, if_neg more, last, if_true]

theorem writeModel_readsBack : ReadsBack readModel writeModel := by
  intro value text wrote
  unfold writeModel at wrote
  split at wrote
  next models name field x rest =>
    split at wrote
    next same =>
      obtain ⟨rfl, rfl, rfl, inline⟩ := same
      split at wrote
      next =>
        obtain rfl := Except.ok.inj wrote
        exact ⟨_, readModel_text inline none (by simp), rfl⟩
      next extra params =>
        split at wrote
        next same =>
          obtain ⟨rfl, inside⟩ := same
          obtain rfl := Except.ok.inj wrote
          exact ⟨_, readModel_text inline (some params) (by simpa using inside), rfl⟩
        next => cases wrote
      next => cases wrote
    next => cases wrote
  next => cases wrote

-- The field of the model is a reference, and its parameters look like one.
def referring : List (Part (List Piece)) :=
  [.yaml head, .scalar .plain [.reference ['X']], .yaml ['\n']]

def scanModel (text : Text) : Except Text (List (Part Text)) :=
  match stripPrefix head text with
  | none => .error []
  | some rest =>
      let x := rest.takeWhile (· ≠ '\n')
      let after := rest.dropWhile (· ≠ '\n')
      if Style.plain.holds x ∧ after ≠ [] then
        .ok [.yaml head, .scalar .plain x, .yaml after]
      else .error []

theorem not_mem_of_holds {style : Style} {content : Text} (holds : style.holds content) :
    '\n' ∉ content := fun member =>
  absurd (List.all_eq_true.mp (Bool.and_eq_true_iff.mp holds).1 '\n' member) (by decide)

theorem scanModel_ok {text : Text} {parts : List (Part Text)} (read : scanModel text = .ok parts) :
    ∃ x rest, Style.plain.holds x ∧ text = head ++ (x ++ '\n' :: rest) ∧
      parts = [.yaml head, .scalar .plain x, .yaml ('\n' :: rest)] := by
  unfold scanModel at read
  split at read
  next => cases read
  next rest found =>
    simp only at read
    split at read
    next both =>
      obtain ⟨holds, some_⟩ := both
      obtain rfl := Except.ok.inj read
      obtain ⟨c, after, parts⟩ := List.exists_cons_of_ne_nil some_
      have line : c = '\n' := by
        have first := List.head_dropWhile_not (· ≠ '\n') some_
        simp only [parts, List.head_cons] at first
        simpa using first
      subst line
      refine ⟨_, after, holds, ?_, by rw [parts]⟩
      rw [(stripPrefix_eq_some _ _ _).mp found, ← parts, List.takeWhile_append_dropWhile]
    next => cases read

theorem scanModel_line {x : Text} (holds : Style.plain.holds x) (rest : Text) :
    scanModel (head ++ (x ++ '\n' :: rest)) =
      .ok [.yaml head, .scalar .plain x, .yaml ('\n' :: rest)] := by
  have line := line_append (not_mem_of_holds holds) rest
  simp only [scanModel, stripPrefix_append, line]
  exact if_pos ⟨holds, List.cons_ne_nil _ _⟩

theorem scanModel_scans : ScansScalars scanModel where
  whole text parts read := by
    obtain ⟨x, rest, -, rfl, rfl⟩ := scanModel_ok read
    simp [written, Part.write, Style.quote]
  replaced text before style content after read other holds := by
    obtain ⟨x, rest, -, rfl, same⟩ := scanModel_ok read
    have place : before = [.yaml head] ∧ style = .plain ∧ after = [.yaml ('\n' :: rest)] := by
      match before, same with
      | [], same => cases same
      | [first], same => simp_all
      | [first, second], same => simp at same
      | first :: second :: third :: more, same => simp at same
    obtain ⟨rfl, rfl, rfl⟩ := place
    have text : written ([.yaml head] ++ .scalar .plain other :: [.yaml ('\n' :: rest)]) =
        head ++ (other ++ '\n' :: rest) := by
      simp [written, Part.write, Style.quote]
    rw [text]
    exact scanModel_line holds rest

theorem scanModel_leaves : ScalarsAreLeaves scanModel readModel := by
  intro text text' parts parts' read read' same document document' load load'
  obtain ⟨x, rest, holds, rfl, rfl⟩ := scanModel_ok read
  obtain ⟨x', rest', holds', rfl, rfl⟩ := scanModel_ok read'
  obtain rfl : rest = rest' := by simpa [layout, Part.fill] using same
  have line := line_append (not_mem_of_holds holds) rest
  have line' := line_append (not_mem_of_holds holds') rest
  simp only [readModel, stripPrefix_append, line] at load
  simp only [readModel, stripPrefix_append, line'] at load'
  split at load
  next last =>
    rw [if_pos last] at load'
    obtain rfl := Except.ok.inj load
    obtain rfl := Except.ok.inj load'
    rfl
  next more =>
    rw [if_neg more] at load'
    split at load
    next => cases load
    next params found =>
      simp only [found] at load'
      split at load
      next ends =>
        rw [if_pos ends] at load'
        obtain rfl := Except.ok.inj load
        obtain rfl := Except.ok.inj load'
        rfl
      next => cases load

def referringText : Text :=
  modelText (Piece.reference ['X']).text (some (Piece.reference ['X']).text)

end OneModel

end Frona.Config
