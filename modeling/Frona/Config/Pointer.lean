import Frona.Config.Merge
import Frona.Pkm.PathSpec

set_option autoImplicit false

namespace Frona.Config

open Utf8 (Text)
open Frona.Chat (Json)
open Frona.Pkm (splitSlash splitSlash_append splitSlash_solid)

section Tokens

def tilde (c : Char) : Text := if c = '~' then ['~', '0'] else [c]

def slash (c : Char) : Text := if c = '/' then ['~', '1'] else [c]

/-- `replace('~', "~0").replace('/', "~1")` -/
def escapeToken (name : Text) : Text := (name.flatMap tilde).flatMap slash

def replaceTilde (digit other : Char) : Text → Text
  | [] => []
  | [c] => [c]
  | c :: d :: rest =>
      if c = '~' ∧ d = digit then other :: replaceTilde digit other rest
      else c :: replaceTilde digit other (d :: rest)

def unescapeToken (token : Text) : Text := replaceTilde '0' '~' (replaceTilde '1' '/' token)

def tokensOf (pointer : Text) : List Text := (splitSlash pointer).tail.map unescapeToken

def pointerTo (tokens : List Text) : Text := tokens.flatMap fun token => '/' :: escapeToken token

theorem replaceTilde_other {digit other c : Char} (rest : Text) (plain : c ≠ '~') :
    replaceTilde digit other (c :: rest) = c :: replaceTilde digit other rest := by
  cases rest with
  | nil => rfl
  | cons d rest => rw [replaceTilde, if_neg (fun both => plain both.1)]

theorem replaceTilde_slash (name : Text) :
    replaceTilde '1' '/' (escapeToken name) = name.flatMap tilde := by
  induction name with
  | nil => rfl
  | cons c rest ih =>
      have whole : escapeToken (c :: rest) = (tilde c).flatMap slash ++ escapeToken rest := by
        simp [escapeToken, List.flatMap_append]
      rw [whole, List.flatMap_cons]
      by_cases isTilde : c = '~'
      · subst isTilde
        change replaceTilde '1' '/' ('~' :: '0' :: escapeToken rest) = '~' :: '0' :: _
        rw [replaceTilde, if_neg (by decide), replaceTilde_other _ (by decide), ih]
        rfl
      · by_cases isSlash : c = '/'
        · subst isSlash
          change replaceTilde '1' '/' ('~' :: '1' :: escapeToken rest) = '/' :: _
          rw [replaceTilde, if_pos ⟨rfl, rfl⟩, ih]
          rfl
        · have plain : tilde c = [c] := if_neg isTilde
          have same : [c].flatMap slash = [c] := by simp [slash, isSlash]
          rw [plain, same, List.singleton_append, replaceTilde_other _ isTilde, ih]
          rfl

theorem replaceTilde_tilde (name : Text) : replaceTilde '0' '~' (name.flatMap tilde) = name := by
  induction name with
  | nil => rfl
  | cons c rest ih =>
      rw [List.flatMap_cons, tilde]
      split
      next isTilde =>
        subst isTilde
        change replaceTilde '0' '~' ('~' :: '0' :: rest.flatMap tilde) = _
        rw [replaceTilde, if_pos ⟨rfl, rfl⟩, ih]
      next isTilde => rw [List.singleton_append, replaceTilde_other _ isTilde, ih]

theorem unescape_escape (name : Text) : unescapeToken (escapeToken name) = name := by
  rw [unescapeToken, replaceTilde_slash, replaceTilde_tilde]

theorem escapeToken_solid (name : Text) : '/' ∉ escapeToken name := by
  simp only [escapeToken, List.mem_flatMap, not_exists, not_and]
  intro c _
  unfold slash
  split
  next => decide
  next other => simpa using Ne.symm other

theorem tokensOf_pointerTo (tokens : List Text) (some_ : tokens ≠ []) :
    tokensOf (pointerTo tokens) = tokens := by
  have split (token : Text) (rest : List Text) :
      splitSlash (escapeToken token ++ pointerTo rest) =
        (token :: rest).map escapeToken := by
    induction rest generalizing token with
    | nil => simpa [pointerTo] using splitSlash_solid _ (escapeToken_solid token)
    | cons next rest ih =>
        change splitSlash (escapeToken token ++ '/' :: (escapeToken next ++ pointerTo rest)) = _
        rw [splitSlash_append _ _ (escapeToken_solid token), ih, List.map_cons]
        rfl
  cases tokens with
  | nil => exact absurd rfl some_
  | cons token rest =>
      have whole : splitSlash (pointerTo (token :: rest)) =
          [] :: (token :: rest).map escapeToken :=
        congrArg (List.cons []) (split token rest)
      rw [tokensOf, whole, List.tail_cons, List.map_map]
      conv_rhs => rw [← List.map_id (token :: rest)]
      exact List.map_congr_left fun token _ => unescape_escape token

end Tokens

section Places

def parseIndex (token : Text) : Option Nat :=
  let index := Nat.ofDigitChars 10 token 0
  if Nat.toDigits 10 index = token ∧ index < 2 ^ 64 then some index else none

theorem parseIndex_inj {first second : Text} {index : Nat} (left : parseIndex first = some index)
    (right : parseIndex second = some index) : first = second := by
  have written {token : Text} (parsed : parseIndex token = some index) :
      Nat.toDigits 10 index = token := by
    unfold parseIndex at parsed
    dsimp only at parsed
    split at parsed
    next canonical =>
      obtain rfl := Option.some.inj parsed
      exact canonical.1
    next => cases parsed
  rw [← written left, ← written right]

/-- `pointer` -/
def pointerGet : List Text → Json → Option Json
  | [], value => some value
  | token :: rest, .object fields => (get token (.object fields)).bind (pointerGet rest)
  | token :: rest, .array items =>
      (parseIndex token).bind fun index => items[index]?.bind (pointerGet rest)
  | _ :: _, _ => none

/-- `pointer_mut`, and a change there that may not be possible. -/
def pointerMut (change : Json → Option Json) : List Text → Json → Option Json
  | [], value => change value
  | token :: rest, .object fields =>
      (get token (.object fields)).bind fun old =>
        (pointerMut change rest old).map fun new => .object (update token (fun _ => new) fields)
  | token :: rest, .array items =>
      (parseIndex token).bind fun index => items[index]?.bind fun old =>
        (pointerMut change rest old).map fun new => .array (items.set index new)
  | _ :: _, _ => none

theorem pointerGet_append (path rest : List Text) (value : Json) :
    pointerGet (path ++ rest) value = (pointerGet path value).bind (pointerGet rest) := by
  induction path generalizing value with
  | nil => rfl
  | cons token path ih =>
      cases value with
      | object fields =>
          simp only [List.cons_append, pointerGet, Option.bind_assoc]
          exact Option.bind_congr fun child _ => ih child
      | array items =>
          simp only [List.cons_append, pointerGet, Option.bind_assoc]
          exact Option.bind_congr fun index _ => Option.bind_congr fun child _ => ih child
      | null | bool | number | string => rfl

variable {change : Json → Option Json}

theorem pointerMut_cons {token : Text} {path : List Text} {value changed : Json}
    (done : pointerMut change (token :: path) value = some changed) :
    (∃ fields old new, value = .object fields ∧ get token (.object fields) = some old ∧
      pointerMut change path old = some new ∧
      changed = .object (update token (fun _ => new) fields)) ∨
    ∃ items index old new, value = .array items ∧ parseIndex token = some index ∧
      items[index]? = some old ∧ pointerMut change path old = some new ∧
      changed = .array (items.set index new) := by
  cases value with
  | object fields =>
      obtain ⟨old, found, done⟩ := Option.bind_eq_some_iff.mp done
      obtain ⟨new, made, rfl⟩ := Option.map_eq_some_iff.mp done
      exact .inl ⟨fields, old, new, rfl, found, made, rfl⟩
  | array items =>
      obtain ⟨index, parsed, done⟩ := Option.bind_eq_some_iff.mp done
      obtain ⟨old, found, done⟩ := Option.bind_eq_some_iff.mp done
      obtain ⟨new, made, rfl⟩ := Option.map_eq_some_iff.mp done
      exact .inr ⟨items, index, old, new, rfl, parsed, found, made, rfl⟩
  | null | bool | number | string => cases done

theorem pointerMut_here {path : List Text} {value changed : Json}
    (done : pointerMut change path value = some changed) :
    ∃ old new, pointerGet path value = some old ∧ change old = some new ∧
      pointerGet path changed = some new := by
  induction path generalizing value changed with
  | nil => exact ⟨value, changed, rfl, done, rfl⟩
  | cons token path ih =>
      rcases pointerMut_cons done with ⟨fields, old, new, rfl, found, made, rfl⟩ |
        ⟨items, index, old, new, rfl, parsed, found, made, rfl⟩
      · obtain ⟨first, last, before, changes, after⟩ := ih made
        refine ⟨first, last, by simp [pointerGet, found, before], changes, ?_⟩
        rw [pointerGet, get_update, if_pos rfl, found]
        exact after
      · obtain ⟨first, last, before, changes, after⟩ := ih made
        refine ⟨first, last, by simp [pointerGet, parsed, found, before], changes, ?_⟩
        have within := (List.getElem?_eq_some_iff.mp found).1
        rw [pointerGet, parsed, Option.bind_some, List.getElem?_set_self within]
        exact after

/-- Two pointers that part. -/
def Apart (first second : List Text) : Prop :=
  ∃ common here there before after, first = common ++ here :: before ∧
    second = common ++ there :: after ∧ here ≠ there

theorem pointerMut_apart {path other : List Text} {value changed : Json}
    (apart : Apart path other) (done : pointerMut change path value = some changed) :
    pointerGet other changed = pointerGet other value := by
  obtain ⟨common, here, there, before, after, rfl, rfl, differs⟩ := apart
  induction common generalizing value changed with
  | nil =>
      rcases pointerMut_cons done with ⟨fields, old, new, rfl, found, made, rfl⟩ |
        ⟨items, index, old, new, rfl, parsed, found, made, rfl⟩
      · simp only [List.nil_append, pointerGet, get_update, if_neg differs]
      · simp only [List.nil_append, pointerGet]
        refine Option.bind_congr fun place elsewhere => ?_
        have moved : index ≠ place := by
          rintro rfl
          exact differs (parseIndex_inj parsed elsewhere)
        rw [List.getElem?_set_ne moved]
  | cons token common ih =>
      rcases pointerMut_cons done with ⟨fields, old, new, rfl, found, made, rfl⟩ |
        ⟨items, index, old, new, rfl, parsed, found, made, rfl⟩
      · simp only [List.cons_append, pointerGet, get_update, if_true, found]
        exact ih made
      · have within := (List.getElem?_eq_some_iff.mp found).1
        simp only [List.cons_append, pointerGet, parsed, Option.bind_some, found,
          List.getElem?_set_self within]
        exact ih made

end Places

section Shapes

mutual

def shape : Json → Json
  | .object fields => .object (shapeFields fields)
  | .array items => .array (shapeItems items)
  | _ => .null

def shapeFields : Fields → Fields
  | [] => []
  | (key, value) :: rest => (key, shape value) :: shapeFields rest

def shapeItems : List Json → List Json
  | [] => []
  | item :: rest => shape item :: shapeItems rest

end

theorem shapeItems_eq (items : List Json) : shapeItems items = items.map shape := by
  induction items with
  | nil => rfl
  | cons item rest ih => rw [shapeItems, ih, List.map_cons]

theorem get_shape (key : Text) (fields : Fields) :
    get key (.object (shapeFields fields)) = (get key (.object fields)).map shape := by
  induction fields with
  | nil => rfl
  | cons entry rest ih =>
      rw [shapeFields, get_cons, get_cons, ih]
      split <;> rfl

theorem shapeFields_update (key : Text) (new : Json) (fields : Fields) :
    shapeFields (update key (fun _ => new) fields) =
      update key (fun _ => shape new) (shapeFields fields) := by
  induction fields with
  | nil => rfl
  | cons entry rest ih =>
      obtain ⟨name, value⟩ := entry
      simp only [update, List.map_cons, shapeFields] at ih ⊢
      split <;> simp [ih]

theorem pointerMut_shape {change change' : Json → Option Json}
    (follows : ∀ old, (change old).map shape = change' (shape old)) (path : List Text)
    (value : Json) :
    (pointerMut change path value).map shape = pointerMut change' path (shape value) := by
  induction path generalizing value with
  | nil => exact follows value
  | cons token path ih =>
      cases value with
      | object fields =>
          rw [shape, pointerMut, pointerMut, get_shape]
          cases get token (.object fields) with
          | none => rfl
          | some old =>
              simp only [Option.bind_some, Option.map_some, ← ih old, Option.map_map]
              refine congrArg (Option.map · _) (funext fun new => ?_)
              simp only [Function.comp_apply, shape, shapeFields_update]
      | array items =>
          rw [shape, pointerMut, pointerMut]
          cases parseIndex token with
          | none => rfl
          | some index =>
              rw [shapeItems_eq, Option.bind_some, Option.bind_some, List.getElem?_map]
              cases items[index]? with
              | none => rfl
              | some old =>
                  simp only [Option.bind_some, Option.map_some, ← ih old, Option.map_map]
                  refine congrArg (Option.map · _) (funext fun new => ?_)
                  simp only [Function.comp_apply, shape, shapeItems_eq, List.map_set]
      | null | bool | number | string => rfl

end Shapes

end Frona.Config
