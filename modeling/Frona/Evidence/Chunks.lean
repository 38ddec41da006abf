import Frona.Chat.Message
import Frona.Inference.Rig
import Frona.Text.Words

set_option autoImplicit false

namespace Frona.Evidence

open Utf8 (Text)
open Frona.Chat (Json)
open Frona.Inference (estimateTokens)
open Frona.Pkm (dropReturn lines)
open Frona.Text (isWhitespace trim words words_append_blank words_append_cons words_intercalate
  words_nil words_trim)

section Plain

/-- `split("\n\n")`. -/
def splitParagraphs : Text → List Text
  | [] => [[]]
  | '\n' :: '\n' :: rest => [] :: splitParagraphs rest
  | c :: rest => (splitParagraphs rest).modifyHead (c :: ·)

def logicalParts (result : Text) : List Text :=
  let paragraphs := ((splitParagraphs result).map trim).filter fun part => !part.isEmpty
  if 1 < paragraphs.length then paragraphs else lines result

abbrev Packing := List Text × Text

def Packing.flush (packing : Packing) : Packing := (packing.1 ++ [packing.2], [])

-- `current` gets a line end only where it has something.
def Packing.push (packing : Packing) (part : Text) : Packing :=
  (packing.1, if packing.2 = [] then part else packing.2 ++ '\n' :: part)

def Packing.step (packing : Packing) (part : Text) : Packing :=
  let candidate := if packing.2 = [] then part else packing.2 ++ '\n' :: part
  let cut := if packing.2 ≠ [] ∧ 500 < estimateTokens candidate then packing.flush else packing
  let pushed := cut.push part
  if 200 ≤ estimateTokens pushed.2 then pushed.flush else pushed

def pack (parts : List Text) : List Text :=
  let packing : Packing := parts.foldl Packing.step ([], [])
  let chunks := if packing.2 = [] then packing.1 else packing.1 ++ [packing.2]
  if chunks = [] then [[]] else chunks

end Plain

section Values

def arrayItems : Text × Json → Option (List Json)
  | (_, .array items) => some items
  | _ => none

def records (fields : List (Text × Json)) : List Json := (fields.filterMap arrayItems).flatten

def chunkValues : Json → List Json
  | .array values => values
  | .object fields => if records fields = [] then [.object fields] else records fields
  | value => [value]

end Values

/-- The chunks of a result. `parse` is `serde_json::from_str`. -/
def evidenceChunks (parse : Text → Option Json) (result : Text) : List Text :=
  match parse result with
  | some value => (chunkValues value).map Json.render
  | none => pack (logicalParts result)

section Words

theorem splitParagraphs_ne_nil (text : Text) : splitParagraphs text ≠ [] := by
  induction text using splitParagraphs.induct with
  | case1 => simp [splitParagraphs]
  | case2 rest ih => simp [splitParagraphs]
  | case3 c rest other ih =>
      obtain ⟨first, more, pieces⟩ := List.exists_cons_of_ne_nil ih
      rw [splitParagraphs, pieces]
      · simp
      · exact other

theorem intercalate_splitParagraphs (text : Text) :
    ['\n', '\n'].intercalate (splitParagraphs text) = text := by
  induction text using splitParagraphs.induct with
  | case1 => simp [splitParagraphs]
  | case2 rest ih =>
      obtain ⟨first, more, pieces⟩ := List.exists_cons_of_ne_nil (splitParagraphs_ne_nil rest)
      rw [splitParagraphs, pieces, List.intercalate_cons_cons, ← pieces, ih]
      rfl
  | case3 c rest other ih =>
      obtain ⟨first, more, pieces⟩ := List.exists_cons_of_ne_nil (splitParagraphs_ne_nil rest)
      rw [pieces] at ih
      rw [splitParagraphs, pieces, ← ih]
      · cases more with
        | nil => simp
        | cons second more => simp [List.intercalate_cons_cons]
      · exact other

theorem words_splitParagraphs (text : Text) :
    (splitParagraphs text).flatMap words = words text := by
  rw [← words_intercalate '\n' ['\n'] (by simp), intercalate_splitParagraphs]

theorem words_dropReturn (line : Text) : words (dropReturn line) = words line := by
  unfold dropReturn
  split
  next rest ended =>
    have same : line = rest.reverse ++ ['\r'] := by
      rw [← List.reverse_reverse line, ended]
      simp
    rw [same, words_append_blank _ ['\r'] (by simp)]
  next => rfl

theorem words_lines (text : Text) : (lines text).flatMap words = words text := by
  have pieces : (text.splitOn '\n').flatMap words = words text := by
    rw [← words_intercalate '\n' [] (by simp), List.intercalate_splitOn]
  rw [← pieces]
  unfold lines
  split
  next none => simp [List.reverse_eq_nil_iff.mp none]
  next last ended same =>
    have split : text.splitOn '\n' = ended.reverse ++ [last] := by
      rw [← List.reverse_reverse (text.splitOn '\n'), same]
      simp
    have dropped : (ended.reverse.map dropReturn).flatMap words = ended.reverse.flatMap words := by
      rw [List.flatMap_map]
      simp only [words_dropReturn]
    rw [split, List.flatMap_append, List.flatMap_append, dropped]
    split
    next empty => simp [empty]
    next => rfl

theorem flatMap_words_filter (parts : List Text) :
    (parts.filter fun part => !part.isEmpty).flatMap words = parts.flatMap words := by
  induction parts with
  | nil => rfl
  | cons part rest ih => cases part <;> simp [ih]

theorem words_logicalParts (result : Text) :
    (logicalParts result).flatMap words = words result := by
  unfold logicalParts
  simp only
  split
  next =>
    rw [flatMap_words_filter, List.flatMap_map]
    simp only [words_trim]
    exact words_splitParagraphs result
  next => exact words_lines result

end Words

section Packing

def Packing.Holds (packing : Packing) (word : Text) : Prop :=
  (∃ chunk ∈ packing.1, word ∈ words chunk) ∨ word ∈ words packing.2

variable {packing : Packing} {word part : Text}

theorem Packing.Holds.flush (held : packing.Holds word) : packing.flush.Holds word := by
  obtain ⟨chunk, member, found⟩ | found := held
  · exact Or.inl ⟨chunk, by simp [Packing.flush, member], found⟩
  · exact Or.inl ⟨packing.2, by simp [Packing.flush], found⟩

theorem words_push (packing : Packing) (part : Text) :
    words (packing.push part).2 = words packing.2 ++ words part := by
  unfold Packing.push
  by_cases empty : packing.2 = []
  · simp [empty]
  · simp only [empty, ↓reduceIte]
    exact words_append_cons _ _ (by simp)

theorem Packing.Holds.push (held : packing.Holds word) : (packing.push part).Holds word := by
  obtain ⟨chunk, member, found⟩ | found := held
  · exact Or.inl ⟨chunk, member, found⟩
  · exact Or.inr (by simp [words_push, found])

theorem Packing.holds_push (found : word ∈ words part) : (packing.push part).Holds word :=
  Or.inr (by simp [words_push, found])

theorem Packing.Holds.step (held : packing.Holds word ∨ word ∈ words part) :
    (packing.step part).Holds word := by
  have pushed (cut : Packing) (kept : packing.Holds word → cut.Holds word) :
      (cut.push part).Holds word := by
    obtain before | found := held
    · exact (kept before).push
    · exact Packing.holds_push found
  have filled (cut : Packing) (kept : packing.Holds word → cut.Holds word) :
      (if 200 ≤ estimateTokens (cut.push part).2 then (cut.push part).flush
        else cut.push part).Holds word := by
    split
    · exact (pushed cut kept).flush
    · exact pushed cut kept
  refine filled _ fun before => ?_
  split_ifs
  all_goals first
    | exact before.flush
    | exact before

theorem holds_fold (parts : List Text) (packing : Packing)
    (held : packing.Holds word ∨ ∃ part ∈ parts, word ∈ words part) :
    (parts.foldl Packing.step packing).Holds word := by
  induction parts generalizing packing with
  | nil => simpa using held
  | cons part rest ih =>
      apply ih
      obtain before | ⟨piece, member, found⟩ := held
      · exact Or.inl (Packing.Holds.step (Or.inl before))
      · obtain rfl | later := List.mem_cons.mp member
        · exact Or.inl (Packing.Holds.step (Or.inr found))
        · exact Or.inr ⟨piece, later, found⟩

theorem pack_words (parts : List Text) (found : ∃ part ∈ parts, word ∈ words part) :
    ∃ chunk ∈ pack parts, word ∈ words chunk := by
  have held := holds_fold parts ([], []) (Or.inr found)
  unfold pack
  generalize parts.foldl Packing.step ([], []) = packing at held
  -- an empty text is not pushed, and no word is lost with it
  have kept : ∃ chunk ∈ (if packing.2 = [] then packing.1 else packing.1 ++ [packing.2]),
      word ∈ words chunk := by
    obtain ⟨chunk, member, inside⟩ | inside := held
    · refine ⟨chunk, ?_, inside⟩
      split
      · exact member
      · exact List.mem_append_left _ member
    · have filled : packing.2 ≠ [] := by
        intro empty
        simp [empty] at inside
      rw [if_neg filled]
      exact ⟨packing.2, by simp, inside⟩
  obtain ⟨chunk, member, inside⟩ := kept
  simp only
  rw [if_neg (List.ne_nil_of_mem member)]
  exact ⟨chunk, member, inside⟩

end Packing

section Cover

variable {parse : Text → Option Json}

theorem evidenceChunks_words {result : Text} (plain : parse result = none) {word : Text}
    (found : word ∈ words result) : ∃ chunk ∈ evidenceChunks parse result, word ∈ words chunk := by
  simp only [evidenceChunks, plain]
  apply pack_words
  rw [← words_logicalParts] at found
  exact List.mem_flatMap.mp found

mutual

def scalars : Json → List Json
  | .array items => scalarsOf items
  | .object fields => scalarsOfFields fields
  | value => [value]

def scalarsOf : List Json → List Json
  | [] => []
  | item :: rest => scalars item ++ scalarsOf rest

def scalarsOfFields : List (Text × Json) → List Json
  | [] => []
  | field :: rest => scalars field.2 ++ scalarsOfFields rest

end

theorem scalarsOf_eq (items : List Json) : scalarsOf items = items.flatMap scalars := by
  induction items with
  | nil => rfl
  | cons item rest ih => simp [scalarsOf, ih]

def keptScalars : Json → List Json
  | .object fields =>
      if records fields = [] then scalars (.object fields)
      else (fields.filterMap arrayItems).flatMap scalarsOf
  | value => scalars value

theorem chunkValues_scalars {value scalar : Json} (kept : scalar ∈ keptScalars value) :
    ∃ part ∈ chunkValues value, scalar ∈ scalars part := by
  cases value with
  | array items =>
      simpa [keptScalars, scalars, scalarsOf_eq, chunkValues] using kept
  | object fields =>
      simp only [keptScalars, chunkValues] at kept ⊢
      split at kept
      next none =>
        rw [if_pos none]
        exact ⟨_, List.mem_singleton.mpr rfl, kept⟩
      next some =>
        rw [if_neg some]
        obtain ⟨items, listed, inside⟩ := List.mem_flatMap.mp kept
        rw [scalarsOf_eq] at inside
        obtain ⟨part, member, inside⟩ := List.mem_flatMap.mp inside
        exact ⟨part, List.mem_flatten.mpr ⟨items, listed, member⟩, inside⟩
  | _ => exact ⟨_, List.mem_singleton.mpr rfl, kept⟩

theorem evidenceChunks_scalars {result : Text} {value scalar : Json}
    (parsed : parse result = some value) (kept : scalar ∈ keptScalars value) :
    ∃ part, scalar ∈ scalars part ∧ part.render ∈ evidenceChunks parse result := by
  obtain ⟨part, member, inside⟩ := chunkValues_scalars kept
  simp only [evidenceChunks, parsed]
  exact ⟨part, inside, List.mem_map_of_mem member⟩

end Cover

end Frona.Evidence
