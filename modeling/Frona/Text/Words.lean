import Mathlib.Data.List.TakeWhile
import Frona.Text.Visible

set_option autoImplicit false

namespace Frona.Text

open Utf8 (Text)

@[simp] theorem isWhitespace_newline : isWhitespace '\n' = true := rfl

@[simp] theorem isWhitespace_return : isWhitespace '\r' = true := rfl

/-- `split_whitespace`. -/
def words (text : Text) : List Text :=
  (text.splitOnP isWhitespace).filter fun word => !word.isEmpty

@[simp] theorem words_nil : words [] = [] := by simp [words]

theorem words_append_cons (before after : Text) {c : Char} (blank : isWhitespace c = true) :
    words (before ++ c :: after) = words before ++ words after := by
  simp [words, List.splitOnP_append_cons before after blank]

theorem words_cons (after : Text) {c : Char} (blank : isWhitespace c = true) :
    words (c :: after) = words after := by
  simpa using words_append_cons [] after blank

theorem words_append_blank (before blanks : Text)
    (blank : ∀ c ∈ blanks, isWhitespace c = true) : words (before ++ blanks) = words before := by
  induction blanks generalizing before with
  | nil => simp
  | cons c rest ih =>
      rw [words_append_cons before rest (blank c (by simp))]
      have none : words rest = [] := by
        simpa using ih [] fun d member => blank d (by simp [member])
      simp [none]

theorem words_blank_append (blanks after : Text)
    (blank : ∀ c ∈ blanks, isWhitespace c = true) : words (blanks ++ after) = words after := by
  induction blanks with
  | nil => rfl
  | cons c rest ih =>
      rw [List.cons_append, words_cons _ (blank c (by simp))]
      exact ih fun d member => blank d (by simp [member])

theorem words_intercalate (c : Char) (blanks : Text)
    (blank : ∀ d ∈ c :: blanks, isWhitespace d = true) (pieces : List Text) :
    words ((c :: blanks).intercalate pieces) = pieces.flatMap words := by
  induction pieces with
  | nil => simp
  | cons piece rest ih =>
      cases rest with
      | nil => simp
      | cons second rest =>
          rw [List.intercalate_cons_cons, List.append_assoc, List.cons_append,
            words_append_cons piece _ (blank c (by simp)),
            words_blank_append blanks _ fun d member => blank d (by simp [member]), ih]
          rfl

theorem words_dropWhile (text : Text) : words (text.dropWhile isWhitespace) = words text := by
  induction text with
  | nil => rfl
  | cons c rest ih =>
      cases blank : isWhitespace c with
      | true => simp [blank, ih, words_cons rest blank]
      | false => simp [blank]

theorem words_trim (text : Text) : words (trim text) = words text := by
  rw [trim, ← words_dropWhile text]
  generalize text.dropWhile isWhitespace = front
  have split : front.reverse.takeWhile isWhitespace ++ front.reverse.dropWhile isWhitespace =
      front.reverse := List.takeWhile_append_dropWhile
  have same : front = (front.reverse.dropWhile isWhitespace).reverse ++
      (front.reverse.takeWhile isWhitespace).reverse := by
    rw [← List.reverse_append, split, List.reverse_reverse]
  conv_rhs => rw [same]
  refine (words_append_blank _ _ fun c member => ?_).symm
  exact List.mem_takeWhile_imp (List.mem_reverse.mp member)

theorem toDigits_inj {first second : Nat}
    (same : Nat.toDigits 10 first = Nat.toDigits 10 second) : first = second := by
  have value (n : Nat) : Nat.ofDigitChars 10 (Nat.toDigits 10 n) 0 = n :=
    Nat.ofDigitChars_ten_toDigits
  rw [← value first, ← value second, same]

end Frona.Text

namespace Frona.Pkm

open Utf8 (Text)

-- `str::lines` takes a carriage return away only before a line feed.
def dropReturn (line : Text) : Text :=
  match line.reverse with
  | '\r' :: rest => rest.reverse
  | _ => line

def lines (text : Text) : List Text :=
  match (text.splitOn '\n').reverse with
  | [] => []
  | last :: ended => ended.reverse.map dropReturn ++ if last = [] then [] else [last]

end Frona.Pkm
