import Mathlib.Algebra.Order.Ring.Nat
import Mathlib.Data.List.Basic

set_option autoImplicit false

namespace Utf8

abbrev Text := List Char

instance lawfulText : LawfulBEq Text := inferInstance

structure Range where
  start : Nat
  stop : Nat
  deriving DecidableEq

-- The length of an inverted range is zero.
def Range.length (range : Range) : Nat := range.stop - range.start

def byteLength : Text → Nat
  | [] => 0
  | c :: rest => c.utf8Size + byteLength rest

@[simp] theorem byteLength_nil : byteLength [] = 0 := rfl

@[simp] theorem byteLength_cons (c : Char) (rest : Text) :
    byteLength (c :: rest) = c.utf8Size + byteLength rest := rfl

@[simp] theorem byteLength_append (left right : Text) :
    byteLength (left ++ right) = byteLength left + byteLength right := by
  induction left with
  | nil => simp
  | cons c rest ih => simp [ih, Nat.add_assoc]

@[simp] theorem byteLength_eq_zero (text : Text) : byteLength text = 0 ↔ text = [] := by
  cases text with
  | nil => simp
  | cons c rest =>
      have := c.utf8Size_pos
      simp only [byteLength_cons, List.cons_ne_nil, iff_false]
      omega

def Range.Within (range wider : Range) : Prop :=
  wider.start ≤ range.start ∧ range.stop ≤ wider.stop

def Range.Before (range later : Range) : Prop :=
  range.start ≤ later.start ∧ range.stop ≤ later.stop

def splitAt : Text → Nat → Option (Text × Text)
  | text, 0 => some ([], text)
  | [], _ + 1 => none
  | c :: rest, offset + 1 =>
      if c.utf8Size ≤ offset + 1 then
        (splitAt rest (offset + 1 - c.utf8Size)).map fun (before, after) => (c :: before, after)
      else none

theorem splitAt_append (before after : Text) :
    splitAt (before ++ after) (byteLength before) = some (before, after) := by
  induction before with
  | nil => cases after <;> rfl
  | cons c rest ih =>
      obtain ⟨size, same⟩ : ∃ size, byteLength (c :: rest) = size + 1 := by
        have := c.utf8Size_pos
        exact ⟨byteLength (c :: rest) - 1, by simp only [byteLength_cons]; omega⟩
      have fits : c.utf8Size ≤ size + 1 := by simp only [byteLength_cons] at same; omega
      have left : size + 1 - c.utf8Size = byteLength rest := by
        simp only [byteLength_cons] at same
        omega
      rw [same, List.cons_append, splitAt]
      simp [fits, left, ih]

theorem splitAt_eq_some (text : Text) (offset : Nat) (before after : Text) :
    splitAt text offset = some (before, after) ↔
      text = before ++ after ∧ byteLength before = offset := by
  constructor
  · intro split
    fun_induction splitAt text offset generalizing before after with
    | case1 text =>
        obtain ⟨rfl, rfl⟩ : [] = before ∧ text = after := by simpa using split
        simp
    | case2 => simp at split
    | case3 c rest offset fits ih =>
        obtain ⟨⟨left, right⟩, found, same⟩ := Option.map_eq_some_iff.mp split
        obtain ⟨rfl, rfl⟩ : c :: left = before ∧ right = after := by simpa using same
        obtain ⟨rfl, size⟩ := ih left right found
        simp only [List.cons_append, byteLength_cons, size, true_and]
        omega
    | case4 => simp at split
  · rintro ⟨rfl, rfl⟩
    exact splitAt_append before after

def IsBoundary (text : Text) (offset : Nat) : Prop :=
  ∃ before after, text = before ++ after ∧ byteLength before = offset

theorem isBoundary_iff (text : Text) (offset : Nat) :
    IsBoundary text offset ↔ (splitAt text offset).isSome := by
  simp only [IsBoundary, Option.isSome_iff_exists, Prod.exists, splitAt_eq_some]

instance (text : Text) (offset : Nat) : Decidable (IsBoundary text offset) :=
  decidable_of_iff _ (isBoundary_iff text offset).symm

theorem isBoundary_zero (text : Text) : IsBoundary text 0 := ⟨[], text, rfl, rfl⟩

theorem isBoundary_length (text : Text) : IsBoundary text (byteLength text) :=
  ⟨text, [], by simp, rfl⟩

theorem IsBoundary.le {text : Text} {offset : Nat} (boundary : IsBoundary text offset) :
    offset ≤ byteLength text := by
  obtain ⟨before, after, rfl, rfl⟩ := boundary
  simp

theorem isBoundary_append (before text after : Text) (offset : Nat)
    (inside : offset ≤ byteLength text) :
    IsBoundary (before ++ (text ++ after)) (byteLength before + offset) ↔
      IsBoundary text offset := by
  constructor
  · rintro ⟨left, right, same, size⟩
    obtain ⟨head, rfl, tail⟩ : ∃ head, left = before ++ head ∧ text ++ after = head ++ right := by
      rcases List.append_eq_append_iff.mp same with ⟨head, rfl, tail⟩ | ⟨head, rfl, tail⟩
      · exact ⟨head, rfl, tail⟩
      · have : head = [] := by
          rw [← byteLength_eq_zero]
          simp only [byteLength_append] at size
          omega
        subst this
        exact ⟨[], by simp, by simpa using tail.symm⟩
    have length : byteLength head = offset := by
      simp only [byteLength_append] at size
      omega
    rcases List.append_eq_append_iff.mp tail with ⟨rest, rfl, _⟩ | ⟨rest, rfl, _⟩
    · have : rest = [] := by
        rw [← byteLength_eq_zero]
        simp only [byteLength_append] at length
        omega
      subst this
      exact ⟨text, [], by simp, by simpa using length⟩
    · exact ⟨head, rest, rfl, length⟩
  · rintro ⟨left, right, rfl, rfl⟩
    exact ⟨before ++ left, right ++ after, by simp, by simp⟩

theorem exists_between (left right left' right' : Text) (same : left ++ right = left' ++ right')
    (shorter : byteLength left ≤ byteLength left') :
    ∃ between, left' = left ++ between ∧ right = between ++ right' := by
  rcases List.append_eq_append_iff.mp same with ⟨between, rfl, rfl⟩ | ⟨between, rfl, rfl⟩
  · exact ⟨between, rfl, rfl⟩
  · have : between = [] := by
      rw [← byteLength_eq_zero]
      simp only [byteLength_append] at shorter
      omega
    subst this
    exact ⟨[], by simp, by simp⟩

theorem append_inj_of_length (left right left' right' : Text)
    (same : left ++ right = left' ++ right') (size : byteLength left = byteLength left') :
    left = left' ∧ right = right' := by
  obtain ⟨between, rfl, rfl⟩ := exists_between left right left' right' same (by omega)
  have : between = [] := by
    rw [← byteLength_eq_zero]
    simp only [byteLength_append] at size
    omega
  simp [this]

/-- `&text[start..stop]`: fails unless the bounds are ordered and between characters. -/
def slice (text : Text) (start stop : Nat) : Option Text := do
  let (head, _) ← splitAt text stop
  let (_, middle) ← splitAt head start
  return middle

theorem slice_eq_some (text : Text) (start stop : Nat) (middle : Text) :
    slice text start stop = some middle ↔
      ∃ before after, text = before ++ (middle ++ after) ∧ byteLength before = start ∧
        byteLength before + byteLength middle = stop := by
  simp only [slice, Option.bind_eq_bind, Option.bind_eq_some_iff, Prod.exists, splitAt_eq_some,
    Option.pure_def, Option.some.injEq]
  constructor
  · rintro ⟨head, after, ⟨rfl, size⟩, before, found, ⟨rfl, start⟩, rfl⟩
    exact ⟨before, after, by simp, start, by simpa using size⟩
  · rintro ⟨before, after, rfl, start, size⟩
    exact ⟨before ++ middle, after, ⟨by simp, by simpa using size⟩, before, middle,
      ⟨rfl, start⟩, rfl⟩

theorem slice_append (before middle after : Text) :
    slice (before ++ (middle ++ after)) (byteLength before)
      (byteLength before + byteLength middle) = some middle :=
  (slice_eq_some _ _ _ _).mpr ⟨before, after, rfl, rfl, rfl⟩

theorem slice_isSome (text : Text) (start stop : Nat) :
    (slice text start stop).isSome ↔
      start ≤ stop ∧ IsBoundary text start ∧ IsBoundary text stop := by
  simp only [Option.isSome_iff_exists, slice_eq_some]
  constructor
  · rintro ⟨middle, before, after, rfl, rfl, rfl⟩
    exact ⟨by omega, ⟨before, middle ++ after, rfl, rfl⟩,
      ⟨before ++ middle, after, by simp, by simp⟩⟩
  · rintro ⟨ordered, ⟨before, rest, rfl, rfl⟩, ⟨head, after, same, rfl⟩⟩
    obtain ⟨middle, rfl, rfl⟩ := exists_between before rest head after same ordered
    exact ⟨middle, before, after, rfl, rfl, by simp⟩

def sliceFrom (text : Text) (start : Nat) : Option Text := (splitAt text start).map Prod.snd

theorem sliceFrom_eq_some (text : Text) (start : Nat) (rest : Text) :
    sliceFrom text start = some rest ↔
      ∃ before, text = before ++ rest ∧ byteLength before = start := by
  simp [sliceFrom, splitAt_eq_some]

def find (text pattern : Text) : Option Nat :=
  if pattern.isPrefixOf text then some 0
  else match text with
    | [] => none
    | c :: rest => (find rest pattern).map (c.utf8Size + ·)

theorem find_eq_some (text pattern : Text) (offset : Nat)
    (found : find text pattern = some offset) :
    ∃ before after, text = before ++ (pattern ++ after) ∧ byteLength before = offset := by
  induction text generalizing offset with
  | nil =>
      unfold find at found
      split at found
      · rename_i isPrefix
        obtain ⟨after, same⟩ := List.isPrefixOf_iff_prefix.mp isPrefix
        cases found
        exact ⟨[], after, same.symm, rfl⟩
      · simp at found
  | cons c rest ih =>
      unfold find at found
      split at found
      · rename_i isPrefix
        obtain ⟨after, same⟩ := List.isPrefixOf_iff_prefix.mp isPrefix
        cases found
        exact ⟨[], after, same.symm, rfl⟩
      · obtain ⟨inner, deeper, rfl⟩ := Option.map_eq_some_iff.mp found
        obtain ⟨before, after, rfl, rfl⟩ := ih inner deeper
        exact ⟨c :: before, after, rfl, rfl⟩

def startsWith (pattern text : Text) : Bool := pattern.isPrefixOf text

def stripPrefix (pattern text : Text) : Option Text :=
  if startsWith pattern text then some (text.drop pattern.length) else none

theorem stripPrefix_eq_some (pattern text rest : Text) :
    stripPrefix pattern text = some rest ↔ text = pattern ++ rest := by
  constructor
  · intro found
    unfold stripPrefix at found
    split at found
    · next isPrefix =>
        obtain ⟨tail, rfl⟩ := List.isPrefixOf_iff_prefix.mp isPrefix
        simpa using found
    · cases found
  · rintro rfl
    have isPrefix : startsWith pattern (pattern ++ rest) = true :=
      List.isPrefixOf_iff_prefix.mpr ⟨rest, rfl⟩
    simp [stripPrefix, isPrefix]

@[simp] theorem stripPrefix_append (pattern rest : Text) :
    stripPrefix pattern (pattern ++ rest) = some rest :=
  (stripPrefix_eq_some _ _ _).mpr rfl

/-- A range that can be sliced. -/
structure Range.Valid (text : Text) (range : Range) : Prop where
  ordered : range.start ≤ range.stop
  start : IsBoundary text range.start
  stop : IsBoundary text range.stop

theorem Range.Valid.slice {text : Text} {range : Range} (valid : range.Valid text) :
    ∃ middle, Utf8.slice text range.start range.stop = some middle :=
  Option.isSome_iff_exists.mp
    ((slice_isSome text _ _).mpr ⟨valid.ordered, valid.start, valid.stop⟩)

end Utf8
