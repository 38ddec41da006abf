import Frona.Text.Chain

set_option autoImplicit false

namespace Frona.Text

open Utf8

inductive GroundingError where
  | quoteNotFound

structure GroundingMatch where
  normalizedRange : Range
  rawRange : Range
  rawSpan : Text

structure GroundingText where
  compact : NormalizedString
  substantiveLen : Nat

structure UnicodeTables where
  form : Text → List (Char × Int)
  fold : Char → List Char
  isLetter : Char → Bool
  isNumber : Char → Bool
  isMark : Char → Bool

section Grounding

variable (tables : UnicodeTables)

def retained (c : Char) : Bool := tables.isLetter c || tables.isNumber c || tables.isMark c

namespace GroundingText

def new (text : Text) : Option GroundingText := do
  let composed ← (NormalizedString.fromStr text).nfkc tables.form
  let folded ← composed.caseFold tables.fold
  let compact ← folded.retainChars (retained tables)
  let substantive := compact.normalized.filter fun c => tables.isLetter c || tables.isNumber c
  return ⟨compact, substantive.length⟩

/-- `none` is a panic: the source is sliced without a check. -/
def resolveCompact (self quote : GroundingText) : Option (Except GroundingError GroundingMatch) :=
  match find self.compact.normalized quote.compact.normalized with
  | none => some (.error .quoteNotFound)
  | some start =>
      let normalizedRange : Range := ⟨start, start + byteLength quote.compact.normalized⟩
      match self.compact.spliceRangeOriginal normalizedRange with
      | none => some (.error .quoteNotFound)
      | some rawRange => do
          let rawSpan ← slice self.compact.original rawRange.start rawRange.stop
          return .ok ⟨normalizedRange, rawRange, rawSpan⟩

def resolve (self : GroundingText) (quote : Text) :
    Option (Except GroundingError GroundingMatch) := do
  let quote ← new tables quote
  if quote.substantiveLen = 0 then return .error .quoteNotFound
  self.resolveCompact quote

def resolveValue (self : GroundingText) (value : Text) :
    Option (Except GroundingError GroundingMatch) := do
  let value ← new tables value
  if value.substantiveLen = 0 then return .error .quoteNotFound
  self.resolveCompact value

def compactTransforms : List Transform := [.nfkc, .caseFold, .retainChars (retained tables)]

theorem new_eq (text : Text) :
    new tables text = (chain tables.form tables.fold text (compactTransforms tables)).map
      fun compact => ⟨compact, (compact.normalized.filter fun c =>
        tables.isLetter c || tables.isNumber c).length⟩ := by
  simp only [new, chain, compactTransforms, List.foldlM_cons, List.foldlM_nil, Transform.apply,
    Option.bind_eq_bind, Option.pure_def, Option.map_eq_bind, Option.bind_assoc,
    Function.comp_def, Option.bind_some]

theorem resolve_slices (inOrder : InOrder tables.form) (folds : ∀ c, tables.fold c ≠ [])
    (text quote : Text) (small : byteLength text < 2 ^ 32) (smallQuote : byteLength quote < 2 ^ 32) :
    ∃ self result, new tables text = some self ∧ resolve tables self quote = some result ∧
      ∀ found, result = .ok found →
        slice text found.rawRange.start found.rawRange.stop = some found.rawSpan ∧
          self.compact.IsHull found.normalizedRange found.rawRange := by
  obtain ⟨compact, run, same, aligned, -⟩ := chain_aligned tables.form tables.fold inOrder folds
    text small (compactTransforms tables)
  obtain ⟨needle, needleRun, -⟩ := chain_aligned tables.form tables.fold inOrder folds
    quote smallQuote (compactTransforms tables)
  have self := new_eq tables text
  rw [run, Option.map_some] at self
  have quoted := new_eq tables quote
  rw [needleRun, Option.map_some] at quoted
  simp only [resolve, quoted, Option.bind_eq_bind, Option.bind_some]
  split
  · exact ⟨_, _, self, rfl, fun found same => by cases same⟩
  · rename_i substantive
    have nonempty : needle.normalized ≠ [] := by
      intro empty
      simp [empty] at substantive
    have positive := Nat.pos_of_ne_zero ((byteLength_eq_zero needle.normalized).not.mpr nonempty)
    unfold resolveCompact
    cases search : find compact.normalized needle.normalized with
    | none =>
        exact ⟨_, .error .quoteNotFound, self, by simp only [search], fun found same => by cases same⟩
    | some start =>
        obtain ⟨before, after, whole, size⟩ := find_eq_some _ _ _ search
        have inside : start + byteLength needle.normalized ≤ byteLength compact.normalized := by
          rw [whole, ← size]
          simp only [byteLength_append]
          omega
        obtain ⟨raw, spliced, -⟩ := aligned.valid_splice
          ⟨start, start + byteLength needle.normalized⟩ (by simp) inside
        obtain ⟨valid, hull⟩ := aligned.hull
          ⟨start, start + byteLength needle.normalized⟩ (by simp only; omega) inside raw spliced
        obtain ⟨rawSpan, sliced⟩ := valid.slice
        refine ⟨_, .ok ⟨⟨start, start + byteLength needle.normalized⟩, raw, rawSpan⟩, self, ?_, ?_⟩
        · simp only [search, spliced, sliced, Option.bind_eq_bind, Option.bind_some]
          rfl
        · rintro found ⟨rfl⟩
          exact ⟨same ▸ sliced, hull⟩

end GroundingText

end Grounding

end Frona.Text
