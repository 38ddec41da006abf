import Frona.Text.Utf8

set_option autoImplicit false

namespace Frona.Text

open Utf8

abbrev Span := Nat × Nat

-- Offsets are stored in 32 bits.
def u32 (offset : Nat) : Nat := offset % 2 ^ 32

structure NormalizedString where
  original : Text
  normalized : Text
  spans : List Span

/-- `char::is_whitespace`. -/
def isWhitespace (c : Char) : Bool :=
  let n := c.toNat
  decide (9 ≤ n ∧ n ≤ 13) || decide (n = 0x20) || decide (n = 0x85) || decide (n = 0xA0) ||
    decide (n = 0x1680) || decide (0x2000 ≤ n ∧ n ≤ 0x200A) || decide (n = 0x2028) ||
    decide (n = 0x2029) || decide (n = 0x202F) || decide (n = 0x205F) || decide (n = 0x3000)

def charIndices : Nat → Text → List (Nat × Char)
  | _, [] => []
  | offset, c :: rest => (offset, c) :: charIndices (offset + c.utf8Size) rest

structure Builder where
  normalized : Text
  spans : List Span

def Builder.push (builder : Builder) (c : Char) (span : Span) : Builder :=
  ⟨builder.normalized ++ [c], builder.spans ++ List.replicate c.utf8Size span⟩

def Builder.extendLast (builder : Builder) (bytes : Nat) (stop : Nat) : Builder :=
  let kept := builder.spans.length - bytes
  { builder with
    spans := builder.spans.take kept ++
      (builder.spans.drop kept).map fun entry => (entry.1, max entry.2 stop) }

def consumed (diff : Int) : Nat :=
  if diff = 0 then 1 else if diff < 0 then 1 + (-diff).toNat else 0

def takeChars : Nat → Text → Nat → Option (Text × Nat)
  | 0, chars, bytePos => some (chars, bytePos)
  | n + 1, c :: rest, bytePos => takeChars n rest (bytePos + c.utf8Size)
  | _ + 1, [], _ => none

def hull (spans : List Span) (start stop : Nat) : Option Span := do
  let first ← spans[start]?
  (List.range' (start + 1) (stop - (start + 1))).foldlM
    (fun (minStart, maxEnd) i => do
      let span ← spans[i]?
      return (min minStart span.1, max maxEnd span.2)) first

structure NfkcState where
  chars : Text
  bytePos : Nat
  out : Builder

structure CollapseState where
  prevWs : Bool
  bytePos : Nat
  lastEmittedBytes : Nat
  out : Builder

namespace NormalizedString

def fromStr (s : Text) : NormalizedString where
  original := s
  normalized := s
  spans := (charIndices 0 s).flatMap fun (b, c) =>
    List.replicate c.utf8Size (u32 b, u32 (b + c.utf8Size))

def spliceRangeOriginal (self : NormalizedString) (range : Range) : Option Range :=
  if range.start > range.stop then none
  else if range.stop > self.spans.length then none
  else if range.start = range.stop then
    let pos := if range.start < self.spans.length then
        (self.spans[range.start]?.map Prod.fst).getD 0
      else byteLength self.original
    some ⟨pos, pos⟩
  else do
    let first ← self.spans[range.start]?
    let last ← self.spans[range.stop - 1]?
    return ⟨first.1, last.2⟩

-- An inserted character shares the span of the character before it.
def nfkcStep (self : NormalizedString) (state : NfkcState) (output : Char × Int) :
    Option NfkcState := do
  let (outChar, diff) := output
  let (chars, bytePos) ← takeChars (consumed diff) state.chars state.bytePos
  let span ←
    if bytePos > state.bytePos then hull self.spans state.bytePos bytePos
    else some (state.out.spans.getLast?.getD (0, 0))
  return ⟨chars, bytePos, state.out.push outChar span⟩

/-- `form` lists the characters of the compatibility form, each with the difference that the
alignment reports; `none` is a panic. -/
def nfkc (form : Text → List (Char × Int)) (self : NormalizedString) :
    Option NormalizedString := do
  let state ← (form self.normalized).foldlM self.nfkcStep ⟨self.normalized, 0, ⟨[], []⟩⟩
  return { self with normalized := state.out.normalized, spans := state.out.spans }

def mapCharsStep (f : Char → Char) (self : NormalizedString) (state : Nat × Builder) (c : Char) :
    Option (Nat × Builder) := do
  let (bytePos, out) := state
  let span ← self.spans[bytePos]?
  return (bytePos + c.utf8Size, out.push (f c) span)

def mapChars (f : Char → Char) (self : NormalizedString) : Option NormalizedString := do
  let (_, out) ← self.normalized.foldlM (self.mapCharsStep f) (0, ⟨[], []⟩)
  return { self with normalized := out.normalized, spans := out.spans }

def asciiQuote (c : Char) : Char :=
  let n := c.toNat
  if 0x2018 ≤ n ∧ n ≤ 0x201B then '\''
  else if 0x201C ≤ n ∧ n ≤ 0x201F then '"'
  else c

def asciiDash (c : Char) : Char :=
  let n := c.toNat
  if (0x2010 ≤ n ∧ n ≤ 0x2015) ∨ n = 0x2212 then '-' else c

def asciiSpace (c : Char) : Char :=
  let n := c.toNat
  if n = 0xA0 ∨ (0x2002 ≤ n ∧ n ≤ 0x200A) ∨ n = 0x202F ∨ n = 0x205F ∨ n = 0x3000 then ' ' else c

def asciiQuotes (self : NormalizedString) : Option NormalizedString := self.mapChars asciiQuote

def asciiDashes (self : NormalizedString) : Option NormalizedString := self.mapChars asciiDash

def asciiSpaces (self : NormalizedString) : Option NormalizedString := self.mapChars asciiSpace

def retainCharsStep (predicate : Char → Bool) (self : NormalizedString) (state : Nat × Builder)
    (c : Char) : Option (Nat × Builder) := do
  let (bytePos, out) := state
  let span ← self.spans[bytePos]?
  return (bytePos + c.utf8Size, if predicate c then out.push c span else out)

def retainChars (predicate : Char → Bool) (self : NormalizedString) :
    Option NormalizedString := do
  let (_, out) ← self.normalized.foldlM (self.retainCharsStep predicate) (0, ⟨[], []⟩)
  return { self with normalized := out.normalized, spans := out.spans }

def flatMapCharsStep (f : Char → List Char) (self : NormalizedString) (state : Nat × Builder)
    (c : Char) : Option (Nat × Builder) := do
  let (bytePos, out) := state
  let span ← self.spans[bytePos]?
  return (bytePos + c.utf8Size, (f c).foldl (fun out mapped => out.push mapped span) out)

def flatMapChars (f : Char → List Char) (self : NormalizedString) : Option NormalizedString := do
  let (_, out) ← self.normalized.foldlM (self.flatMapCharsStep f) (0, ⟨[], []⟩)
  return { self with normalized := out.normalized, spans := out.spans }

/-- `fold` is the full case folding of a character. -/
def caseFold (fold : Char → List Char) (self : NormalizedString) : Option NormalizedString :=
  self.flatMapChars fold

def collapseStep (self : NormalizedString) (state : CollapseState) (c : Char) :
    Option CollapseState := do
  let span ← self.spans[state.bytePos]?
  let bytePos := state.bytePos + c.utf8Size
  if isWhitespace c then
    if state.prevWs then
      let out := if state.lastEmittedBytes > 0 then
          state.out.extendLast state.lastEmittedBytes span.2
        else state.out
      return { state with bytePos, out }
    else return ⟨true, bytePos, 1, state.out.push ' ' span⟩
  else return ⟨false, bytePos, c.utf8Size, state.out.push c span⟩

def collapseWhitespaceRuns (self : NormalizedString) : Option NormalizedString := do
  let state ← self.normalized.foldlM self.collapseStep ⟨false, 0, 0, ⟨[], []⟩⟩
  return { self with normalized := state.out.normalized, spans := state.out.spans }

end NormalizedString

end Frona.Text
