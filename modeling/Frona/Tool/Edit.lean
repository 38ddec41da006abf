import Frona.Text.NormalizedString

set_option autoImplicit false

namespace Frona.Tool

open Utf8 Frona.Text

inductive LineEnding where
  | lf
  | crlf

def LineEnding.detect (text : Text) : LineEnding :=
  match find text ['\r', '\n'], find text ['\n'] with
  | some c, some l => if c ≤ l then .crlf else .lf
  | some _, none => .crlf
  | none, _ => .lf

def crlfToLf : Text → Text
  | '\r' :: '\n' :: rest => '\n' :: crlfToLf rest
  | c :: rest => c :: crlfToLf rest
  | [] => []

def LineEnding.apply (ending : LineEnding) (text : Text) : Text :=
  let lf := (crlfToLf text).map fun c => if c = '\r' then '\n' else c
  match ending with
  | .lf => lf
  | .crlf => lf.flatMap fun c => if c = '\n' then ['\r', '\n'] else [c]

inductive MatchTier where
  | exact
  | normalized
  deriving DecidableEq

inductive EditOutcome where
  | applied (rewritten : Text) (count : Nat) (tier : MatchTier)
  | notFound
  | ambiguous (count : Nat)
  | emptyNeedle
  deriving DecidableEq

abbrev Form := Text → List (Char × Int)

def normalize (form : Form) (ns : NormalizedString) : Option NormalizedString := do
  let ns ← ns.nfkc form
  let ns ← ns.asciiQuotes
  let ns ← ns.asciiDashes
  let ns ← ns.asciiSpaces
  ns.collapseWhitespaceRuns

-- An empty needle would match at the same place for ever; `none` is also a loop that does not
-- end within its fuel.
def findAllFrom (haystack needle : Text) : Nat → Nat → List Nat → Option (List Nat)
  | 0, _, _ => none
  | fuel + 1, start, hits =>
      match sliceFrom haystack start with
      | none => none
      | some rest =>
          match find rest needle with
          | none => some hits
          | some idx =>
              findAllFrom haystack needle fuel (start + idx + byteLength needle)
                (hits ++ [start + idx])

def findAll (haystack needle : Text) : Option (List Nat) :=
  findAllFrom haystack needle (byteLength haystack + 1) 0 []

structure SpliceState where
  out : Text
  cursor : Nat
  count : Nat

def spliceStep (original replacement : Text) (state : SpliceState) (r : Range) :
    Option SpliceState :=
  if r.start < state.cursor then some state
  else do
    let kept ← slice original state.cursor r.start
    return ⟨state.out ++ kept ++ replacement, r.stop, state.count + 1⟩

def spliceRanges (original : Text) (ranges : List Range) (replacement : Text) :
    Option (Text × Nat) := do
  let state ← ranges.foldlM (spliceStep original replacement) ⟨[], 0, 0⟩
  let rest ← sliceFrom original state.cursor
  return (state.out ++ rest, state.count)

/-- `usize::clamp`, which panics on an inverted interval. -/
def clamp (n low high : Nat) : Option Nat :=
  if low ≤ high then some (max low (min n high)) else none

def spelled (ns : NormalizedString) (i : Nat) : Nat :=
  ((ns.spliceRangeOriginal ⟨i, i + 1⟩).map Range.length).getD 1

def endsBlank (needle : Text) : Bool := decide (needle.getLast? = some ' ')

-- An all-blank needle has one boundary run, which is the one at its end.
def startsBlank (needle : Text) : Bool :=
  !(needle.all fun c => decide (c = ' ')) && decide (needle.head? = some ' ')

-- A run at the end is consumed from its start, one at the beginning from its end.
def clampEnd (fileNs needleNs : NormalizedString) (needle : Text) (nend : Nat)
    (span : Range) : Nat :=
  if endsBlank needle then
    match fileNs.spliceRangeOriginal ⟨nend - 1, nend⟩ with
    | some run => run.start + min (spelled needleNs (byteLength needle - 1)) run.length
    | none => span.stop
  else span.stop

def clampStart (fileNs needleNs : NormalizedString) (needle : Text) (nstart : Nat)
    (span : Range) : Nat :=
  if startsBlank needle then
    match fileNs.spliceRangeOriginal ⟨nstart, nstart + 1⟩ with
    | some run => run.stop - min (spelled needleNs 0) run.length
    | none => span.start
  else span.start

def clampBoundaryRuns (fileNs needleNs : NormalizedString) (needle : Text) (nstart nend : Nat)
    (span : Range) : Option Range := do
  let stop := clampEnd fileNs needleNs needle nend span
  let start ← clamp (clampStart fileNs needleNs needle nstart span) span.start span.stop
  let stop ← clamp stop start span.stop
  return ⟨start, stop⟩

def matchRanges (fileNs needleNs : NormalizedString) (needle : Text) :
    List Nat → Option (Except EditOutcome (List Range))
  | [] => some (.ok [])
  | nstart :: rest =>
      let nend := nstart + byteLength needle
      match fileNs.spliceRangeOriginal ⟨nstart, nend⟩ with
      | none => some (.error .notFound)
      | some span => do
          let range ← clampBoundaryRuns fileNs needleNs needle nstart nend span
          let ranges ← matchRanges fileNs needleNs needle rest
          return ranges.map (range :: ·)

def selectMatches (replaceAll : Bool) (hits : List Nat) : List Nat :=
  if replaceAll then hits else hits.take 1

def normalizedRanges (form : Form) (original oldString : Text) (replaceAll : Bool) :
    Option (Except EditOutcome (List Range)) := do
  let fileNs ← normalize form (NormalizedString.fromStr original)
  let needleNs ← normalize form (NormalizedString.fromStr oldString)
  let needle := needleNs.normalized
  if needle.isEmpty then return .error .emptyNeedle
  else do
    let hits ← findAll fileNs.normalized needle
    if hits.isEmpty then return .error .notFound
    else if hits.length > 1 && !replaceAll then return .error (.ambiguous hits.length)
    else matchRanges fileNs needleNs needle (selectMatches replaceAll hits)

def editRanges (form : Form) (original oldString : Text) (replaceAll : Bool) :
    Option (Except EditOutcome (List Range × MatchTier)) := do
  let exact ← findAll original oldString
  if exact.length > 1 && !replaceAll then return .error (.ambiguous exact.length)
  else
    let taken := (selectMatches replaceAll exact).map fun s => ⟨s, s + byteLength oldString⟩
    if exact.isEmpty then do
      let fuzzy ← normalizedRanges form original oldString replaceAll
      return fuzzy.map fun ranges => (ranges, .normalized)
    else if replaceAll then do
      match ← normalizedRanges form original oldString replaceAll with
      | .ok ranges =>
          if ranges.length > taken.length then return .ok (ranges, .normalized)
          else return .ok (taken, .exact)
      | .error _ => return .ok (taken, .exact)
    else return .ok (taken, .exact)

def applyEdit (form : Form) (original oldString newString : Text) (replaceAll : Bool) :
    Option EditOutcome :=
  if oldString.isEmpty then some .emptyNeedle
  else do
    let replacement := (LineEnding.detect original).apply newString
    match ← editRanges form original oldString replaceAll with
    | .error outcome => return outcome
    | .ok (ranges, tier) => do
        let (rewritten, count) ← spliceRanges original ranges replacement
        return .applied rewritten count tier

end Frona.Tool
