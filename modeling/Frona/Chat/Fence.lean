import Frona.Text.Utf8

set_option autoImplicit false

namespace Frona.Chat

open Utf8

def backtick : Char := Char.ofNat 0x60

structure BlockFence where
  marker : Char
  openLen : Nat
  deriving DecidableEq

structure FenceState where
  block : Option BlockFence := none
  inlineOpen : Option Nat := none
  deriving DecidableEq

section Scanner

def markerRun (marker : Char) (text : Text) : Nat := (text.takeWhile (· = marker)).length

def indent (line : Text) : Nat := markerRun ' ' line

def parseOpeningFence (line : Text) : Option BlockFence :=
  let trimmed := line.drop (indent line)
  if indent line > 3 then none
  else match trimmed.head? with
    | none => none
    | some marker =>
        let n := markerRun marker trimmed
        if marker ≠ backtick ∧ marker ≠ '~' then none
        else if n < 3 then none
        -- The info string of a backtick fence cannot itself contain backticks.
        else if marker = backtick ∧ backtick ∈ trimmed.drop n then none
        else some ⟨marker, n⟩

def isClosingFence (line : Text) (bf : BlockFence) : Bool :=
  let trimmed := line.drop (indent line)
  let n := markerRun bf.marker trimmed
  decide (indent line ≤ 3) && decide (bf.openLen ≤ n) &&
    (trimmed.drop n).all fun c => c = ' ' || c = '\t'

/-- A run of `n` backticks opens a span, or closes one that such a run has opened. -/
def endRun (inlineOpen : Option Nat) (n : Nat) : Option Nat :=
  if n = 0 then inlineOpen
  else match inlineOpen with
    | none => some n
    | some m => if m = n then none else some m

-- `run` counts the backticks just before the rest of the chunk.
def scanRun (inlineOpen : Option Nat) (run : Nat) : Text → Option Nat
  | [] => endRun inlineOpen run
  | c :: rest =>
      if c = backtick then scanRun inlineOpen (run + 1) rest
      else scanRun (endRun inlineOpen run) 0 rest

def scanInlineBackticks (chunk : Text) (inlineOpen : Option Nat) : Option Nat :=
  scanRun inlineOpen 0 chunk

/-- Reads one line; `scanned` is its part before the cursor. -/
def scanLine (state : FenceState) (line scanned : Text) : FenceState :=
  match state.block with
  | some bf => if isClosingFence line bf then { state with block := none } else state
  | none =>
      match parseOpeningFence line with
      | some bf => ⟨some bf, none⟩
      | none => { state with inlineOpen := scanInlineBackticks scanned state.inlineOpen }

-- Inline spans never cross newlines.
def endLine (state : FenceState) : FenceState :=
  if state.block.isNone then { state with inlineOpen := none } else state

def splitLines : Text → List Text × Text
  | [] => ([], [])
  | c :: rest =>
      let (lines, last) := splitLines rest
      if c = '\n' then ([] :: lines, last)
      else match lines with
        | [] => ([], c :: last)
        | line :: more => ((c :: line) :: more, last)

def scanLines (state : FenceState) (lines : List Text) : FenceState :=
  lines.foldl (fun state line => endLine (scanLine state line line)) state

def scan (entry : FenceState) (before after : Text) : FenceState :=
  let (lines, last) := splitLines before
  let state := scanLines entry lines
  if last = [] then state else scanLine state (last ++ after.takeWhile (· ≠ '\n')) last

@[simp] theorem scan_nil (entry : FenceState) (after : Text) : scan entry [] after = entry := rfl

/-- `none` when the cursor is inside a character. -/
def fenceDepthFrom (text : Text) (cursor : Nat) (entry : FenceState) : Option FenceState :=
  (splitAt text (min cursor (byteLength text))).map fun (before, after) =>
    scan entry before after

def fenceDepthAt (text : Text) (cursor : Nat) : Option FenceState := fenceDepthFrom text cursor {}

end Scanner

section Lines

theorem splitLines_append_newline (before after : Text) :
    splitLines (before ++ '\n' :: after) =
      ((splitLines before).1 ++ (splitLines before).2 :: (splitLines after).1,
        (splitLines after).2) := by
  induction before with
  | nil => simp [splitLines]
  | cons c rest ih =>
      simp only [List.cons_append, splitLines, ih]
      split
      · simp
      · cases lines : (splitLines rest).1 with
        | nil => simp
        | cons line more => simp

theorem splitLines_append_char (before : Text) (c : Char) (inline : c ≠ '\n') :
    splitLines (before ++ [c]) = ((splitLines before).1, (splitLines before).2 ++ [c]) := by
  induction before with
  | nil => simp [splitLines, inline]
  | cons head rest ih =>
      simp only [List.cons_append, splitLines, ih]
      split
      · simp
      · cases lines : (splitLines rest).1 with
        | nil => simp
        | cons line more => simp

theorem splitLines_line (line : Text) (inline : '\n' ∉ line) : splitLines line = ([], line) := by
  induction line with
  | nil => rfl
  | cons c rest ih =>
      simp only [List.mem_cons, not_or] at inline
      simp [splitLines, ih inline.2, Ne.symm inline.1]

end Lines

section Blocks

def stepBlock (block : Option BlockFence) (line : Text) : Option BlockFence :=
  match block with
  | some bf => if isClosingFence line bf then none else some bf
  | none => parseOpeningFence line

theorem scanLine_block (state : FenceState) (line scanned : Text) :
    (scanLine state line scanned).block = stepBlock state.block line := by
  unfold scanLine stepBlock
  cases block : state.block with
  | some bf => by_cases closing : isClosingFence line bf <;> simp [closing, block]
  | none => cases opening : parseOpeningFence line <;> simp

@[simp] theorem endLine_block (state : FenceState) : (endLine state).block = state.block := by
  unfold endLine
  split <;> rfl

theorem scanLines_block (state : FenceState) (lines : List Text) :
    (scanLines state lines).block = lines.foldl stepBlock state.block := by
  induction lines generalizing state with
  | nil => rfl
  | cons line rest ih =>
      simp only [scanLines, List.foldl_cons] at ih ⊢
      rw [ih, endLine_block, scanLine_block]

theorem scan_block (entry : FenceState) (before after : Text) :
    (scan entry before after).block =
      if (splitLines before).2 = [] then (splitLines before).1.foldl stepBlock entry.block
      else stepBlock ((splitLines before).1.foldl stepBlock entry.block)
        ((splitLines before).2 ++ after.takeWhile (· ≠ '\n')) := by
  simp only [scan]
  split
  · exact scanLines_block entry _
  · rw [scanLine_block, scanLines_block]

end Blocks

section Invariant

structure FenceState.WellFormed (state : FenceState) : Prop where
  openLen : ∀ bf, state.block = some bf → 3 ≤ bf.openLen
  marker : ∀ bf, state.block = some bf → bf.marker = backtick ∨ bf.marker = '~'
  literal : ∀ bf, state.block = some bf → state.inlineOpen = none

theorem parseOpeningFence_eq_some (line : Text) (bf : BlockFence)
    (opens : parseOpeningFence line = some bf) :
    indent line ≤ 3 ∧ (bf.marker = backtick ∨ bf.marker = '~') ∧ 3 ≤ bf.openLen ∧
      bf.openLen = markerRun bf.marker (line.drop (indent line)) ∧
      (bf.marker = backtick → backtick ∉ (line.drop (indent line)).drop bf.openLen) := by
  unfold parseOpeningFence at opens
  split at opens
  · cases opens
  · rename_i shallow
    dsimp only at opens
    split at opens
    · cases opens
    · rename_i marker _
      split_ifs at opens with other short info
      obtain rfl := Option.some.inj opens
      refine ⟨by omega, ?_, by simpa using short, rfl, by simpa using info⟩
      by_cases tick : marker = backtick
      · exact .inl tick
      · exact .inr (by simpa [tick] using other)

theorem scanLine_wellFormed (state : FenceState) (line scanned : Text)
    (ok : state.WellFormed) : (scanLine state line scanned).WellFormed := by
  unfold scanLine
  cases block : state.block with
  | some bf =>
      simp only
      split
      · exact ⟨by simp, by simp, by simp⟩
      · exact ok
  | none =>
      cases opening : parseOpeningFence line with
      | none => exact ⟨by simp, by simp, by simp⟩
      | some bf =>
          obtain ⟨-, marker, long, -⟩ := parseOpeningFence_eq_some line bf opening
          exact ⟨by simpa using long, by simpa using marker, by simp⟩

theorem endLine_wellFormed (state : FenceState) (ok : state.WellFormed) :
    (endLine state).WellFormed := by
  unfold endLine
  split
  · exact ⟨ok.openLen, ok.marker, fun _ _ => rfl⟩
  · exact ok

theorem scanLines_wellFormed (state : FenceState) (lines : List Text) (ok : state.WellFormed) :
    (scanLines state lines).WellFormed := by
  induction lines generalizing state with
  | nil => exact ok
  | cons line rest ih => exact ih _ (endLine_wellFormed _ (scanLine_wellFormed state line line ok))

theorem scan_wellFormed (entry : FenceState) (before after : Text) (ok : entry.WellFormed) :
    (scan entry before after).WellFormed := by
  simp only [scan]
  split
  · exact scanLines_wellFormed entry _ ok
  · exact scanLine_wellFormed _ _ _ (scanLines_wellFormed entry _ ok)

theorem wellFormed_initial : FenceState.WellFormed {} := ⟨by simp, by simp, by simp⟩

theorem scanLine_literal (state : FenceState) (line scanned : Text) (ok : state.WellFormed)
    (inside : state.block.isSome) : (scanLine state line scanned).inlineOpen = none := by
  obtain ⟨bf, block⟩ := Option.isSome_iff_exists.mp inside
  have literal := ok.literal bf block
  unfold scanLine
  rw [block]
  simp only
  split <;> exact literal

theorem endLine_literal (state : FenceState) (literal : state.inlineOpen = none) :
    (endLine state).inlineOpen = none := by
  unfold endLine
  split
  · rfl
  · exact literal

theorem scan_next_literal (entry : FenceState) (before : Text) (c : Char) (after : Text)
    (ok : entry.WellFormed) (inside : (scan entry before (c :: after)).block.isSome) :
    (scan entry (before ++ [c]) after).inlineOpen = none := by
  have linesOk := scanLines_wellFormed entry (splitLines before).1 ok
  by_cases newline : c = '\n'
  · subst newline
    have ended : scan entry (before ++ ['\n']) after =
        endLine (scanLine (scanLines entry (splitLines before).1) (splitLines before).2
          (splitLines before).2) := by
      simp [scan, splitLines_append_newline, splitLines, scanLines]
    rw [ended]
    by_cases empty : (splitLines before).2 = []
    · simp only [scan, empty, if_true] at inside
      exact endLine_literal _ (scanLine_literal _ _ _ linesOk inside)
    · simp only [scan, empty, if_false, ne_eq, List.takeWhile_cons, decide_not, Bool.not_true,
        decide_true, Bool.false_eq_true, List.append_nil] at inside
      apply endLine_literal
      obtain ⟨bf, block⟩ := Option.isSome_iff_exists.mp inside
      exact (scanLine_wellFormed _ _ _ linesOk).literal bf block
  · have line : scan entry (before ++ [c]) after =
        scanLine (scanLines entry (splitLines before).1)
          ((splitLines before).2 ++ [c] ++ after.takeWhile (· ≠ '\n'))
          ((splitLines before).2 ++ [c]) := by
      simp [scan, splitLines_append_char before c newline]
    rw [line]
    by_cases empty : (splitLines before).2 = []
    · simp only [scan, empty, if_true] at inside
      exact scanLine_literal _ _ _ linesOk inside
    · simp only [scan, empty, if_false] at inside
      rw [scanLine_block] at inside
      obtain ⟨bf, block⟩ := Option.isSome_iff_exists.mp inside
      apply (scanLine_wellFormed _ _ _ linesOk).literal bf
      rw [scanLine_block, ← block]
      simp [newline]

end Invariant

end Frona.Chat
