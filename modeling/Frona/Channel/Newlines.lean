import Frona.Channel.Markdown
import Frona.Machine.Squeeze

set_option autoImplicit false

namespace Frona.Channel

open Utf8 (Text)
open Squeeze (RunsBelow squeeze surplus trailing)

section Loops

structure Collapsed where
  body : Text := []
  consecutiveNewlines : Nat := 0

-- The counter is a `u8`; there is no result when it overflows.
def collapseChar (c : Collapsed) (ch : Char) : Option Collapsed :=
  if ch = '\n' then
    if c.consecutiveNewlines + 1 < 2 ^ 8 then
      some ⟨if c.consecutiveNewlines + 1 ≤ 2 then c.body ++ [ch] else c.body,
        c.consecutiveNewlines + 1⟩
    else none
  else some ⟨c.body ++ [ch], 0⟩

def collapseNewlines (trimmed : Text) : Option Text :=
  (trimmed.foldlM collapseChar {}).map Collapsed.body

structure SignalCollapsed extends Collapsed where
  deltas : List Int := []
  runningDelta : Int := 0

-- Its delta is an `i32`.
def collapseSignalChar (c : SignalCollapsed) (ch : Char) : Option SignalCollapsed :=
  if ch = '\n' then
    if c.consecutiveNewlines + 1 < 2 ^ 8 then
      if c.consecutiveNewlines + 1 ≤ 2 then
        some { c with
          consecutiveNewlines := c.consecutiveNewlines + 1
          body := c.body ++ [ch]
          deltas := c.deltas ++ [c.runningDelta] }
      else if -2 ^ 31 ≤ c.runningDelta - 1 then
        some { c with
          consecutiveNewlines := c.consecutiveNewlines + 1
          runningDelta := c.runningDelta - 1
          deltas := c.deltas ++ [c.runningDelta - 1] }
      else none
    else none
  else
    some { c with
      consecutiveNewlines := 0
      body := c.body ++ [ch]
      deltas := c.deltas ++ List.replicate (lenUtf16 ch) c.runningDelta }

def collapseSignal (trimmed : Text) : Option SignalCollapsed := trimmed.foldlM collapseSignalChar {}

def toPlain (events : List Event) : Option Text := collapseNewlines (plainText events)

def toWhatsapp (events : List Event) : Option Text := collapseNewlines (whatsappText events)

end Loops

section Results

variable (text : Text)

/-- There is a result, without a third newline in a row, and with all else that was in the text. -/
def CollapsesNewlines (result : Option Text) : Prop :=
  ∃ body, result = some body ∧ ¬ List.replicate 3 '\n' <:+: body ∧
    body.filter (· ≠ '\n') = text.filter (· ≠ '\n')

/-- No run of newlines overflows the counter. -/
def RunsFit : Prop := ¬ List.replicate (2 ^ 8) '\n' <:+: text

variable {text}

theorem runsFit_iff : RunsFit text ↔ RunsBelow '\n' (2 ^ 8) 0 text := by
  rw [Squeeze.runsBelow_iff (by decide)]
  rfl

theorem squeeze_noThird : ¬ List.replicate 3 '\n' <:+: squeeze '\n' 2 0 text := by
  have := (Squeeze.runsBelow_iff (x := '\n') (n := 0) (by decide) _).mp
    (Squeeze.squeeze_runsBelow 2 0 text)
  exact this

theorem foldlM_collapseChar (c : Collapsed) (fits : RunsBelow '\n' (2 ^ 8) c.consecutiveNewlines text) :
    text.foldlM collapseChar c = some ⟨c.body ++ squeeze '\n' 2 c.consecutiveNewlines text,
      trailing '\n' c.consecutiveNewlines text⟩ := by
  induction text generalizing c with
  | nil => simp [squeeze, trailing]
  | cons ch rest ih =>
      rw [RunsBelow] at fits
      rw [List.foldlM_cons, collapseChar, squeeze, trailing]
      split
      next same =>
        rw [if_pos same] at fits
        rw [if_pos fits.1, Option.bind_eq_bind, Option.bind_some, ih _ fits.2]
        by_cases kept : c.consecutiveNewlines < 2
        · have : c.consecutiveNewlines + 1 ≤ 2 := kept
          simp [kept, this]
        · have : ¬ c.consecutiveNewlines + 1 ≤ 2 := kept
          simp [kept, this]
      next other =>
        rw [if_neg other] at fits
        rw [Option.bind_eq_bind, Option.bind_some, ih _ fits]
        simp

theorem foldlM_collapseChar_none (c : Collapsed)
    (long : ¬ RunsBelow '\n' (2 ^ 8) c.consecutiveNewlines text) :
    text.foldlM collapseChar c = none := by
  induction text generalizing c with
  | nil => exact absurd trivial long
  | cons ch rest ih =>
      rw [RunsBelow] at long
      rw [List.foldlM_cons, collapseChar]
      split
      next same =>
        rw [if_pos same] at long
        split
        next fits =>
          rw [Option.bind_eq_bind, Option.bind_some]
          exact ih _ fun below => long ⟨fits, below⟩
        next => rfl
      next other =>
        rw [if_neg other] at long
        rw [Option.bind_eq_bind, Option.bind_some]
        exact ih _ long

theorem collapseNewlines_iff : CollapsesNewlines text (collapseNewlines text) ↔ RunsFit text := by
  rw [runsFit_iff]
  constructor
  · rintro ⟨body, run, -, -⟩
    by_contra long
    rw [collapseNewlines, foldlM_collapseChar_none {} long] at run
    simp at run
  · intro fits
    refine ⟨squeeze '\n' 2 0 text, ?_, squeeze_noThird, Squeeze.filter_squeeze 0 text⟩
    rw [collapseNewlines, foldlM_collapseChar {} fits]
    simp

end Results

section Signal

/-- The deltas of the units of a text that comes after `n` newlines and a delta. -/
def deltasOf : Nat → Int → Text → List Int
  | _, _, [] => []
  | n, delta, ch :: rest =>
      if ch = '\n' then
        if n < 2 then delta :: deltasOf (n + 1) delta rest
        else (delta - 1) :: deltasOf (n + 1) (delta - 1) rest
      else List.replicate (lenUtf16 ch) delta ++ deltasOf 0 delta rest

variable {text : Text}

theorem foldlM_collapseSignalChar (c : SignalCollapsed)
    (fits : RunsBelow '\n' (2 ^ 8) c.consecutiveNewlines text)
    (small : surplus '\n' 2 c.consecutiveNewlines text ≤ 2 ^ 31 + c.runningDelta) :
    text.foldlM collapseSignalChar c = some
      { body := c.body ++ squeeze '\n' 2 c.consecutiveNewlines text
        consecutiveNewlines := trailing '\n' c.consecutiveNewlines text
        deltas := c.deltas ++ deltasOf c.consecutiveNewlines c.runningDelta text
        runningDelta := c.runningDelta - surplus '\n' 2 c.consecutiveNewlines text } := by
  induction text generalizing c with
  | nil => simp [squeeze, trailing, surplus, deltasOf]
  | cons ch rest ih =>
      rw [RunsBelow] at fits
      rw [surplus] at small
      rw [List.foldlM_cons, collapseSignalChar, squeeze, trailing, surplus, deltasOf]
      by_cases same : ch = '\n'
      · rw [if_pos same] at fits small
        rw [if_pos same, if_pos fits.1]
        by_cases kept : c.consecutiveNewlines < 2
        · rw [if_pos kept] at small
          have : c.consecutiveNewlines + 1 ≤ 2 := kept
          rw [if_pos this, Option.bind_eq_bind, Option.bind_some, ih _ fits.2 (by simpa using small)]
          simp [same, kept]
        · rw [if_neg kept] at small
          have : ¬ c.consecutiveNewlines + 1 ≤ 2 := kept
          rw [if_neg this, if_pos (by omega), Option.bind_eq_bind, Option.bind_some,
            ih _ fits.2 (by push_cast at small ⊢; omega)]
          simp [same, kept]
          omega
      · rw [if_neg same] at fits small
        rw [if_neg same, Option.bind_eq_bind, Option.bind_some, ih _ fits small]
        simp [same]

-- The delta only falls, so that what overflows it is the number of newlines that are dropped.
theorem foldlM_collapseSignalChar_some {c result : SignalCollapsed} (low : -2 ^ 31 ≤ c.runningDelta)
    (run : text.foldlM collapseSignalChar c = some result) :
    RunsBelow '\n' (2 ^ 8) c.consecutiveNewlines text ∧
      surplus '\n' 2 c.consecutiveNewlines text ≤ 2 ^ 31 + c.runningDelta := by
  induction text generalizing c with
  | nil => exact ⟨trivial, by simp only [surplus]; omega⟩
  | cons ch rest ih =>
      rw [List.foldlM_cons, collapseSignalChar] at run
      rw [RunsBelow, surplus]
      by_cases same : ch = '\n'
      · rw [if_pos same] at run
        rw [if_pos same, if_pos same]
        by_cases fits : c.consecutiveNewlines + 1 < 2 ^ 8
        · rw [if_pos fits] at run
          by_cases kept : c.consecutiveNewlines + 1 ≤ 2
          · rw [if_pos kept, Option.bind_eq_bind, Option.bind_some] at run
            obtain ⟨below, small⟩ := ih (by simpa using low) run
            have : c.consecutiveNewlines < 2 := kept
            exact ⟨⟨fits, below⟩, by simpa [this] using small⟩
          · rw [if_neg kept] at run
            by_cases room : -2 ^ 31 ≤ c.runningDelta - 1
            · rw [if_pos room, Option.bind_eq_bind, Option.bind_some] at run
              obtain ⟨below, small⟩ := ih (by simpa using room) run
              have : ¬ c.consecutiveNewlines < 2 := kept
              refine ⟨⟨fits, below⟩, ?_⟩
              rw [if_neg this]
              push_cast
              simp only at small
              omega
            · rw [if_neg room] at run
              simp at run
        · rw [if_neg fits] at run
          simp at run
      · rw [if_neg same, Option.bind_eq_bind, Option.bind_some] at run
        rw [if_neg same, if_neg same]
        exact ih (by simpa using low) run

theorem collapseSignal_iff :
    CollapsesNewlines text ((collapseSignal text).map fun c => c.body) ↔
      RunsFit text ∧ surplus '\n' 2 0 text ≤ 2 ^ 31 := by
  rw [runsFit_iff]
  constructor
  · rintro ⟨body, run, -, -⟩
    obtain ⟨result, done, -⟩ := Option.map_eq_some_iff.mp run
    obtain ⟨below, small⟩ := foldlM_collapseSignalChar_some (c := {}) (by decide) done
    exact ⟨below, Int.ofNat_le.mp (by simpa using small)⟩
  · rintro ⟨fits, small⟩
    refine ⟨squeeze '\n' 2 0 text, ?_, squeeze_noThird, Squeeze.filter_squeeze 0 text⟩
    have run := foldlM_collapseSignalChar {} fits (by simpa using Int.ofNat_le.mpr small)
    rw [collapseSignal, run]
    simp

end Signal

section Messages

def signalBody (events : List Event) : Option Text :=
  (collapseSignal (signalText events)).map fun c => c.body

/-- The newlines of a message are collapsed exactly when there are never 256 in a row, and for
Signal no more are dropped than a delta can count. -/
theorem newlinesCollapsed_iff (events : List Event) :
    (CollapsesNewlines (signalText events) (signalBody events) ↔
      RunsFit (signalText events) ∧ surplus '\n' 2 0 (signalText events) ≤ 2 ^ 31) ∧
    (CollapsesNewlines (whatsappText events) (toWhatsapp events) ↔ RunsFit (whatsappText events)) ∧
    (CollapsesNewlines (plainText events) (toPlain events) ↔ RunsFit (plainText events)) :=
  ⟨collapseSignal_iff, collapseNewlines_iff, collapseNewlines_iff⟩

-- A code block with 256 line ends between its two words.
def emptyLines : List Event :=
  [.opens .codeBlock, .text ('a' :: List.replicate 256 '\n' ++ ['b', '\n']), .closes .codeBlock]

theorem emptyLines_overflow :
    ¬ CollapsesNewlines (signalText emptyLines) (signalBody emptyLines) ∧
      ¬ CollapsesNewlines (whatsappText emptyLines) (toWhatsapp emptyLines) ∧
      ¬ CollapsesNewlines (plainText emptyLines) (toPlain emptyLines) := by
  have signal : signalBody emptyLines = none := by decide +kernel
  have whatsapp : toWhatsapp emptyLines = none := by decide +kernel
  have plain : toPlain emptyLines = none := by decide +kernel
  rw [signal, whatsapp, plain]
  simp [CollapsesNewlines]

end Messages

end Frona.Channel
