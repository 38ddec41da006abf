import Frona.Chat.SplitBlocks

set_option autoImplicit false

namespace Frona.Chat

open Utf8

section Scanner

def ticks (n : Nat) : Text := List.replicate n backtick

theorem ticks_byteLength (n : Nat) : byteLength (ticks n) = n := by
  induction n with
  | zero => rfl
  | succ n ih =>
      rw [ticks, List.replicate_succ, byteLength_cons, ← ticks, ih,
        show backtick.utf8Size = 1 from rfl]
      omega

theorem ticks_inline (n : Nat) : '\n' ∉ ticks n := by
  intro member
  exact absurd (List.eq_of_mem_replicate member) (by decide)

-- What the scanner knows inside a chunk: the open span, and the run of backticks that it is in.
def scanCells (inlineOpen : Option Nat) (run : Nat) : Text → Option Nat × Nat
  | [] => (inlineOpen, run)
  | c :: rest =>
      if c = backtick then scanCells inlineOpen (run + 1) rest
      else scanCells (endRun inlineOpen run) 0 rest

theorem scanRun_eq (inlineOpen : Option Nat) (run : Nat) (text : Text) :
    scanRun inlineOpen run text =
      endRun (scanCells inlineOpen run text).1 (scanCells inlineOpen run text).2 := by
  induction text generalizing inlineOpen run with
  | nil => rfl
  | cons c rest ih =>
      simp only [scanRun, scanCells]
      split
      · exact ih inlineOpen (run + 1)
      · exact ih (endRun inlineOpen run) 0

theorem scanCells_append (inlineOpen : Option Nat) (run : Nat) (left right : Text) :
    scanCells inlineOpen run (left ++ right) =
      scanCells (scanCells inlineOpen run left).1 (scanCells inlineOpen run left).2 right := by
  induction left generalizing inlineOpen run with
  | nil => rfl
  | cons c rest ih =>
      simp only [List.cons_append, scanCells]
      split
      · exact ih inlineOpen (run + 1)
      · exact ih (endRun inlineOpen run) 0

theorem scanCells_ticks (inlineOpen : Option Nat) (run n : Nat) :
    scanCells inlineOpen run (ticks n) = (inlineOpen, run + n) := by
  induction n generalizing run with
  | zero => rfl
  | succ n ih =>
      rw [ticks, List.replicate_succ, scanCells, if_pos rfl, ← ticks, ih]
      simp [Nat.add_comm, Nat.add_left_comm]

theorem scanCells_run (inlineOpen : Option Nat) (text : Text)
    (ended : text.getLast? ≠ some backtick) : (scanCells inlineOpen 0 text).2 = 0 := by
  rcases List.eq_nil_or_concat text with rfl | ⟨init, c, rfl⟩
  · rfl
  · have other : c ≠ backtick := by simpa using ended
    rw [List.concat_eq_append, scanCells_append, scanCells, if_neg other]
    rfl

theorem scanCells_inside (n run : Nat) (read text : Text) (ended : read.getLast? ≠ some backtick)
    (apart : ∀ left k right, read ++ (ticks run ++ text) = left ++ (ticks k ++ right) →
      left.getLast? ≠ some backtick → right.head? ≠ some backtick → k ≠ n) :
    (scanCells (some n) run text).1 = some n := by
  induction text generalizing read run with
  | nil => rfl
  | cons c rest ih =>
      unfold scanCells
      split
      next tick =>
        have longer : ticks run ++ c :: rest = ticks (run + 1) ++ rest := by
          rw [ticks, ticks, List.replicate_succ', tick]
          simp
        apply ih (run + 1) read ended
        rwa [longer] at apart
      next other =>
        have kept : endRun (some n) run = some n := by
          have differs := apart read run (c :: rest) rfl ended (by simpa using other)
          simp [endRun, Ne.symm differs]
        rw [kept]
        apply ih 0 (read ++ (ticks run ++ [c])) (by simp [other])
        simpa [ticks] using apart

example : (scanCells (some 2) 0 ['a', backtick, 'b']).1 = some 2 := by decide +kernel

end Scanner

section Span

structure CodeSpan (before : Text) (n : Nat) (content after : Text) : Prop where
  opens : 0 < n
  starts : before.getLast? ≠ some backtick
  outside : scan {} before (ticks n ++ (content ++ (ticks n ++ after))) = {}
  nonempty : content ≠ []
  line : '\n' ∉ content
  first : content.head? ≠ some backtick
  last : content.getLast? ≠ some backtick
  inner : ∀ left k right, content = left ++ (ticks k ++ right) →
    left.getLast? ≠ some backtick → right.head? ≠ some backtick → k ≠ n
  complete : after.head? ≠ some backtick

variable {before content after : Text} {n : Nat}

theorem splitLines_getLast (text : Text) (within : (splitLines text).2 ≠ []) :
    (splitLines text).2.getLast? = text.getLast? := by
  rcases List.eq_nil_or_concat text with rfl | ⟨init, c, rfl⟩
  · rfl
  · rw [List.concat_eq_append] at within ⊢
    by_cases newline : c = '\n'
    next =>
      simp [newline, splitLines_append_newline, splitLines] at within
    next =>
      rw [splitLines_append_char init c newline]
      simp

theorem splitLines_append_line (text line : Text) (inline : '\n' ∉ line) :
    splitLines (text ++ line) = ((splitLines text).1, (splitLines text).2 ++ line) := by
  induction line generalizing text with
  | nil => simp
  | cons c rest ih =>
      simp only [List.mem_cons, not_or] at inline
      have next := ih (text ++ [c]) inline.2
      rw [splitLines_append_char text c (Ne.symm inline.1)] at next
      simpa using next

theorem parseOpeningFence_span (positive : 0 < n) (first : content.head? ≠ some backtick)
    (some : content ≠ []) : parseOpeningFence (ticks n ++ (content ++ (ticks n ++ after))) = none := by
  by_contra opens
  obtain ⟨bf, opens⟩ := Option.ne_none_iff_exists'.mp opens
  obtain ⟨m, rfl⟩ := Nat.exists_eq_succ_of_ne_zero positive.ne'
  have flat : indent (ticks (m + 1) ++ (content ++ (ticks (m + 1) ++ after))) = 0 := by
    simp [indent, markerRun, ticks, List.replicate_succ, show ¬ backtick = ' ' by decide]
  obtain ⟨rest, head⟩ := parseOpeningFence_head _ bf opens
  obtain ⟨-, -, -, length, info⟩ := parseOpeningFence_eq_some _ bf opens
  rw [flat, List.drop_zero] at head length info
  have marker : backtick = bf.marker := by
    rw [ticks, List.replicate_succ] at head
    exact (List.cons.inj head).1
  obtain ⟨c, more, contentIs⟩ := List.exists_cons_of_ne_nil some
  have other : c ≠ backtick := by simpa [contentIs] using first
  have run : bf.openLen = m + 1 := by
    rw [length, ← marker, contentIs, markerRun, ticks, List.takeWhile_append_of_pos (by simp)]
    simp [other]
  have reaches := info marker.symm
  rw [run, List.drop_left' (by simp [ticks])] at reaches
  exact reaches (by simp [ticks])

def spanText (n : Nat) (content : Text) : Text := ticks n ++ (content ++ ticks n)

theorem CodeSpan.inline (span : CodeSpan before n content after) : '\n' ∉ spanText n content := by
  simp [spanText, ticks_inline, span.line]

-- The line of the span, as the scanner reads it.
def spanLine (before : Text) (n : Nat) (content after : Text) : Text :=
  (splitLines before).2 ++ (spanText n content ++ after.takeWhile (· ≠ '\n'))

theorem takeWhile_line (line after : Text) (inline : '\n' ∉ line) :
    (line ++ after).takeWhile (· ≠ '\n') = line ++ after.takeWhile (· ≠ '\n') := by
  apply List.takeWhile_append_of_pos
  intro c member
  simpa using fun same : c = '\n' => inline (same ▸ member)

theorem CodeSpan.line_state (span : CodeSpan before n content after) :
    (∀ scanned, scanLine (scanLines {} (splitLines before).1) (spanLine before n content after)
        scanned = {}) ∨
      (scanLines {} (splitLines before).1).block = none ∧
        parseOpeningFence (spanLine before n content after) = none ∧
        scanInlineBackticks (splitLines before).2
          (scanLines {} (splitLines before).1).inlineOpen = none := by
  have outside := span.outside
  have whole : ticks n ++ (content ++ (ticks n ++ after)) = spanText n content ++ after := by
    simp [spanText]
  rw [whole] at outside
  simp only [scan, takeWhile_line _ after span.inline] at outside
  change (if _ then _ else scanLine _ (spanLine before n content after) _) = _ at outside
  by_cases begins : (splitLines before).2 = []
  next =>
    have fresh : scanLines {} (splitLines before).1 = {} := by simpa [begins] using outside
    have plain : parseOpeningFence (spanLine before n content after) = none := by
      have closed : parseOpeningFence (ticks n ++
          (content ++ (ticks n ++ after.takeWhile (· ≠ '\n')))) = none :=
        parseOpeningFence_span span.opens span.first span.nonempty
      simpa [spanLine, spanText, begins] using closed
    exact .inr ⟨by rw [fresh], plain, by rw [fresh, begins]; rfl⟩
  next =>
    simp only [begins, if_false] at outside
    generalize scanLines {} (splitLines before).1 = state at outside ⊢
    generalize spanLine before n content after = line at outside ⊢
    cases block : state.block with
    | some bf =>
        -- The line closes the fence, whatever part of it is read.
        simp only [scanLine, block] at outside ⊢
        split at outside
        next closing => exact .inl fun scanned => by rw [if_pos closing, outside]
        next inside => rw [outside] at block; cases block
    | none =>
        simp only [scanLine, block] at outside
        cases opening : parseOpeningFence line with
        | some bf => simp [opening] at outside
        | none =>
            simp only [opening, FenceState.mk.injEq] at outside
            exact .inr ⟨rfl, rfl, outside.2⟩

theorem CodeSpan.scan_part (span : CodeSpan before n content after) (part rest : Text)
    (same : spanText n content = part ++ rest) (some : part ≠ []) :
    scan {} (before ++ part) (rest ++ after) =
      scanLine (scanLines {} (splitLines before).1) (spanLine before n content after)
        ((splitLines before).2 ++ part) := by
  have inline := span.inline
  rw [same, List.mem_append, not_or] at inline
  have line : (splitLines before).2 ++ part ++ (rest ++ after).takeWhile (· ≠ '\n') =
      spanLine before n content after := by
    rw [takeWhile_line rest after inline.2, spanLine, same]
    simp
  simp only [scan, splitLines_append_line before part inline.1, line, List.append_eq_nil_iff, some,
    and_false, if_false]

theorem CodeSpan.block_part (span : CodeSpan before n content after) (part rest : Text)
    (same : spanText n content = part ++ rest) :
    (scan {} (before ++ part) (rest ++ after)).block = none := by
  by_cases some : part = []
  next =>
    have outside := span.outside
    subst some
    rw [List.nil_append] at same
    rw [← same, List.append_nil, show spanText n content ++ after =
      ticks n ++ (content ++ (ticks n ++ after)) by simp [spanText], outside]
  next =>
    rw [span.scan_part part rest same some]
    rcases span.line_state with closed | ⟨outside, plain, -⟩
    · rw [closed]
    · simp [scanLine, outside, plain]

theorem CodeSpan.closed (span : CodeSpan before n content after) :
    (scan {} (before ++ spanText n content) after).inlineOpen = none := by
  have filled : spanText n content ≠ [] := by simp [spanText, span.nonempty]
  have read := span.scan_part (spanText n content) [] (by simp) filled
  rw [List.nil_append] at read
  rw [read]
  rcases span.line_state with closed | ⟨outside, plain, fresh⟩
  · rw [closed]
  · simp only [scanLine, outside, plain]
    rw [scanInlineBackticks, scanRun_eq, scanCells_append]
    rw [scanInlineBackticks, scanRun_eq] at fresh
    have ended : (splitLines before).2.getLast? ≠ some backtick := by
      by_cases begins : (splitLines before).2 = []
      · simp [begins]
      · rw [splitLines_getLast before begins]
        exact span.starts
    rw [scanCells_run _ _ ended] at fresh ⊢
    rw [show (scanCells (scanLines {} (splitLines before).1).inlineOpen 0
      (splitLines before).2).1 = none from fresh]
    -- The first run opens the span, the content leaves it open, and the last run closes it.
    obtain ⟨c, more, contentIs⟩ := List.exists_cons_of_ne_nil span.nonempty
    have other : c ≠ backtick := by simpa [contentIs] using span.first
    have opened : scanCells none n content = scanCells (some n) 0 content := by
      have positive := span.opens
      simp [contentIs, scanCells, other, endRun, positive.ne']
    have inside : scanCells (some n) 0 content = (some n, 0) := by
      have kept := scanCells_inside n 0 [] content (by simp) (by simpa [ticks] using span.inner)
      exact Prod.ext kept (scanCells_run _ _ span.last)
    have positive := span.opens
    rw [spanText, scanCells_append, scanCells_ticks, scanCells_append, Nat.zero_add]
    simp only [opened, inside, scanCells_ticks, Nat.zero_add, endRun, positive.ne', if_false, if_true]

end Span

end Frona.Chat
