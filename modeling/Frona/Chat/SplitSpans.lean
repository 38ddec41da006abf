import Mathlib.Data.List.Induction
import Frona.Chat.CodeSpan
import Frona.Chat.SplitFits

set_option autoImplicit false

namespace Frona.Chat

open Utf8

section Spans

def Span (text : Text) (start stop : Nat) : Prop :=
  ∃ before n content after, CodeSpan before n content after ∧
    text = before ++ (spanText n content ++ after) ∧ byteLength before = start ∧
    byteLength before + byteLength (spanText n content) = stop

def ShortSpan (text : Text) (providerLimit start stop : Nat) : Prop :=
  Span text start stop ∧ stop ≤ start + providerLimit

def InSpan (text : Text) (providerLimit pos : Nat) : Prop :=
  ∃ start stop, ShortSpan text providerLimit start stop ∧ start < pos ∧ pos < stop

-- The scan of the text up to a position leaves no span open.
def Closed (text : Text) (pos : Nat) : Prop :=
  ∃ fence, fenceDepthAt text pos = some fence ∧ fence.inlineOpen = none

-- The scan that starts in this state finds no span open at the position.
def ReadsClosed (text : Text) (state : SplitState) (pos : Nat) : Prop :=
  state.cursor ≤ pos ∧ ∃ rest fence, sliceFrom text state.cursor = some rest ∧
    fenceDepthFrom rest (pos - state.cursor) state.entry = some fence ∧ fence.inlineOpen = none

def Spared (text : Text) (state : SplitState) (boundary start stop : Nat) : Prop :=
  (∃ pos, stop ≤ pos ∧ pos ≤ boundary ∧ ReadsClosed text state pos) ∨
    state.cursor < start ∧
      (∀ pos, start < pos → pos < stop → pos ≤ boundary → ¬ ReadsClosed text state pos) ∧
      (boundary < stop → ∃ pos ≤ start, ReadsClosed text state pos)

/-- Where the rest of the text does not fit in one chunk, the short spans that begin in it before
the boundary are spared. -/
def SpansClear (text : Text) (providerLimit : Nat) (state : SplitState) : Prop :=
  ∀ rest, sliceFrom text state.cursor = some rest →
    let prefixed := byteLength (openFenceMarker state.entry.block)
    let boundary := state.cursor + findBoundary rest (providerLimit - prefixed)
    providerLimit < byteLength rest + prefixed →
    ∀ start stop, ShortSpan text providerLimit start stop → state.cursor ≤ start →
      start < boundary → Spared text state boundary start stop

/-- No cut between two chunks is inside a short span. -/
def SpansWhole (text : Text) (providerLimit : Nat) (chunks : List Chunk) : Prop :=
  ∀ front later, chunks = front ++ later →
    ¬ InSpan text providerLimit (byteLength (front.flatMap Chunk.body))

variable {text : Text} {providerLimit start stop : Nat}

theorem closed_iff (before after : Text) :
    Closed (before ++ after) (byteLength before) ↔ (scan {} before after).inlineOpen = none := by
  simp [Closed, fenceDepthAt, fenceDepthFrom_append]

theorem Span.facts (span : Span text start stop) :
    Closed text start ∧ Closed text stop ∧ start + 1 < stop ∧ stop ≤ byteLength text := by
  obtain ⟨before, n, content, after, span, rfl, rfl, rfl⟩ := span
  have positive := span.opens
  have filled := Nat.pos_of_ne_zero ((byteLength_eq_zero content).not.mpr span.nonempty)
  refine ⟨?_, ?_, ?_, ?_⟩
  · rw [closed_iff, show spanText n content ++ after =
      ticks n ++ (content ++ (ticks n ++ after)) by simp [spanText], span.outside]
  · have last := span.closed
    rw [← closed_iff] at last
    simpa using last
  · simp only [spanText, byteLength_append, ticks_byteLength]
    omega
  · simp only [byteLength_append]
    omega

theorem Span.block (span : Span text start stop) (left right : Text) (same : text = left ++ right)
    (above : start ≤ byteLength left) (below : byteLength left < stop) :
    (scan {} left right).block = none := by
  obtain ⟨before, n, content, after, span, whole, rfl, rfl⟩ := span
  obtain ⟨part, rfl, split⟩ := exists_between before _ left right (whole.symm.trans same) above
  obtain ⟨rest, contentIs, rightIs⟩ := exists_between part right (spanText n content) after
    split.symm (by
      rw [byteLength_append] at below
      omega)
  rw [rightIs]
  exact span.block_part part rest contentIs

theorem Span.boundary (span : Span text start stop) :
    IsBoundary text start ∧ IsBoundary text (start + 1) := by
  obtain ⟨before, n, content, after, span, rfl, rfl, rfl⟩ := span
  obtain ⟨m, rfl⟩ := Nat.exists_eq_succ_of_ne_zero span.opens.ne'
  refine ⟨⟨before, _, rfl, rfl⟩, ⟨before ++ [backtick], ticks m ++ (content ++ ticks (m + 1)) ++ after,
    ?_, ?_⟩⟩
  · simp [spanText, ticks, List.replicate_succ]
  · simp [show backtick.utf8Size = 1 from rfl]

end Spans

section Round

variable {text : Text} {providerLimit : Nat} {state : SplitState} {before rest : Text}

theorem Located.readsClosed_iff (located : Located text state before rest) (head tail : Text)
    (same : rest = head ++ tail) :
    ReadsClosed text state (state.cursor + byteLength head) ↔
      (scan state.entry head tail).inlineOpen = none := by
  have offset : state.cursor + byteLength head - state.cursor = byteLength head := by omega
  simp [ReadsClosed, located.sliceFrom, same, offset, fenceDepthFrom_append]

theorem Located.readsClosed_split (located : Located text state before rest) {pos : Nat}
    (closed : ReadsClosed text state pos) (below : pos ≤ state.cursor + byteLength rest) :
    ∃ head tail, rest = head ++ tail ∧ state.cursor + byteLength head = pos ∧
      (scan state.entry head tail).inlineOpen = none := by
  obtain ⟨above, other, fence, sliced, found, none⟩ := closed
  obtain rfl := Option.some.inj (located.sliceFrom.symm.trans sliced)
  obtain ⟨head, tail, same, size, rfl⟩ := fenceDepthFrom_eq_some rest _ _ fence (by omega) found
  exact ⟨head, tail, same, by omega, none⟩

theorem Located.readsClosed_cursor (located : Located text state before rest) {stop : Nat}
    (span : Span text state.cursor stop) : ReadsClosed text state state.cursor := by
  have closed := span.facts.1
  rw [located.cursor, located.whole, closed_iff, ← located.entry] at closed
  exact (located.readsClosed_iff [] rest rfl).mpr closed

inductive Moves (text : Text) (state : SplitState) (boundary next : Nat) : Prop where
  | there (here : ReadsClosed text state boundary) (same : next = boundary)
  | stuck (opens : ∀ pos ≤ boundary, ¬ ReadsClosed text state pos) (same : next = boundary)
  | back (here : ReadsClosed text state next) (above : state.cursor < next) (below : next < boundary)
      (opens : ∀ pos, next < pos → pos ≤ boundary → ¬ ReadsClosed text state pos)
  | forced (here : ReadsClosed text state state.cursor) (inside : next ≤ boundary)
      (opens : ∀ pos, state.cursor < pos → pos ≤ boundary → ¬ ReadsClosed text state pos)
      (first : ∀ pos, IsBoundary text pos → state.cursor < pos → next ≤ pos)

theorem Moves.next_le {boundary next : Nat} (moves : Moves text state boundary next) :
    next ≤ boundary := by
  cases moves with
  | there here same => exact same.le
  | stuck opens same => exact same.le
  | back here above below opens => exact below.le
  | forced here inside opens first => exact inside

theorem Moves.not_spared {boundary next start stop : Nat} (moves : Moves text state boundary next)
    (forward : state.cursor < next) (span : Span text start stop) (above : start < next)
    (below : next < stop) : ¬ Spared text state boundary start stop := by
  have reach := moves.next_le
  rintro (⟨pos, past, within, closed⟩ | ⟨after, inner, earlier⟩)
  · cases moves with
    | there here same => omega
    | stuck opens same => exact opens pos within closed
    | back here _ _ opens => exact opens pos (by omega) within closed
    | forced here inside opens first => exact opens pos (by omega) within closed
  · cases moves with
    | there here same => exact inner boundary (by omega) (by omega) le_rfl here
    | stuck opens same =>
        obtain ⟨pos, low, closed⟩ := earlier (by omega)
        exact opens pos (by omega) closed
    | back here _ _ opens => exact inner next above below reach here
    | forced here inside opens first =>
        have := first start span.boundary.1 after
        omega

theorem Moves.spared {boundary next start stop : Nat} (moves : Moves text state boundary next)
    (located : Located text state before rest) (forward : state.cursor < next)
    (span : Span text start stop) (begins : state.cursor ≤ start) (below : start < boundary)
    (outside : next ≤ start ∨ stop ≤ next) : Spared text state boundary start stop := by
  obtain ⟨-, -, long, -⟩ := span.facts
  cases moves with
  | there here same => exact .inl ⟨boundary, by omega, le_rfl, here⟩
  | stuck opens same =>
      have later : state.cursor < start := by
        by_contra starts
        obtain rfl : state.cursor = start := by omega
        exact opens _ below.le (located.readsClosed_cursor span)
      exact .inr ⟨later, fun pos _ _ within => opens pos within, fun inside => by omega⟩
  | back here above before_ opens =>
      rcases outside with early | late
      · exact .inr ⟨by omega, fun pos past _ within => opens pos (by omega) within,
          fun _ => ⟨next, early, here⟩⟩
      · exact .inl ⟨next, late, before_.le, here⟩
  | forced here inside opens first =>
      -- The first character of the chunk ends no later than the first backtick of the span.
      have short := first (start + 1) span.boundary.2 (by omega)
      have later : state.cursor < start := by omega
      exact .inr ⟨later, fun pos past _ within => opens pos (by omega) within,
        fun _ => ⟨state.cursor, later.le, here⟩⟩

variable {head tail body after : Text}

theorem Choice.opens (located : Located text state before rest)
    (choice : Choice (fun _ cut => cut) providerLimit state rest head tail body after)
    (within : (scan state.entry head tail).inlineOpen.isSome) (low : Nat)
    (earlier : ∀ left right, rest = left ++ right → low ≤ state.cursor + byteLength left →
      byteLength left < byteLength head → (scan state.entry left right).inlineOpen.isSome)
    (pos : Nat) (above : low ≤ pos) (below : pos ≤ state.cursor + byteLength head) :
    ¬ ReadsClosed text state pos := by
  intro closed
  have headLe : byteLength head ≤ byteLength rest := by rw [choice.candidate]; simp
  obtain ⟨left, right, split, size, none⟩ := located.readsClosed_split closed (by omega)
  rcases Nat.lt_or_ge (byteLength left) (byteLength head) with less | final
  · have := earlier left right split (by omega) less
    simp [none] at this
  · obtain ⟨rfl, rfl⟩ := append_inj_of_length left right head tail
      (split.symm.trans choice.candidate) (by omega)
    simp [none] at within

theorem Choice.moves (located : Located text state before rest)
    (choice : Choice (fun _ cut => cut) providerLimit state rest head tail body after)
    (nonempty : body ≠ []) :
    Moves text state (state.cursor + byteLength head) (state.cursor + byteLength body) := by
  have positive := Nat.pos_of_ne_zero ((byteLength_eq_zero body).not.mpr nonempty)
  have inside : byteLength head ≤ byteLength rest := by rw [choice.candidate]; simp
  cases choice.cut with
  | candidate outside same _ =>
      exact .there ((located.readsClosed_iff head tail choice.candidate).mpr outside) (by rw [same])
  | inside within same _ stuck =>
      have spec := backtrackToSafe_spec rest state.entry (byteLength head) inside
      rw [stuck] at spec
      refine .stuck (fun pos below => ?_) (by rw [same])
      exact choice.opens located within 0 (fun left right split _ less =>
        spec left right split less) pos (Nat.zero_le pos) below
  | back within safe safeBelow found size _ =>
      have spec := backtrackToSafe_spec rest state.entry (byteLength head) inside
      rw [found] at spec
      obtain ⟨-, ⟨left, right, split, rfl, outside⟩, between⟩ := spec
      have here := (located.readsClosed_iff left right split).mpr outside
      have safeIs : byteLength body = byteLength left := size
      rw [safeIs] at positive ⊢
      refine .back here (by omega) (by omega) (fun pos above below => ?_)
      exact choice.opens located within (state.cursor + byteLength left + 1)
        (fun other more whole above less => between other more whole (by omega) less) pos above
        below

theorem Choice.moves_forced (located : Located text state before rest)
    (choice : Choice (fun _ cut => cut) providerLimit state rest head tail [] rest)
    (nonempty : head ≠ []) (first : Char) (more : Text) (same : rest = first :: more) :
    Moves text state (state.cursor + byteLength head) (state.cursor + first.utf8Size) := by
  have inside : byteLength head ≤ byteLength rest := by rw [choice.candidate]; simp
  cases choice.cut with
  | candidate _ empty _ => exact absurd empty.symm nonempty
  | inside _ empty _ _ => exact absurd empty.symm nonempty
  | back within safe _ found size _ =>
      have spec := backtrackToSafe_spec rest state.entry (byteLength head) inside
      rw [found] at spec
      obtain ⟨-, ⟨left, right, split, start, outside⟩, between⟩ := spec
      have empty : byteLength left = 0 := start.trans size.symm
      have here := (located.readsClosed_iff left right split).mpr outside
      rw [empty, Nat.add_zero] at here
      refine .forced here ?_ (fun pos above below => ?_) fun pos boundary above => ?_
      · obtain ⟨c, others, headIs⟩ := List.exists_cons_of_ne_nil nonempty
        have whole := choice.candidate
        rw [same, headIs, List.cons_append] at whole
        rw [headIs, (List.cons.inj whole).1, byteLength_cons]
        omega
      · exact choice.opens located within (state.cursor + 1)
          (fun left right split above less => between left right split (by omega) less) pos above
          below
      · obtain ⟨left, right, split, size⟩ := boundary
        rw [located.cursor, ← size] at above ⊢
        exact next_le_boundary before rest left right first more
          (located.whole.symm.trans split) above same

theorem spansClear_iff (located : Located text state before rest)
    (choice : Choice (fun _ cut => cut) providerLimit state rest head tail body after) :
    SpansClear text providerLimit state ↔
      ∀ start stop, ShortSpan text providerLimit start stop → state.cursor ≤ start →
        start < state.cursor + byteLength head →
        Spared text state (state.cursor + byteLength head) start stop := by
  have boundary := choice.size
  have long := choice.long
  simp only [SpansClear, located.sliceFrom, Option.some.injEq, forall_eq', ← boundary, long,
    forall_true_left]

theorem moved_spans_iff (located : Located text state before rest)
    (choice : Choice (fun _ cut => cut) providerLimit state rest head tail body after)
    (apart : ¬ InSpan text providerLimit state.cursor) (next : Nat) (forward : state.cursor < next)
    (moves : Moves text state (state.cursor + byteLength head) next) :
    ¬ InSpan text providerLimit next ↔ SpansClear text providerLimit state := by
  rw [spansClear_iff located choice]
  constructor
  · intro outside start stop short begins below
    refine moves.spared located forward short.1 begins below ?_
    by_contra cuts
    exact outside ⟨start, stop, short, by omega, by omega⟩
  · rintro clear ⟨start, stop, short, above, below⟩
    have begins : state.cursor ≤ start := by
      by_contra before
      exact apart ⟨start, stop, short, by omega, by omega⟩
    have reach := moves.next_le
    exact moves.not_spared forward short.1 above below
      (clear start stop short begins (by omega))

theorem forced_spans_iff (large : 16 ≤ providerLimit) (located : Located text state before rest)
    (choice : Choice (fun _ cut => cut) providerLimit state rest [] tail [] rest)
    (first : Char) (more : Text) (same : rest = first :: more) :
    ¬ InSpan text providerLimit (state.cursor + first.utf8Size) ↔
      SpansClear text providerLimit state := by
  have tight := mt ((choice.head_le (by simp [same])).2 first (by simp [same])) (by simp)
  have small := first.utf8Size_le_four
  have inBlock : state.entry.block ≠ none := by
    intro none
    rw [none] at tight
    simp only [openFenceMarker, byteLength_nil] at tight
    omega
  constructor
  · intro _
    rw [spansClear_iff located choice]
    intro start stop _ begins below
    simp only [byteLength_nil, Nat.add_zero] at below
    omega
  · rintro _ ⟨start, stop, ⟨span, -⟩, late, early⟩
    by_cases begins : start ≤ state.cursor
    · have outside := span.block before rest located.whole (located.cursor ▸ begins)
        (by rw [← located.cursor]; omega)
      rw [← located.entry] at outside
      exact inBlock outside
    · obtain ⟨⟨left, right, split, size⟩, -⟩ := span.boundary
      have := next_le_boundary before rest left right first more (located.whole.symm.trans split)
        (by rw [size, ← located.cursor]; omega) same
      rw [size, ← located.cursor] at this
      omega

theorem round_spans_iff {chunk : Chunk} (large : 16 ≤ providerLimit)
    (located : Located text state before rest) (apart : ¬ InSpan text providerLimit state.cursor)
    (round : Round (fun _ cut => cut) providerLimit state rest chunk body after) :
    ¬ InSpan text providerLimit (byteLength before + byteLength chunk.body) ↔
      SpansClear text providerLimit state := by
  rw [← located.cursor]
  cases round with
  | final fits =>
      have total : byteLength text = state.cursor + byteLength rest := by
        rw [located.whole, byteLength_append, located.cursor]
      constructor
      · intro _ other sliced prefixed boundary long
        rw [located.sliceFrom] at sliced
        obtain rfl := Option.some.inj sliced
        exact absurd fits (Nat.not_le.mpr long)
      · rintro _ ⟨start, stop, ⟨span, -⟩, _, early⟩
        obtain ⟨-, -, -, inside⟩ := span.facts
        simp only at early
        omega
  | forced head tail first _ same choice =>
      have forward := first.utf8Size_pos
      simp only [byteLength_cons, byteLength_nil, Nat.add_zero]
      by_cases stays : head = []
      · subst stays
        exact forced_spans_iff large located choice first after same
      · exact moved_spans_iff located choice apart _ (by omega)
          (choice.moves_forced located stays first after same)
  | cut head tail body after filled choice =>
      have forward := Nat.pos_of_ne_zero ((byteLength_eq_zero body).not.mpr filled)
      exact moved_spans_iff located choice apart _ (by simp only; omega)
        (choice.moves located filled)

end Round

section Splitter

variable {text : Text} {providerLimit : Nat}

theorem spansWhole_iff_rounds {chunks : List Chunk} :
    SpansWhole text providerLimit chunks ↔ ∀ front chunk later, chunks = front ++ chunk :: later →
      ¬ InSpan text providerLimit (byteLength (front.flatMap Chunk.body)) →
      ¬ InSpan text providerLimit
        (byteLength (front.flatMap Chunk.body) + byteLength chunk.body) := by
  constructor
  · intro whole front chunk later same _
    have here := whole (front ++ [chunk]) later (by simp [same])
    simpa using here
  · intro each front later same
    induction front using List.reverseRecOn generalizing later with
    | nil =>
        rintro ⟨start, stop, _, late, _⟩
        simp at late
    | append_singleton front chunk ih =>
        have before := ih (chunk :: later) (by simp [same])
        have here := each front chunk later (by simp [same]) before
        simpa using here

/-- Short spans are kept whole exactly when every state that a chunk starts in spares them. -/
theorem spansWhole_iff (text : Text) (providerLimit : Nat) (large : 16 ≤ providerLimit) :
    (∃ chunks, splitMarkdownAware text providerLimit = some chunks ∧
        SpansWhole text providerLimit chunks) ↔
      ∀ state, Reached (fun _ cut => cut) text providerLimit state →
        SpansClear text providerLimit state := by
  obtain ⟨chunks, run, rounds⟩ := splitChunks_rounds adjusts_id text providerLimit
  have starts := rounds.forall_iff (fun before _ _ => ¬ InSpan text providerLimit (byteLength before))
    (fun state => ¬ InSpan text providerLimit state.cursor)
    fun state before rest chunk body after later _ located _ _ _ _ => by rw [located.cursor]
  have cuts := rounds.forall_iff
    (fun before chunk _ => ¬ InSpan text providerLimit (byteLength before) →
      ¬ InSpan text providerLimit (byteLength before + byteLength chunk.body))
    (fun state => ¬ InSpan text providerLimit state.cursor → SpansClear text providerLimit state)
    fun state before rest chunk body after later _ located _ round _ _ => by
      rw [← located.cursor]
      refine forall_congr' fun apart => ?_
      rw [located.cursor]
      exact round_spans_iff large located apart round
  simp only [List.nil_append] at starts cuts
  have split : splitMarkdownAware text providerLimit = some chunks := run
  simp only [split, Option.some.injEq, exists_eq_left']
  constructor
  · intro whole state reached
    have apart := starts.mp (fun front chunk later same => whole front (chunk :: later) same)
    exact cuts.mp (spansWhole_iff_rounds.mp whole) state reached.1 reached.2
      (apart state reached.1 reached.2)
  · intro clear
    exact spansWhole_iff_rounds.mpr
      (cuts.mpr fun state steps inside _ => clear state ⟨steps, inside⟩)

-- A boundary inside a span that does not start its chunk.
def spanLater : Text := "aaaa bbbb ".toList ++ (spanText 1 "cc dd".toList ++ " eeee".toList)

theorem spansWhole_iff_spanLater :
    (∃ chunks, splitMarkdownAware spanLater 16 = some chunks ∧ SpansWhole spanLater 16 chunks) ↔
      ∀ state, Reached (fun _ cut => cut) spanLater 16 state → SpansClear spanLater 16 state :=
  spansWhole_iff spanLater 16 (le_refl 16)

-- The same boundary, in a span that starts the text.
def spanFirst : Text := spanText 1 "aaa bbb".toList ++ List.replicate 20 'c'

theorem spanFirst_short : ShortSpan spanFirst 16 0 9 := by
  refine ⟨⟨[], 1, "aaa bbb".toList, List.replicate 20 'c', ?_, rfl, rfl, by decide⟩, by decide⟩
  refine ⟨by decide, by decide, rfl, by decide, by decide, by decide, by decide, ?_, by decide⟩
  rintro left k right same - - rfl
  have tick : backtick ∈ "aaa bbb".toList := by simp [same, ticks]
  exact absurd tick (by decide)

theorem span_cut_after_its_backtick : ¬ ∀ text providerLimit, 16 ≤ providerLimit →
    ∃ chunks, splitMarkdownAware text providerLimit = some chunks ∧
      SpansWhole text providerLimit chunks := by
  intro claim
  obtain ⟨chunks, run, whole⟩ := claim spanFirst 16 (le_refl 16)
  have split : splitMarkdownAware spanFirst 16 = some
      [⟨[], [backtick], []⟩, ⟨[], "aaa ".toList, []⟩,
        ⟨[], "bbb".toList ++ [backtick] ++ List.replicate 12 'c', []⟩,
        ⟨[], List.replicate 8 'c', []⟩] := by decide
  rw [split] at run
  obtain rfl := Option.some.inj run
  exact whole [⟨[], [backtick], []⟩] _ rfl ⟨0, 9, spanFirst_short, by decide, by decide⟩

end Splitter

end Frona.Chat
