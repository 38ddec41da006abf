import Frona.Text.Alignment
import Frona.Tool.Edit

set_option autoImplicit false

namespace Frona.Tool

open Utf8 Frona.Text

section Occurrences

def Occurs (haystack needle : Text) (start : Nat) : Prop :=
  ∃ before after, haystack = before ++ (needle ++ after) ∧ byteLength before = start

theorem Occurs.valid {haystack needle : Text} {start : Nat}
    (occurs : Occurs haystack needle start) :
    Range.Valid haystack ⟨start, start + byteLength needle⟩ := by
  obtain ⟨before, after, rfl, rfl⟩ := occurs
  exact ⟨Nat.le_add_right _ _, ⟨before, needle ++ after, rfl, rfl⟩,
    ⟨before ++ needle, after, by simp, by simp⟩⟩

theorem findAllFrom_occurs (haystack needle : Text) (nonempty : needle ≠ []) (fuel start : Nat)
    (hits : List Nat) (boundary : IsBoundary haystack start)
    (enough : byteLength haystack < start + fuel)
    (found : ∀ hit ∈ hits, Occurs haystack needle hit) :
    ∃ all, findAllFrom haystack needle fuel start hits = some all ∧
      ∀ hit ∈ all, Occurs haystack needle hit := by
  induction fuel generalizing start hits with
  | zero =>
      have := boundary.le
      omega
  | succ fuel ih =>
      obtain ⟨before, rest, rfl, rfl⟩ := boundary
      have sliced : sliceFrom (before ++ rest) (byteLength before) = some rest :=
        (sliceFrom_eq_some _ _ _).mpr ⟨before, rfl, rfl⟩
      unfold findAllFrom
      simp only [sliced]
      cases search : find rest needle with
      | none => exact ⟨hits, rfl, found⟩
      | some idx =>
          obtain ⟨skipped, after, rfl, rfl⟩ := find_eq_some rest needle idx search
          have positive : 0 < byteLength needle := by
            have := (byteLength_eq_zero needle).not.mpr nonempty
            omega
          apply ih
          · exact ⟨before ++ skipped ++ needle, after, by simp, by simp [Nat.add_assoc]⟩
          · omega
          · intro hit member
            rcases List.mem_append.mp member with member | member
            · exact found hit member
            · obtain rfl := List.mem_singleton.mp member
              exact ⟨before ++ skipped, after, by simp, by simp⟩

theorem findAll_occurs (haystack needle : Text) (nonempty : needle ≠ []) :
    ∃ all, findAll haystack needle = some all ∧ ∀ hit ∈ all, Occurs haystack needle hit :=
  findAllFrom_occurs haystack needle nonempty _ 0 [] (isBoundary_zero haystack) (by omega)
    (by simp)

theorem spliceRanges_isSome (original replacement : Text) (ranges : List Range)
    (valid : ∀ r ∈ ranges, r.Valid original) :
    ∃ result, spliceRanges original ranges replacement = some result := by
  have loop (state : SpliceState) (boundary : IsBoundary original state.cursor) :
      ∃ final, ranges.foldlM (spliceStep original replacement) state = some final ∧
        IsBoundary original final.cursor := by
    induction ranges generalizing state with
    | nil => exact ⟨state, rfl, boundary⟩
    | cons r rest ih =>
        have head := valid r (by simp)
        have tail := ih fun other member => valid other (by simp [member])
        rw [List.foldlM_cons]
        unfold spliceStep
        split
        · exact tail state boundary
        · obtain ⟨kept, sliced⟩ := Option.isSome_iff_exists.mp
            ((slice_isSome original state.cursor r.start).mpr ⟨by omega, boundary, head.start⟩)
          rw [sliced]
          exact tail _ head.stop
  obtain ⟨final, run, before, rest, same, size⟩ := loop ⟨[], 0, 0⟩ (isBoundary_zero original)
  have sliced : sliceFrom original final.cursor = some rest :=
    (sliceFrom_eq_some _ _ _).mpr ⟨before, same, size⟩
  exact ⟨_, by simp only [spliceRanges, run, sliced, Option.bind_eq_bind, Option.bind_some]; rfl⟩

end Occurrences

section Normalised

variable (form : Form) (inOrder : InOrder form)

def foldChar (c : Char) : Char :=
  NormalizedString.asciiSpace (NormalizedString.asciiDash (NormalizedString.asciiQuote c))

def formCells (text : Text) : List Cell :=
  (alignCells (0, 0) (sourceCells 0 text) (form text)).map fun cell =>
    ⟨foldChar cell.char, cell.span⟩

def normalCells (text : Text) : List Cell := collapseCells (formCells form text)

include inOrder in
theorem normalize_eq (text : Text) :
    normalize form (NormalizedString.fromStr text) = some (.ofCells text (normalCells form text)) := by
  have enough : totalConsumed (form (chars (sourceCells 0 text))) ≤ (sourceCells 0 text).length := by
    have size := congrArg List.length (chars_sourceCells 0 text)
    rw [chars, List.length_map] at size
    rw [chars_sourceCells, inOrder text, size]
  simp only [normalize, fromStr_eq, nfkc_eq form text _ enough, NormalizedString.asciiQuotes,
    NormalizedString.asciiDashes, NormalizedString.asciiSpaces, mapChars_eq,
    collapseWhitespaceRuns_eq, Option.bind_eq_bind, Option.bind_some, List.map_map,
    chars_sourceCells]
  rfl

def Sliceable (text : Text) (span : Span) : Prop := Range.Valid text ⟨span.1, span.2⟩

include inOrder in
theorem normalCells_aligned (text : Text) (P : Span → Prop)
    (closed : ∀ a b, P a → P b → a ≤ b → P (a.1, b.2)) (source : Aligned P (sourceCells 0 text))
    (start : P (0, 0) ∨ ∀ head ∈ (form text).head?, 0 < consumed head.2) :
    Aligned P (normalCells form text) := by
  have size := congrArg List.length (chars_sourceCells 0 text)
  rw [chars, List.length_map] at size
  have aligned := source.alignCells closed (form text) (0, 0)
    (fun cell _ => ⟨Nat.zero_le _, Nat.zero_le _⟩) (by rw [inOrder text, size]) start
  exact ((aligned.1.mapChars foldChar).collapseCells closed).1

include inOrder in
theorem normalCells_sliceable (text : Text) (small : byteLength text < 2 ^ 32) :
    Aligned (Sliceable text) (normalCells form text) := by
  apply normalCells_aligned form inOrder text (Sliceable text) (valid_merge text)
  · exact sourceCells_valid text small
  · exact .inl ⟨Nat.le_refl 0, isBoundary_zero text, isBoundary_zero text⟩

include inOrder in
theorem normalCells_nonempty (leads : Leads form) (text : Text)
    (small : byteLength text < 2 ^ 32) :
    Aligned (fun span => span.1 < span.2) (normalCells form text) := by
  apply normalCells_aligned form inOrder text
  · intro a b first _ below
    exact Nat.lt_of_lt_of_le first below.2
  · apply (sourceCells_aligned 0 text (by simpa using small)).imp
    rintro span ⟨before, c, after, rfl, rfl⟩
    have := c.utf8Size_pos
    simp only
    omega
  · exact .inr (leads text)

end Normalised

section Clamping

structure Stretch (cells : List Cell) (first last : Cell) : Prop where
  starts : ∃ rest, cells = first :: rest
  stops : ∃ init, cells = init ++ [last]

theorem exists_stretch (cells : List Cell) (nonempty : cells ≠ []) :
    ∃ first last, Stretch cells first last := by
  obtain ⟨first, rest, starts⟩ := List.exists_cons_of_ne_nil nonempty
  obtain ⟨init, last, stops⟩ := (List.eq_nil_or_concat cells).resolve_left nonempty
  exact ⟨first, last, ⟨rest, starts⟩, ⟨init, by rw [stops, List.concat_eq_append]⟩⟩

theorem Stretch.bounds {cells : List Cell} {first last : Cell} (stretch : Stretch cells first last)
    (ordered : cells.Pairwise fun c d => c.span ≤ d.span) :
    ∀ cell ∈ cells, first.span ≤ cell.span ∧ cell.span ≤ last.span := by
  obtain ⟨⟨rest, starts⟩, ⟨init, stops⟩⟩ := stretch
  intro cell member
  constructor
  · rw [starts, List.pairwise_cons] at ordered
    rw [starts] at member
    rcases List.mem_cons.mp member with rfl | member
    · exact le_refl _
    · exact ordered.1 cell member
  · rw [stops, List.pairwise_append] at ordered
    rw [stops] at member
    rcases List.mem_append.mp member with member | member
    · exact ordered.2.2 cell member last (by simp)
    · rw [List.mem_singleton.mp member]

theorem Stretch.first_mem {cells : List Cell} {first last : Cell}
    (stretch : Stretch cells first last) : first ∈ cells := by
  obtain ⟨rest, rfl⟩ := stretch.starts
  simp

theorem Stretch.last_mem {cells : List Cell} {first last : Cell}
    (stretch : Stretch cells first last) : last ∈ cells := by
  obtain ⟨init, rfl⟩ := stretch.stops
  simp

theorem spliceRangeOriginal_eq (original : Text) (before cells after : List Cell)
    (first last : Cell) (stretch : Stretch cells first last) :
    (NormalizedString.ofCells original (before ++ (cells ++ after))).spliceRangeOriginal
        ⟨byteLength (chars before), byteLength (chars before) + byteLength (chars cells)⟩ =
      some ⟨first.span.1, last.span.2⟩ := by
  obtain ⟨⟨rest, starts⟩, ⟨init, stops⟩⟩ := stretch
  have positive : 0 < byteLength (chars cells) := by
    have := first.char.utf8Size_pos
    rw [starts, chars_cons, byteLength_cons]
    omega
  have firstFound := spanTable_first before first (rest ++ after)
  rw [← List.cons_append, ← starts] at firstFound
  have lastFound := spanTable_last (before ++ init) last after
  have whole : before ++ init ++ last :: after = before ++ (cells ++ after) := by simp [stops]
  have position : byteLength (chars (before ++ init)) + last.char.utf8Size - 1 =
      byteLength (chars before) + byteLength (chars cells) - 1 := by
    simp [stops, Nat.add_assoc]
  rw [whole, position] at lastFound
  have inside : byteLength (chars before) + byteLength (chars cells) ≤
      (spanTable (before ++ (cells ++ after))).length := by simp
  simp only [NormalizedString.spliceRangeOriginal, NormalizedString.ofCells, firstFound,
    lastFound, Option.bind_eq_bind, Option.bind_some, Option.pure_def]
  rw [if_neg (by omega), if_neg (by omega), if_neg (by omega)]

theorem stretch_singleton (cell : Cell) : Stretch [cell] cell cell := ⟨⟨[], rfl⟩, ⟨[], rfl⟩⟩

theorem spliceRangeOriginal_blank (original : Text) (before after : List Cell) (cell : Cell)
    (blank : cell.char = ' ') :
    (NormalizedString.ofCells original (before ++ cell :: after)).spliceRangeOriginal
        ⟨byteLength (chars before), byteLength (chars before) + 1⟩ =
      some ⟨cell.span.1, cell.span.2⟩ := by
  have := spliceRangeOriginal_eq original before [cell] after cell cell (stretch_singleton cell)
  rwa [show byteLength (chars [cell]) = 1 by simp only [chars_cons, blank]; rfl] at this

def headCut (run : Span) (bytes : Nat) : Nat := run.2 - min bytes (run.2 - run.1)

def tailCut (run : Span) (bytes : Nat) : Nat := run.1 + min bytes (run.2 - run.1)

def cutStart (needle : Text) (first spelledFirst : Cell) : Nat :=
  if startsBlank needle then headCut first.span (spelledFirst.span.2 - spelledFirst.span.1)
  else first.span.1

def cutStop (needle : Text) (last spelledLast : Cell) : Nat :=
  if endsBlank needle then tailCut last.span (spelledLast.span.2 - spelledLast.span.1)
  else last.span.2

theorem startsBlank_first (needle : Text) (cells : List Cell) (first last : Cell)
    (stretch : Stretch cells first last) (same : chars cells = needle)
    (blank : startsBlank needle = true) : first.char = ' ' := by
  obtain ⟨rest, starts⟩ := stretch.starts
  simp only [startsBlank, ← same, starts, chars_cons, List.head?_cons, Option.some.injEq,
    Bool.and_eq_true, decide_eq_true_eq] at blank
  exact blank.2

theorem endsBlank_last (needle : Text) (cells : List Cell) (first last : Cell)
    (stretch : Stretch cells first last) (same : chars cells = needle) :
    endsBlank needle = true ↔ last.char = ' ' := by
  obtain ⟨init, stops⟩ := stretch.stops
  simp [endsBlank, ← same, stops]

theorem spelled_first (needleText : Text) (needle : List Cell) (first last : Cell)
    (stretch : Stretch needle first last) (blank : first.char = ' ') :
    spelled (.ofCells needleText needle) 0 = first.span.2 - first.span.1 := by
  obtain ⟨rest, rfl⟩ := stretch.starts
  have := spliceRangeOriginal_blank needleText [] rest first blank
  simp only [List.nil_append, chars_nil, byteLength_nil, Nat.zero_add] at this
  simp [spelled, this, Range.length]

theorem spelled_last (needleText : Text) (needle : List Cell) (first last : Cell)
    (stretch : Stretch needle first last) (blank : last.char = ' ') :
    spelled (.ofCells needleText needle) (byteLength (chars needle) - 1) =
      last.span.2 - last.span.1 := by
  obtain ⟨init, rfl⟩ := stretch.stops
  have := spliceRangeOriginal_blank needleText init [] last blank
  have position : byteLength (chars (init ++ [last])) - 1 = byteLength (chars init) := by
    simp only [chars_append, chars_cons, chars_nil, byteLength_append, byteLength_cons, blank,
      byteLength_nil]
    rfl
  rw [position]
  simp [spelled, this, Range.length]

theorem clamp_eq (n low high : Nat) (below : low ≤ high) (inside : n ≤ high) :
    clamp n low high = some (max low n) := by
  rw [clamp, if_pos below, Nat.min_eq_left inside]

section Match

variable (fileText needleText : Text) (before cells after needle : List Cell)
  (first last spelledFirst spelledLast : Cell) (stretch : Stretch cells first last)
  (spelling : Stretch needle spelledFirst spelledLast) (same : chars cells = chars needle)
include stretch same

theorem splice_first (blank : startsBlank (chars needle) = true) :
    (NormalizedString.ofCells fileText (before ++ (cells ++ after))).spliceRangeOriginal
        ⟨byteLength (chars before), byteLength (chars before) + 1⟩ =
      some ⟨first.span.1, first.span.2⟩ := by
  have firstBlank := startsBlank_first _ cells first last stretch same blank
  obtain ⟨rest, starts⟩ := stretch.starts
  have run := spliceRangeOriginal_blank fileText before (rest ++ after) first firstBlank
  rwa [← List.cons_append, ← starts] at run

theorem splice_last (blank : endsBlank (chars needle) = true) :
    (NormalizedString.ofCells fileText (before ++ (cells ++ after))).spliceRangeOriginal
        ⟨byteLength (chars before) + byteLength (chars needle) - 1,
          byteLength (chars before) + byteLength (chars needle) - 1 + 1⟩ =
      some ⟨last.span.1, last.span.2⟩ := by
  have lastBlank := (endsBlank_last _ cells first last stretch same).mp blank
  obtain ⟨init, stops⟩ := stretch.stops
  have run := spliceRangeOriginal_blank fileText (before ++ init) after last lastBlank
  have whole : before ++ init ++ last :: after = before ++ (cells ++ after) := by simp [stops]
  have position : byteLength (chars (before ++ init)) =
      byteLength (chars before) + byteLength (chars needle) - 1 := by
    rw [← same, stops]
    simp only [chars_append, chars_cons, chars_nil, byteLength_append, byteLength_cons,
      byteLength_nil, lastBlank, show Char.utf8Size ' ' = 1 from rfl]
    omega
  rwa [whole, position] at run

include spelling in
theorem clampEnd_eq (start : Nat) :
    clampEnd (.ofCells fileText (before ++ (cells ++ after))) (.ofCells needleText needle)
        (chars needle) (byteLength (chars before) + byteLength (chars needle))
        ⟨start, last.span.2⟩ = cutStop (chars needle) last spelledLast := by
  unfold clampEnd cutStop
  split
  · rename_i blank
    have spelledBlank := (endsBlank_last _ needle _ _ spelling rfl).mp blank
    have run := splice_last fileText before cells after needle first last stretch same blank
    have positive : 0 < byteLength (chars needle) := by
      obtain ⟨rest, rfl⟩ := spelling.starts
      have := spelledFirst.char.utf8Size_pos
      simp only [chars_cons, byteLength_cons]
      omega
    rw [show byteLength (chars before) + byteLength (chars needle) - 1 + 1 =
      byteLength (chars before) + byteLength (chars needle) by omega] at run
    rw [run, spelled_last needleText needle _ _ spelling spelledBlank]
    rfl
  · rfl

include spelling in
theorem clampStart_eq (stop : Nat) :
    clampStart (.ofCells fileText (before ++ (cells ++ after))) (.ofCells needleText needle)
        (chars needle) (byteLength (chars before)) ⟨first.span.1, stop⟩ =
      cutStart (chars needle) first spelledFirst := by
  unfold clampStart cutStart
  split
  · rename_i blank
    have spelledBlank := startsBlank_first _ needle _ _ spelling rfl blank
    rw [splice_first fileText before cells after needle first last stretch same blank,
      spelled_first needleText needle _ _ spelling spelledBlank]
    rfl
  · rfl

include spelling in
theorem clampBoundaryRuns_eq (order : first.span ≤ last.span)
    (firstOrder : first.span.1 ≤ first.span.2) (lastOrder : last.span.1 ≤ last.span.2) :
    let start := cutStart (chars needle) first spelledFirst
    let stop := cutStop (chars needle) last spelledLast
    clampBoundaryRuns (.ofCells fileText (before ++ (cells ++ after)))
        (.ofCells needleText needle) (chars needle) (byteLength (chars before))
        (byteLength (chars before) + byteLength (chars needle))
        ⟨first.span.1, last.span.2⟩ = some ⟨start, max start stop⟩ := by
  intro start stop
  have startBounds : first.span.1 ≤ start ∧ start ≤ last.span.2 := by
    have := order.2
    simp only [start, cutStart, headCut]
    split <;> omega
  have stopBound : stop ≤ last.span.2 := by
    simp only [stop, cutStop, tailCut]
    split <;> omega
  have tail := clampEnd_eq fileText needleText before cells after needle first last spelledFirst
    spelledLast stretch spelling same first.span.1
  have head := clampStart_eq fileText needleText before cells after needle first last
    spelledFirst spelledLast stretch spelling same last.span.2
  simp only [clampBoundaryRuns]
  rw [tail, head, clamp_eq _ _ _ (by omega) startBounds.2, Nat.max_eq_right startBounds.1]
  simp only [Option.bind_eq_bind, Option.bind_some]
  rw [clamp_eq _ _ _ startBounds.2 stopBound]
  rfl

end Match

end Clamping

end Frona.Tool
