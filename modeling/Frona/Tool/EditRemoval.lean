import Frona.Text.Visible
import Frona.Tool.EditSafe

set_option autoImplicit false

namespace Frona.Tool

open Utf8 Frona.Text

section Splicing

inductive Replaced (original replacement : Text) : Nat → List Range → Text → Prop where
  | done {cursor : Nat} {rest : Text} (tail : sliceFrom original cursor = some rest) :
      Replaced original replacement cursor [] rest
  | step {cursor : Nat} {r : Range} {ranges : List Range} {kept rewritten : Text}
      (ordered : r.start ≤ r.stop) (before : slice original cursor r.start = some kept)
      (rest : Replaced original replacement r.stop ranges rewritten) :
      Replaced original replacement cursor (r :: ranges) (kept ++ replacement ++ rewritten)

def keptRanges : Nat → List Range → List Range
  | _, [] => []
  | cursor, r :: ranges =>
      if r.start < cursor then keptRanges cursor ranges else r :: keptRanges r.stop ranges

theorem keptRanges_subset (cursor : Nat) (ranges : List Range) :
    keptRanges cursor ranges ⊆ ranges := by
  induction ranges generalizing cursor with
  | nil => simp [keptRanges]
  | cons r rest ih =>
      unfold keptRanges
      split
      · exact List.subset_cons_of_subset _ (ih cursor)
      · exact List.cons_subset_cons _ (ih r.stop)

theorem spliceRanges_replaced (original replacement : Text) (ranges : List Range)
    (ordered : ∀ r ∈ ranges, r.start ≤ r.stop) (rewritten : Text) (count : Nat)
    (spliced : spliceRanges original ranges replacement = some (rewritten, count)) :
    Replaced original replacement 0 (keptRanges 0 ranges) rewritten := by
  have loop (state final : SpliceState) (rest : Text)
      (run : ranges.foldlM (spliceStep original replacement) state = some final)
      (tail : sliceFrom original final.cursor = some rest) :
      ∃ suffix, final.out ++ rest = state.out ++ suffix ∧
        Replaced original replacement state.cursor (keptRanges state.cursor ranges) suffix := by
    clear spliced
    induction ranges generalizing state with
    | nil =>
        obtain rfl : state = final := by simpa using run
        exact ⟨rest, rfl, .done tail⟩
    | cons r others ih =>
        have remaining := ih fun other member => ordered other (by simp [member])
        rw [List.foldlM_cons] at run
        obtain ⟨next, stepped, run⟩ := Option.bind_eq_some_iff.mp run
        unfold spliceStep at stepped
        unfold keptRanges
        split at stepped
        · rename_i skipped
          obtain rfl := Option.some.inj stepped
          rw [if_pos skipped]
          exact remaining state run
        · rename_i taken
          obtain ⟨kept, sliced, same⟩ := Option.bind_eq_some_iff.mp stepped
          obtain rfl := Option.some.inj same
          obtain ⟨suffix, whole, replaced⟩ := remaining _ run
          rw [if_neg taken]
          exact ⟨kept ++ replacement ++ suffix, by simpa using whole,
            .step (ordered r (by simp)) sliced replaced⟩
  obtain ⟨final, run, rest⟩ := Option.bind_eq_some_iff.mp spliced
  obtain ⟨tail, sliced, same⟩ := Option.bind_eq_some_iff.mp rest
  obtain ⟨rfl, _⟩ : final.out ++ tail = rewritten ∧ final.count = count := by simpa using same
  obtain ⟨suffix, whole, replaced⟩ := loop ⟨[], 0, 0⟩ final tail run sliced
  rw [whole]
  exact replaced

theorem Replaced.valid {original replacement rewritten : Text} {cursor : Nat}
    {ranges : List Range} (replaced : Replaced original replacement cursor ranges rewritten) :
    IsBoundary original cursor ∧ ∀ r ∈ ranges, r.Valid original := by
  induction replaced with
  | done tail =>
      obtain ⟨before, same, size⟩ := (sliceFrom_eq_some _ _ _).mp tail
      exact ⟨⟨before, _, same, size⟩, by simp⟩
  | @step cursor r ranges kept rewritten ordered before rest ih =>
      have bounds := (slice_isSome original cursor r.start).mp (by simp [before])
      refine ⟨bounds.2.1, fun other member => ?_⟩
      rcases List.mem_cons.mp member with rfl | member
      · exact ⟨ordered, bounds.2.2, ih.1⟩
      · exact ih.2 other member

end Splicing

section Region

variable (low high : Nat) (before cells after left inside right : List Cell)

structure Region : Prop where
  collapsed : before ++ (cells ++ after) = collapseCells (left ++ (inside ++ right))
  left_bound : ∀ cell ∈ left, cell.span.2 ≤ low
  inside_bound : ∀ cell ∈ inside, low < cell.span.2 ∧ cell.span.1 < high
  right_bound : ∀ cell ∈ right, low < cell.span.2 ∧ high ≤ cell.span.1
  cells_bound : ∀ cell ∈ cells, low < cell.span.2 ∧ cell.span.1 < high
  before_bound : ∀ cell ∈ before, cell.span.1 < high
  after_bound : ∀ cell ∈ after, low < cell.span.2

def between (cell : Cell) : Bool := decide (low < cell.span.2 ∧ cell.span.1 < high)

variable {low high before cells after left inside right}
  (region : Region low high before cells after left inside right)
include region

theorem Region.visible_eq :
    before.filter visible ++ (cells.filter visible ++ after.filter visible) =
      left.filter visible ++ (inside.filter visible ++ right.filter visible) := by
  have := congrArg (List.filter visible) region.collapsed
  rwa [filter_collapseCells, List.filter_append, List.filter_append, List.filter_append,
    List.filter_append] at this

theorem Region.between_eq :
    (before.filter visible).filter (between low high) ++ (cells.filter visible ++
      (after.filter visible).filter (between low high)) = inside.filter visible := by
  have all (items : List Cell) (holds : ∀ cell ∈ items, low < cell.span.2 ∧ cell.span.1 < high) :
      (items.filter visible).filter (between low high) = items.filter visible := by
    rw [List.filter_eq_self]
    intro cell member
    simpa [between] using holds cell (List.mem_of_mem_filter member)
  have none (items : List Cell)
      (fails : ∀ cell ∈ items, cell.span.2 ≤ low ∨ high ≤ cell.span.1) :
      (items.filter visible).filter (between low high) = [] := by
    rw [List.filter_eq_nil_iff]
    intro cell member
    have := fails cell (List.mem_of_mem_filter member)
    simp only [between, decide_eq_true_eq]
    omega
  have same := congrArg (List.filter (between low high)) region.visible_eq
  rw [List.filter_append, List.filter_append, List.filter_append, List.filter_append,
    all cells region.cells_bound, all inside region.inside_bound,
    none left fun cell member => .inl (region.left_bound cell member),
    none right fun cell member => .inr (region.right_bound cell member).2] at same
  simpa using same

theorem Region.whole_iff :
    ((∀ cell ∈ before, visible cell = true → cell.span.2 ≤ low) ∧
      ∀ cell ∈ after, visible cell = true → high ≤ cell.span.1) ↔
    (inside.filter visible).length = (cells.filter visible).length := by
  have same := region.between_eq
  have count := congrArg List.length same
  simp only [List.length_append] at count
  constructor
  · rintro ⟨front, back⟩
    have none : (before.filter visible).filter (between low high) = [] ∧
        (after.filter visible).filter (between low high) = [] := by
      constructor <;> rw [List.filter_eq_nil_iff] <;> intro cell member <;>
        rw [List.mem_filter] at member <;> simp only [between, decide_eq_true_eq]
      · have := front cell member.1 member.2
        omega
      · have := back cell member.1 member.2
        omega
    rw [none.1, none.2, List.length_nil] at count
    omega
  · intro lengths
    have none : (before.filter visible).filter (between low high) = [] ∧
        (after.filter visible).filter (between low high) = [] := by
      constructor <;> rw [← List.length_eq_zero_iff] <;> omega
    constructor
    · intro cell member shown
      have := List.filter_eq_nil_iff.mp none.1 cell (List.mem_filter.mpr ⟨member, shown⟩)
      have := region.before_bound cell member
      simp only [between, decide_eq_true_eq] at *
      omega
    · intro cell member shown
      have := List.filter_eq_nil_iff.mp none.2 cell (List.mem_filter.mpr ⟨member, shown⟩)
      have := region.after_bound cell member
      simp only [between, decide_eq_true_eq] at *
      omega

theorem Region.before_eq (front : ∀ cell ∈ before, visible cell = true → cell.span.2 ≤ low) :
    before.filter visible = left.filter visible := by
  have all (items : List Cell) (holds : ∀ cell ∈ items, visible cell = true → cell.span.2 ≤ low) :
      (items.filter visible).filter (fun cell => decide (cell.span.2 ≤ low)) =
        items.filter visible := by
    rw [List.filter_eq_self]
    intro cell member
    rw [List.mem_filter] at member
    simpa using holds cell member.1 member.2
  have none (items : List Cell) (fails : ∀ cell ∈ items, low < cell.span.2) :
      (items.filter visible).filter (fun cell => decide (cell.span.2 ≤ low)) = [] := by
    rw [List.filter_eq_nil_iff]
    intro cell member
    simpa using fails cell (List.mem_of_mem_filter member)
  have same := congrArg (List.filter fun cell => decide (cell.span.2 ≤ low)) region.visible_eq
  simp only [List.filter_append] at same
  rw [all before front, all left fun cell member _ => region.left_bound cell member,
    none cells fun cell member => (region.cells_bound cell member).1,
    none after region.after_bound,
    none inside fun cell member => (region.inside_bound cell member).1,
    none right fun cell member => (region.right_bound cell member).1] at same
  simpa using same

theorem Region.trim_eq (front : before.filter visible = left.filter visible)
    (core : cells.filter visible = inside.filter visible) :
    trim (chars (collapseCells inside)) = trim (chars cells) := by
  by_cases blank : cells.filter visible = []
  · have both : Unmarked visible cells ∧ Unmarked visible inside :=
      ⟨(unmarked_iff_filter _ _).mpr blank, (unmarked_iff_filter _ _).mpr (core ▸ blank)⟩
    rw [trim_unmarked _ both.1.chars, trim_unmarked _ both.2.collapseCells.chars]
  · obtain ⟨b, middle, d, rfl, blankB, blankD, solid⟩ := exists_solid visible cells blank
    obtain ⟨u, source, w, rfl, blankU, blankW, solid'⟩ :=
      exists_solid visible inside (core ▸ blank)
    have collapsed := region.collapsed
    have grouped : left ++ (u ++ (source ++ w) ++ right) =
        (left ++ u) ++ (source ++ (w ++ right)) := by simp
    rw [grouped, collapseCells_solid _ _ _ solid'] at collapsed
    have regrouped : before ++ (b ++ (middle ++ d) ++ after) =
        (before ++ b) ++ (middle ++ (d ++ after)) := by simp
    rw [regrouped] at collapsed
    have marked (cells : List Cell) : (collapseCells cells).countP visible =
        cells.countP visible := by
      simp only [List.countP_eq_length_filter, filter_collapseCells]
    have empty (cells : List Cell) (unmarked : Unmarked visible cells) :
        cells.filter visible = [] := (unmarked_iff_filter _ _).mp unmarked
    have heads : (before ++ b).countP visible = (collapseCells (left ++ u)).countP visible := by
      rw [marked]
      simp only [List.countP_eq_length_filter, List.filter_append, front, empty b blankB,
        empty u blankU]
    have cores : middle.countP visible = (collapseCells source).countP visible := by
      rw [marked]
      simp only [List.filter_append, empty b blankB, empty d blankD, empty u blankU,
        empty w blankW, List.nil_append, List.append_nil] at core
      simp only [List.countP_eq_length_filter, core]
    obtain ⟨_, rfl⟩ := solid_unique visible _ _ _ _ _ _ collapsed solid solid'.collapseCells
      heads cores
    rw [collapseCells_solid _ _ _ solid']
    simp only [chars_append]
    rw [trim_solid _ _ _ blankU.collapseCells.chars blankW.collapseCells.chars solid.chars,
      trim_solid _ _ _ blankB.chars blankD.chars solid.chars]

end Region

section Removal

variable (form : Form) (original oldString newString : Text) (replaceAll : Bool)

def normalizedText (text : Text) : Option Text :=
  (normalize form (NormalizedString.fromStr text)).map NormalizedString.normalized

def RemovesNeedle (r : Range) : Prop :=
  ∃ removed result needle, slice original r.start r.stop = some removed ∧
    normalizedText form removed = some result ∧ normalizedText form oldString = some needle ∧
    trim result = trim needle

/-- The edit is a splice over disjoint ranges, and each of them holds only what the needle
names. -/
structure RemovesOnlyNeedle (rewritten : Text) : Prop where
  removes : ∃ ranges, editRanges form original oldString replaceAll =
      some (.ok (ranges, .normalized)) ∧
    Replaced original ((LineEnding.detect original).apply newString) 0 (keptRanges 0 ranges)
      rewritten ∧
    ∀ r ∈ keptRanges 0 ranges, RemovesNeedle form original oldString r

/-- Every visible character around the match comes from source text outside its range. -/
def MatchesWhole : Prop :=
  ∀ ranges hits before cells after r,
    editRanges form original oldString replaceAll = some (.ok (ranges, .normalized)) →
    findAll (chars (normalCells form original)) (chars (normalCells form oldString)) = some hits →
    normalCells form original = before ++ (cells ++ after) →
    chars cells = chars (normalCells form oldString) →
    byteLength (chars before) ∈ hits →
    matchRange (.ofCells original (normalCells form original))
      (.ofCells oldString (normalCells form oldString)) (chars (normalCells form oldString))
      (byteLength (chars before)) = some r →
    r ∈ keptRanges 0 ranges →
    (∀ cell ∈ before, visible cell = true → cell.span.2 ≤ r.start) ∧
      ∀ cell ∈ after, visible cell = true → r.stop ≤ cell.span.1

/-- The text of each applied range has the same compatibility form alone as in its place. -/
def FormsApart : Prop :=
  ∀ ranges, editRanges form original oldString replaceAll = some (.ok (ranges, .normalized)) →
    ∀ r ∈ keptRanges 0 ranges, ∀ before removed after, original = before ++ (removed ++ after) →
      byteLength before = r.start → byteLength before + byteLength removed = r.stop →
      form original = form before ++ (form removed ++ form after)

variable (inOrder : InOrder form) (leads : Leads form)
include inOrder leads

theorem formCells_split (before removed after : Text)
    (small : byteLength (before ++ (removed ++ after)) < 2 ^ 32)
    (apart : form (before ++ (removed ++ after)) =
      form before ++ (form removed ++ form after)) :
    ∃ left inside right, formCells form (before ++ (removed ++ after)) =
        left ++ (inside ++ right) ∧
      chars inside = chars (formCells form removed) ∧
      (∀ cell ∈ left, cell.span.1 < cell.span.2 ∧ cell.span.2 ≤ byteLength before) ∧
      (∀ cell ∈ inside, byteLength before ≤ cell.span.1 ∧ cell.span.1 < cell.span.2 ∧
        cell.span.2 ≤ byteLength before + byteLength removed) ∧
      ∀ cell ∈ right, byteLength before + byteLength removed ≤ cell.span.1 ∧
        cell.span.1 < cell.span.2 := by
  have size (offset : Nat) (text : Text) : (sourceCells offset text).length = text.length := by
    have := congrArg List.length (chars_sourceCells offset text)
    rwa [chars, List.length_map] at this
  have consumes (offset : Nat) (text : Text) :
      totalConsumed (form text) = (sourceCells offset text).length := by
    rw [inOrder text, size]
  -- The aligned characters of one part lie within the bytes of that part.
  have bounded (offset : Nat) (text : Text) (last : Span)
      (fits : offset + byteLength text < 2 ^ 32) :
      ∀ cell ∈ alignCells last (sourceCells offset text) (form text),
        offset ≤ cell.span.1 ∧ cell.span.1 < cell.span.2 ∧
          cell.span.2 ≤ offset + byteLength text := by
    apply alignCells_each fun span =>
      offset ≤ span.1 ∧ span.1 < span.2 ∧ span.2 ≤ offset + byteLength text
    · rintro ⟨a, a'⟩ ⟨b, b'⟩ left right
      simp only [Span.join] at *
      omega
    · intro cell member
      obtain ⟨front, c, back, rfl, same⟩ := (sourceCells_aligned offset text fits).each cell member
      have := c.utf8Size_pos
      rw [same]
      simp only [byteLength_append, byteLength_cons]
      omega
    · rw [consumes offset]
    · exact .inr (leads text)
  simp only [byteLength_append] at small
  obtain ⟨last, front⟩ := alignCells_append (0, 0) (sourceCells 0 before)
    (sourceCells (0 + byteLength before) (removed ++ after)) (form before)
    (form removed ++ form after) (consumes 0 before)
  rw [Nat.zero_add] at front
  obtain ⟨last', back⟩ := alignCells_append last (sourceCells (byteLength before) removed)
    (sourceCells (byteLength before + byteLength removed) after) (form removed) (form after)
    (consumes _ removed)
  rw [sourceCells_append, back] at front
  let folded (cells : List Cell) : List Cell :=
    cells.map fun cell => ⟨foldChar cell.char, cell.span⟩
  refine ⟨folded (alignCells (0, 0) (sourceCells 0 before) (form before)),
    folded (alignCells last (sourceCells (byteLength before) removed) (form removed)),
    folded (alignCells last' (sourceCells (byteLength before + byteLength removed) after)
      (form after)), ?_, ?_, ?_, ?_, ?_⟩
  · rw [formCells, apart, sourceCells_append, Nat.zero_add, sourceCells_append, front]
    simp [folded]
  · have same (cells : List Cell) : chars (folded cells) = (chars cells).map foldChar := by
      simp [folded, chars, Function.comp_def]
    rw [formCells, same, chars_alignCells]
    change _ = chars (folded _)
    rw [same, chars_alignCells]
  all_goals
    intro cell member
    obtain ⟨source, listed, rfl⟩ := List.mem_map.mp member
  · have := bounded 0 before (0, 0) (by omega) source listed
    exact ⟨this.2.1, by simpa using this.2.2⟩
  · exact bounded _ removed last (by omega) source listed
  · have := bounded _ after last' (by omega) source listed
    exact ⟨this.1, this.2.1⟩

omit inOrder leads in
theorem cut_reaches (needle : Text) (first last spelledFirst spelledLast : Cell)
    (firstFull : first.span.1 < first.span.2) (lastFull : last.span.1 < last.span.2)
    (spelledFirstFull : spelledFirst.span.1 < spelledFirst.span.2)
    (spelledLastFull : spelledLast.span.1 < spelledLast.span.2) :
    cutStart needle first spelledFirst < first.span.2 ∧
      last.span.1 < cutStop needle last spelledLast := by
  unfold cutStart cutStop headCut tailCut
  constructor <;> split <;> omega

theorem removesNeedle_iff (small : byteLength original < 2 ^ 32)
    (smallNeedle : byteLength oldString < 2 ^ 32) (nonempty : oldString ≠ [])
    (before cells after : List Cell)
    (whole : normalCells form original = before ++ (cells ++ after))
    (same : chars cells = chars (normalCells form oldString)) (r : Range)
    (ranged : matchRange (.ofCells original (normalCells form original))
      (.ofCells oldString (normalCells form oldString)) (chars (normalCells form oldString))
      (byteLength (chars before)) = some r) (valid : r.Valid original)
    (apart : ∀ front removed back, original = front ++ (removed ++ back) →
      byteLength front = r.start → byteLength front + byteLength removed = r.stop →
      form original = form front ++ (form removed ++ form back)) :
    RemovesNeedle form original oldString r ↔
      (∀ cell ∈ before, visible cell = true → cell.span.2 ≤ r.start) ∧
        ∀ cell ∈ after, visible cell = true → r.stop ≤ cell.span.1 := by
  have needleNonempty := normalCells_ne_nil form inOrder oldString nonempty
  have covered : cells ≠ [] := by
    rintro rfl
    exact needleNonempty (List.map_eq_nil_iff.mp same.symm)
  obtain ⟨first, last, stretch⟩ := exists_stretch cells covered
  obtain ⟨spelledFirst, spelledLast, spelling⟩ := exists_stretch _ needleNonempty
  have sliceable := normalCells_sliceable form inOrder original small
  have full := normalCells_nonempty form inOrder leads original small
  have spelledFull := normalCells_nonempty form inOrder leads oldString smallNeedle
  rw [whole] at sliceable full
  obtain ⟨_, tail, crossing⟩ := List.pairwise_append.mp full.ordered
  obtain ⟨ordered, _, crossing'⟩ := List.pairwise_append.mp tail
  have bounds := stretch.bounds ordered
  have inFile (cell : Cell) (member : cell ∈ cells) : cell ∈ before ++ (cells ++ after) := by
    simp [member]
  have firstSlice := sliceable.each first (inFile first stretch.first_mem)
  have lastSlice := sliceable.each last (inFile last stretch.last_mem)
  have computed := matchRange_eq original oldString before cells after _ first last spelledFirst
    spelledLast stretch spelling same (bounds last stretch.last_mem).1 firstSlice.ordered
    lastSlice.ordered
  rw [whole, computed] at ranged
  obtain rfl := Option.some.inj ranged
  obtain ⟨low, high⟩ := cut_reaches (chars (normalCells form oldString)) first last spelledFirst
    spelledLast (full.each first (inFile first stretch.first_mem))
    (full.each last (inFile last stretch.last_mem))
    (spelledFull.each _ spelling.first_mem) (spelledFull.each _ spelling.last_mem)
  obtain ⟨removed, sliced⟩ := valid.slice
  obtain ⟨front, back, split, start, stop⟩ := (slice_eq_some _ _ _ _).mp sliced
  have apart := apart front removed back split start stop
  rw [split] at apart small
  obtain ⟨left, inside, right, form_eq, read, leftBound, insideBound, rightBound⟩ :=
    formCells_split form inOrder leads front removed back small apart
  rw [← split] at form_eq
  have region : Region (cutStart (chars (normalCells form oldString)) first spelledFirst)
      (max (cutStart (chars (normalCells form oldString)) first spelledFirst)
        (cutStop (chars (normalCells form oldString)) last spelledLast))
      before cells after left inside right := by
    simp only at start stop
    refine
      { collapsed := by rw [← form_eq, ← whole]; rfl
        left_bound := fun cell member => start ▸ (leftBound cell member).2
        inside_bound := fun cell member => ?_
        right_bound := fun cell member => ?_
        cells_bound := fun cell member => ?_
        before_bound := fun cell member => ?_
        after_bound := fun cell member => ?_ }
    · have := insideBound cell member
      omega
    · have := rightBound cell member
      omega
    · have below : first.span.2 ≤ cell.span.2 := (bounds cell member).1.2
      have above : cell.span.1 ≤ last.span.1 := (bounds cell member).2.1
      omega
    · have := (crossing cell member last (by simp [stretch.last_mem])).1
      omega
    · have := (crossing' first stretch.first_mem cell member).2
      omega
  have normal (text : Text) :
      normalizedText form text = some (chars (normalCells form text)) := by
    rw [normalizedText, normalize_eq form inOrder]
    rfl
  have result : chars (normalCells form removed) = chars (collapseCells inside) :=
    chars_collapseCells_congr _ _ read.symm
  have removes : RemovesNeedle form original oldString
      ⟨cutStart (chars (normalCells form oldString)) first spelledFirst,
        max (cutStart (chars (normalCells form oldString)) first spelledFirst)
          (cutStop (chars (normalCells form oldString)) last spelledLast)⟩ ↔
      trim (chars (collapseCells inside)) = trim (chars cells) := by
    simp only [RemovesNeedle, sliced, normal, Option.some.injEq, exists_and_left, exists_eq_left',
      result, same]
  rw [removes, region.whole_iff]
  constructor
  · intro reads
    have := congrArg (List.countP isVisible) reads
    rw [countP_trim, countP_trim, countP_chars, countP_chars, filter_collapseCells] at this
    exact this
  · intro lengths
    have wholeMatch := region.whole_iff.mpr lengths
    have middle : cells.filter visible = inside.filter visible := by
      have same := region.between_eq
      have count := congrArg List.length same
      simp only [List.length_append] at count
      rw [List.length_eq_zero_iff.mp (show ((before.filter visible).filter _).length = 0 by omega),
        List.length_eq_zero_iff.mp (show ((after.filter visible).filter _).length = 0 by omega)]
        at same
      simpa using same
    exact region.trim_eq (region.before_eq wholeMatch.1) middle

omit inOrder leads in
theorem matchRange_ordered (fileNs needleNs : NormalizedString) (needle : Text) (nstart : Nat)
    (r : Range) (ranged : matchRange fileNs needleNs needle nstart = some r) :
    r.start ≤ r.stop := by
  obtain ⟨span, _, clamped⟩ := Option.bind_eq_some_iff.mp ranged
  obtain ⟨start, _, rest⟩ := Option.bind_eq_some_iff.mp clamped
  obtain ⟨stop, bounded, same⟩ := Option.bind_eq_some_iff.mp rest
  obtain rfl := Option.some.inj same
  unfold clamp at bounded
  split at bounded
  · obtain rfl := Option.some.inj bounded
    exact Nat.le_max_left _ _
  · simp at bounded

omit leads in
theorem applied_normalized (small : byteLength original < 2 ^ 32) (nonempty : oldString ≠ [])
    (rewritten : Text) (count : Nat)
    (applied : applyEdit form original oldString newString replaceAll =
      some (.applied rewritten count .normalized)) :
    ∃ hits ranges, findAll (chars (normalCells form original))
        (chars (normalCells form oldString)) = some hits ∧
      editRanges form original oldString replaceAll = some (.ok (ranges, .normalized)) ∧
      (∀ r ∈ ranges, ∃ hit ∈ hits, matchRange (.ofCells original (normalCells form original))
        (.ofCells oldString (normalCells form oldString)) (chars (normalCells form oldString))
        hit = some r) ∧
      Replaced original ((LineEnding.detect original).apply newString) 0 (keptRanges 0 ranges)
        rewritten := by
  obtain ⟨exact, hits, ranges, _, hitsFound, each, rescue, otherwise⟩ :=
    editRanges_eq form original oldString replaceAll inOrder small nonempty
  have filled : oldString.isEmpty = false := by simpa using nonempty
  simp only [applyEdit, filled, Bool.false_eq_true, if_false, Option.bind_eq_bind] at applied
  obtain ⟨plan, planned, done⟩ := Option.bind_eq_some_iff.mp applied
  have matched (r : Range) (member : r ∈ ranges) : ∃ hit ∈ hits,
      matchRange (.ofCells original (normalCells form original))
        (.ofCells oldString (normalCells form oldString)) (chars (normalCells form oldString))
        hit = some r := by
    obtain ⟨i, inRanges, rfl⟩ := List.getElem_of_mem member
    have inHits : i < hits.length := each.length_eq ▸ inRanges
    exact ⟨hits[i], List.getElem_mem inHits, (each.get inHits inRanges).1⟩
  by_cases rescued : hits ≠ [] ∧ Rescued replaceAll exact hits
  · have chosen := rescue rescued.1 rescued.2
    rw [planned] at chosen
    obtain rfl := Option.some.inj chosen
    obtain ⟨⟨result, total⟩, spliced, same⟩ := Option.bind_eq_some_iff.mp done
    obtain ⟨rfl, rfl⟩ : result = rewritten ∧ total = count := by simpa using same
    refine ⟨hits, ranges, hitsFound, planned, matched, ?_⟩
    apply spliceRanges_replaced _ _ _ _ _ _ spliced
    intro r member
    obtain ⟨hit, _, ranged⟩ := matched r member
    exact matchRange_ordered _ _ _ _ r ranged
  · rcases otherwise rescued with ⟨outcome, failed, never⟩ | ⟨taken, chosen, _⟩
    · rw [planned] at failed
      obtain rfl := Option.some.inj failed
      exact absurd (Option.some.inj done) (never rewritten count .normalized)
    · rw [planned] at chosen
      obtain rfl := Option.some.inj chosen
      obtain ⟨result, _, same⟩ := Option.bind_eq_some_iff.mp done
      simp at same

theorem removesOnlyNeedle_iff (small : byteLength original < 2 ^ 32)
    (smallNeedle : byteLength oldString < 2 ^ 32) (nonempty : oldString ≠ [])
    (rewritten : Text) (count : Nat)
    (applied : applyEdit form original oldString newString replaceAll =
      some (.applied rewritten count .normalized))
    (apart : FormsApart form original oldString replaceAll) :
    RemovesOnlyNeedle form original oldString newString replaceAll rewritten ↔
      MatchesWhole form original oldString replaceAll := by
  obtain ⟨hits, ranges, hitsFound, planned, matched, replaced⟩ :=
    applied_normalized form original oldString newString replaceAll inOrder small nonempty
      rewritten count applied
  have removal (before cells after : List Cell)
      (whole : normalCells form original = before ++ (cells ++ after))
      (same : chars cells = chars (normalCells form oldString)) (r : Range)
      (ranged : matchRange (.ofCells original (normalCells form original))
        (.ofCells oldString (normalCells form oldString)) (chars (normalCells form oldString))
        (byteLength (chars before)) = some r) (kept : r ∈ keptRanges 0 ranges) :=
    removesNeedle_iff form original oldString inOrder leads small smallNeedle nonempty before
      cells after whole same r ranged (replaced.valid.2 r kept) (apart ranges planned r kept)
  constructor
  · rintro ⟨ranges', planned', _, removes⟩
    obtain rfl : ranges = ranges' := by
      rw [planned] at planned'
      simpa using planned'
    intro other hits' before cells after r chosen _ whole same _ ranged kept
    obtain rfl : ranges = other := by
      rw [planned] at chosen
      simpa using chosen
    exact (removal before cells after whole same r ranged kept).mp (removes r kept)
  · intro whole
    refine ⟨ranges, planned, replaced, fun r kept => ?_⟩
    obtain ⟨hit, member, ranged⟩ := matched r (keptRanges_subset 0 ranges kept)
    have needle : chars (normalCells form oldString) ≠ [] := fun empty =>
      normalCells_ne_nil form inOrder oldString nonempty (List.map_eq_nil_iff.mp empty)
    obtain ⟨all, found, occurs⟩ := findAll_occurs (chars (normalCells form original)) _ needle
    obtain rfl := Option.some.inj (hitsFound.symm.trans found)
    obtain ⟨before, cells, after, split, same, rfl⟩ := exists_covers _ _ hit (occurs hit member)
    exact (removal before cells after split same r ranged kept).mpr
      (whole ranges hits before cells after r planned hitsFound split same member ranged kept)

end Removal

section Ligature

theorem compatForm_leads : Leads compatForm := by
  intro text head first
  cases text with
  | nil => simp [compatForm] at first
  | cons c rest =>
      simp only [compatForm, List.flatMap_cons] at first
      split_ifs at first <;> obtain rfl : _ = head := by simpa using first
      all_goals simp [consumed]

-- The file begins with the ligature, the needle is its first letter.
def ligatureFile : Text := [Char.ofNat 0xFB01, 'x']

theorem ligature_applied :
    applyEdit compatForm ligatureFile ['f'] ['X'] false =
      some (.applied ['X', 'x'] 1 .normalized) := by decide

theorem removesOnlyNeedle_iff_ligature :
    RemovesOnlyNeedle compatForm ligatureFile ['f'] ['X'] false ['X', 'x'] ↔
      MatchesWhole compatForm ligatureFile ['f'] false := by
  apply removesOnlyNeedle_iff compatForm ligatureFile ['f'] ['X'] false compatForm_inOrder
    compatForm_leads (by decide) (by decide) (by decide) _ 1 ligature_applied
  intro ranges _ r _ before removed after split _ _
  rw [split]
  simp [compatForm]

theorem ligature_swallowed :
    applyEdit compatForm ligatureFile ['f'] ['X'] false =
        some (.applied ['X', 'x'] 1 .normalized) ∧
      ¬ RemovesOnlyNeedle compatForm ligatureFile ['f'] ['X'] false ['X', 'x'] := by
  refine ⟨ligature_applied, fun only => ?_⟩
  obtain ⟨ranges, planned, _, removes⟩ := only
  have computed : editRanges compatForm ligatureFile ['f'] false =
      some (.ok ([⟨0, 3⟩], .normalized)) := by decide
  obtain rfl : [⟨0, 3⟩] = ranges := by simpa [computed] using planned
  obtain ⟨removed, result, needle, sliced, read, spelled, same⟩ := removes ⟨0, 3⟩ (by decide)
  obtain rfl : [Char.ofNat 0xFB01] = removed := by
    have : slice ligatureFile 0 3 = some [Char.ofNat 0xFB01] := by decide
    simpa [this] using sliced
  have result' : normalizedText compatForm [Char.ofNat 0xFB01] = some ['f', 'i'] := by decide
  have needle' : normalizedText compatForm ['f'] = some ['f'] := by decide
  obtain rfl : ['f', 'i'] = result := by simpa [result'] using read
  obtain rfl : ['f'] = needle := by simpa [needle'] using spelled
  revert same
  decide

end Ligature

end Frona.Tool
