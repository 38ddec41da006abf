import Frona.Text.Alignment
import Mathlib.Order.Bounds.Basic

set_option autoImplicit false

namespace Frona.Text

open Utf8

inductive Transform where
  | nfkc
  | asciiQuotes
  | asciiDashes
  | asciiSpaces
  | caseFold
  | retainChars (predicate : Char → Bool)
  | collapseWhitespaceRuns

def Transform.Keeps : Transform → Prop
  | .retainChars _ => False
  | _ => True

section Chain

variable (form : Text → List (Char × Int)) (fold : Char → List Char)

def Transform.apply (self : NormalizedString) : Transform → Option NormalizedString
  | .nfkc => self.nfkc form
  | .asciiQuotes => self.asciiQuotes
  | .asciiDashes => self.asciiDashes
  | .asciiSpaces => self.asciiSpaces
  | .caseFold => self.caseFold fold
  | .retainChars predicate => self.retainChars predicate
  | .collapseWhitespaceRuns => self.collapseWhitespaceRuns

/-- A chain of calls on a fresh `NormalizedString`; `none` is a panic. -/
def chain (text : Text) (transforms : List Transform) : Option NormalizedString :=
  transforms.foldlM (Transform.apply form fold) (.fromStr text)

end Chain

namespace NormalizedString

/-- Every byte of the normalised text has a source range, the bytes of a character have the
same one, and the ranges follow the order of the text. -/
structure IsAligned (string : NormalizedString) : Prop where
  perByte : string.spans.length = byteLength string.normalized
  shared : ∀ before c after, string.normalized = before ++ c :: after → ∀ i < c.utf8Size,
    string.spans[byteLength before + i]? = string.spans[byteLength before]?
  valid : ∀ span ∈ string.spans, Range.Valid string.original ⟨span.1, span.2⟩
  ordered : string.spans.Pairwise fun a b => a.1 ≤ b.1 ∧ a.2 ≤ b.2

def Covers (string : NormalizedString) : Prop :=
  ∀ i < byteLength string.original, ∃ span ∈ string.spans, span.1 ≤ i ∧ i < span.2

def spansIn (string : NormalizedString) (range : Range) : Set Span :=
  {span | ∃ i, range.start ≤ i ∧ i < range.stop ∧ string.spans[i]? = some span}

structure IsHull (string : NormalizedString) (range out : Range) : Prop where
  start : IsLeast (Set.image Prod.fst (string.spansIn range)) out.start
  stop : IsGreatest (Set.image Prod.snd (string.spansIn range)) out.stop

def insertionPoint (string : NormalizedString) (position : Nat) : Nat :=
  (string.spans[position]?.map Prod.fst).getD (byteLength string.original)

section Splice

variable {string : NormalizedString} (aligned : string.IsAligned)
include aligned

theorem IsAligned.monotone {i j : Nat} {a b : Span} (before : i ≤ j)
    (first : string.spans[i]? = some a) (last : string.spans[j]? = some b) :
    a.1 ≤ b.1 ∧ a.2 ≤ b.2 := by
  obtain ⟨inI, rfl⟩ := List.getElem?_eq_some_iff.mp first
  obtain ⟨inJ, rfl⟩ := List.getElem?_eq_some_iff.mp last
  rcases Nat.eq_or_lt_of_le before with rfl | less
  · exact ⟨le_refl _, le_refl _⟩
  · exact List.pairwise_iff_getElem.mp aligned.ordered i j inI inJ less

theorem IsAligned.lookup {i : Nat} (inside : i < byteLength string.normalized) :
    ∃ span, string.spans[i]? = some span ∧ Range.Valid string.original ⟨span.1, span.2⟩ := by
  rw [← aligned.perByte] at inside
  exact ⟨_, List.getElem?_eq_getElem inside, aligned.valid _ (List.getElem_mem inside)⟩

theorem IsAligned.splice_nonempty (range : Range) (nonempty : range.start < range.stop)
    (inside : range.stop ≤ byteLength string.normalized) :
    ∃ first last, string.spans[range.start]? = some first ∧
      string.spans[range.stop - 1]? = some last ∧
      string.spliceRangeOriginal range = some ⟨first.1, last.2⟩ := by
  have size := aligned.perByte
  obtain ⟨first, firstFound, -⟩ := aligned.lookup (i := range.start) (by omega)
  obtain ⟨last, lastFound, -⟩ := aligned.lookup (i := range.stop - 1) (by omega)
  refine ⟨first, last, firstFound, lastFound, ?_⟩
  unfold spliceRangeOriginal
  rw [if_neg (by omega), if_neg (by omega), if_neg (by omega), firstFound, lastFound]
  rfl

theorem IsAligned.splice_empty (position : Nat) (inside : position ≤ byteLength string.normalized) :
    string.spliceRangeOriginal ⟨position, position⟩ =
      some ⟨string.insertionPoint position, string.insertionPoint position⟩ := by
  have size := aligned.perByte
  unfold spliceRangeOriginal insertionPoint
  rw [if_neg (by simp), if_neg (by simp only; omega), if_pos rfl]
  by_cases short : position < string.spans.length
  · simp [short]
  · simp [short]

theorem IsAligned.hull (range : Range) (nonempty : range.start < range.stop)
    (inside : range.stop ≤ byteLength string.normalized) (out : Range)
    (spliced : string.spliceRangeOriginal range = some out) :
    out.Valid string.original ∧ string.IsHull range out := by
  obtain ⟨first, last, firstFound, lastFound, same⟩ :=
    aligned.splice_nonempty range nonempty inside
  obtain rfl := Option.some.inj (spliced.symm.trans same)
  have order := aligned.monotone (Nat.le_sub_one_of_lt nonempty) firstFound lastFound
  refine ⟨valid_merge _ first last (aligned.valid _ (List.mem_of_getElem? firstFound))
    (aligned.valid _ (List.mem_of_getElem? lastFound)) order, ⟨⟨first, ?_, rfl⟩, ?_⟩,
    ⟨⟨last, ?_, rfl⟩, ?_⟩⟩
  · exact ⟨range.start, le_refl _, nonempty, firstFound⟩
  · rintro start ⟨span, ⟨i, above, _, found⟩, rfl⟩
    exact (aligned.monotone above firstFound found).1
  · exact ⟨range.stop - 1, by omega, by omega, lastFound⟩
  · rintro stop ⟨span, ⟨i, _, below, found⟩, rfl⟩
    exact (aligned.monotone (Nat.le_sub_one_of_lt below) found lastFound).2

theorem IsAligned.insertionPoint_boundary (position : Nat) :
    IsBoundary string.original (string.insertionPoint position) := by
  unfold insertionPoint
  cases found : string.spans[position]? with
  | none => exact isBoundary_length _
  | some span => exact (aligned.valid span (List.mem_of_getElem? found)).start

theorem IsAligned.valid_splice (range : Range) (ordered : range.start ≤ range.stop)
    (inside : range.stop ≤ byteLength string.normalized) :
    ∃ out, string.spliceRangeOriginal range = some out ∧ out.Valid string.original := by
  rcases Nat.eq_or_lt_of_le ordered with empty | nonempty
  · obtain ⟨start, stop⟩ := range
    obtain rfl : start = stop := empty
    have boundary := aligned.insertionPoint_boundary start
    exact ⟨_, aligned.splice_empty start inside, le_refl _, boundary, boundary⟩
  · obtain ⟨first, last, _, _, same⟩ := aligned.splice_nonempty range nonempty inside
    exact ⟨_, same, (aligned.hull range nonempty inside _ same).1⟩

theorem IsAligned.insertionPoint_le (covers : string.Covers) {position : Nat} {last : Span}
    (positive : 0 < position) (found : string.spans[position - 1]? = some last) :
    string.insertionPoint position ≤ last.2 := by
  by_contra gap
  have inText := (aligned.insertionPoint_boundary position).le
  obtain ⟨span, member, starts, stops⟩ := covers last.2 (by omega)
  obtain ⟨i, at_i⟩ := List.mem_iff_getElem?.mp member
  by_cases earlier : i ≤ position - 1
  · have := (aligned.monotone earlier at_i found).2
    omega
  · obtain ⟨inside, -⟩ := List.getElem?_eq_some_iff.mp at_i
    have next := List.getElem?_eq_getElem (l := string.spans) (i := position) (by omega)
    have := (aligned.monotone (by omega) next at_i).1
    simp only [insertionPoint, next, Option.map_some, Option.getD_some] at gap
    omega

theorem IsAligned.insertionPoint_within (position : Nat) (wider : Range) (first last : Span)
    (firstFound : string.spans[wider.start]? = some first)
    (lastFound : string.spans[wider.stop - 1]? = some last)
    (low : wider.start ≤ position) (high : position ≤ wider.stop)
    (nonempty : wider.start < wider.stop) (inside : wider.stop ≤ byteLength string.normalized)
    (reached : position = wider.stop → string.Covers) :
    first.1 ≤ string.insertionPoint position ∧ string.insertionPoint position ≤ last.2 := by
  constructor
  · unfold insertionPoint
    cases next : string.spans[position]? with
    | none => exact (aligned.valid first (List.mem_of_getElem? firstFound)).start.le
    | some span => exact (aligned.monotone low firstFound next).1
  · rcases Nat.eq_or_lt_of_le high with final | before
    · rw [← final] at lastFound
      exact aligned.insertionPoint_le (reached final) (by omega) lastFound
    · obtain ⟨span, next, valid⟩ := aligned.lookup (i := position) (by omega)
      have below := (aligned.monotone (Nat.le_sub_one_of_lt before) next lastFound).2
      simp only [insertionPoint, next, Option.map_some, Option.getD_some]
      exact Nat.le_trans valid.ordered below

theorem IsAligned.splice_within (range wider out out' : Range)
    (ordered : range.start ≤ range.stop) (within : range.Within wider)
    (inside : wider.stop ≤ byteLength string.normalized)
    (reached : range.start = wider.stop → wider.start < wider.stop → string.Covers)
    (spliced : string.spliceRangeOriginal range = some out)
    (spliced' : string.spliceRangeOriginal wider = some out') : out.Within out' := by
  obtain ⟨low, high⟩ := within
  rcases Nat.eq_or_lt_of_le (show wider.start ≤ wider.stop by omega) with empty | nonempty
  · have same : range = wider := by
      cases range
      cases wider
      simp only [Range.mk.injEq] at empty low high ordered ⊢
      omega
    rw [same, spliced'] at spliced
    obtain rfl := Option.some.inj spliced
    exact ⟨le_refl _, le_refl _⟩
  · obtain ⟨first', last', firstFound', lastFound', same'⟩ :=
      aligned.splice_nonempty wider nonempty inside
    obtain rfl := Option.some.inj (spliced'.symm.trans same')
    rcases Nat.eq_or_lt_of_le ordered with empty | proper
    · obtain ⟨position, stop⟩ := range
      obtain rfl : position = stop := empty
      have found := aligned.splice_empty position (Nat.le_trans high inside)
      obtain rfl := Option.some.inj (spliced.symm.trans found)
      exact aligned.insertionPoint_within position wider first' last' firstFound' lastFound' low
        high nonempty inside fun final => reached final nonempty
    · obtain ⟨first, last, firstFound, lastFound, same⟩ :=
        aligned.splice_nonempty range proper (Nat.le_trans high inside)
      obtain rfl := Option.some.inj (spliced.symm.trans same)
      exact ⟨(aligned.monotone low firstFound' firstFound).1,
        (aligned.monotone (by omega) lastFound lastFound').2⟩

theorem IsAligned.splice_before (range later out out' : Range)
    (ordered : range.start ≤ range.stop) (before : range.Before later)
    (nonempty : later.start < later.stop) (inside : later.stop ≤ byteLength string.normalized)
    (spliced : string.spliceRangeOriginal range = some out)
    (spliced' : string.spliceRangeOriginal later = some out') : out.Before out' := by
  obtain ⟨starts, stops⟩ := before
  obtain ⟨first', last', firstFound', lastFound', same'⟩ :=
    aligned.splice_nonempty later nonempty inside
  obtain rfl := Option.some.inj (spliced'.symm.trans same')
  rcases Nat.eq_or_lt_of_le ordered with empty | proper
  · obtain ⟨position, stop⟩ := range
    obtain rfl : position = stop := empty
    have found := aligned.splice_empty position (Nat.le_trans stops inside)
    obtain rfl := Option.some.inj (spliced.symm.trans found)
    have inText : position < byteLength string.normalized := by
      simp only at starts
      omega
    obtain ⟨span, next, valid⟩ := aligned.lookup inText
    have left := (aligned.monotone starts next firstFound').1
    have right := (aligned.monotone (j := later.stop - 1) (by simp only at starts; omega) next
      lastFound').2
    simp only [insertionPoint, next, Option.map_some, Option.getD_some]
    exact ⟨left, Nat.le_trans valid.ordered right⟩
  · obtain ⟨first, last, firstFound, lastFound, same⟩ :=
      aligned.splice_nonempty range proper (Nat.le_trans stops inside)
    obtain rfl := Option.some.inj (spliced.symm.trans same)
    exact ⟨(aligned.monotone starts firstFound firstFound').1,
      (aligned.monotone (by omega) lastFound lastFound').2⟩

end Splice

end NormalizedString

section Cells

def Reaches (cells later : List Cell) : Prop :=
  ∀ cell ∈ cells, ∃ next ∈ later, next.span.1 ≤ cell.span.1 ∧ cell.span.2 ≤ next.span.2

theorem Reaches.trans {first second third : List Cell} (left : Reaches first second)
    (right : Reaches second third) : Reaches first third := by
  intro cell member
  obtain ⟨next, inside, low, high⟩ := left cell member
  obtain ⟨last, final, low', high'⟩ := right next inside
  exact ⟨last, final, Nat.le_trans low' low, Nat.le_trans high high'⟩

theorem Aligned.flatMapCells {P : Span → Prop} {cells : List Cell} (aligned : Aligned P cells)
    (f : Char → List Char) : Aligned P (flatMapCells f cells) := by
  induction cells with
  | nil => exact aligned_nil P
  | cons cell rest ih =>
      obtain ⟨head, bound, tail⟩ := aligned_cons.mp aligned
      have own (text : Text) (next : Cell) (member : next ∈ text.map fun c => ⟨c, cell.span⟩) :
          next.span = cell.span := by
        obtain ⟨c, _, rfl⟩ := List.mem_map.mp member
        rfl
      have later (next : Cell) (member : next ∈ Text.flatMapCells f rest) :
          cell.span ≤ next.span := by
        obtain ⟨other, inside, mapped⟩ := List.mem_flatMap.mp member
        obtain ⟨c, _, rfl⟩ := List.mem_map.mp mapped
        exact bound other inside
      constructor
      · intro next member
        rcases List.mem_append.mp member with member | member
        · rw [own _ next member]
          exact head
        · exact (ih tail).each next member
      · apply List.pairwise_append.mpr
        refine ⟨?_, (ih tail).ordered, fun first left next right => ?_⟩
        · apply List.pairwise_of_forall_mem_list
          intro first left next right
          rw [own _ first left, own _ next right]
        · rw [own _ first left]
          exact later next right

theorem reaches_flatMapCells (f : Char → List Char) (cells : List Cell)
    (kept : ∀ cell ∈ cells, f cell.char ≠ []) : Reaches cells (flatMapCells f cells) := by
  intro cell member
  obtain ⟨c, rest, same⟩ := List.exists_cons_of_ne_nil (kept cell member)
  refine ⟨⟨c, cell.span⟩, ?_, le_refl _, le_refl _⟩
  exact List.mem_flatMap.mpr ⟨cell, member, by simp [same]⟩

theorem groupHull_reaches (last : Span) (group : List Cell) (cell : Cell) (member : cell ∈ group) :
    (groupHull last group).1 ≤ cell.span.1 ∧ cell.span.2 ≤ (groupHull last group).2 := by
  cases group with
  | nil => simp at member
  | cons first rest =>
      have bound := (foldl_join_bounds (rest.map Cell.span) first.span).2
      exact bound cell.span (by rw [← List.map_cons]; exact List.mem_map_of_mem member)

theorem reaches_alignCells (out : List (Char × Int)) (cells : List Cell) (last : Span)
    (all : totalConsumed out = cells.length) : Reaches cells (alignCells last cells out) := by
  induction out generalizing cells last with
  | nil =>
      obtain rfl := List.length_eq_zero_iff.mp all.symm
      simp [Reaches]
  | cons head out ih =>
      obtain ⟨c, diff⟩ := head
      rw [totalConsumed_cons] at all
      intro cell member
      rw [← List.take_append_drop (consumed diff) cells] at member
      rcases List.mem_append.mp member with taken | left
      · exact ⟨_, List.mem_cons_self, groupHull_reaches last _ cell taken⟩
      · obtain ⟨next, inside, bounds⟩ := ih (cells.drop (consumed diff))
          (groupHull last (cells.take (consumed diff))) (by rw [List.length_drop]; omega) cell left
        exact ⟨next, List.mem_cons_of_mem _ inside, bounds⟩

theorem reaches_prependBlank (cell : Cell) (rest : List Cell)
    (above : ∀ next ∈ rest, cell.span ≤ next.span) :
    Reaches (cell :: rest) (prependBlank cell.span rest) := by
  cases rest with
  | nil =>
      intro next member
      obtain rfl := List.mem_singleton.mp member
      exact ⟨⟨' ', next.span⟩, by simp [prependBlank], le_refl _, le_refl _⟩
  | cons first rest =>
      have below := above first (by simp)
      simp only [prependBlank]
      split
      · intro next member
        rcases List.mem_cons.mp member with rfl | member
        · exact ⟨_, List.mem_cons_self, le_refl _, Nat.le_max_left _ _⟩
        · rcases List.mem_cons.mp member with rfl | member
          · exact ⟨_, List.mem_cons_self, below.1, Nat.le_max_right _ _⟩
          · exact ⟨next, by simp [member], le_refl _, le_refl _⟩
      · intro next member
        rcases List.mem_cons.mp member with rfl | member
        · exact ⟨_, List.mem_cons_self, le_refl _, le_refl _⟩
        · exact ⟨next, List.mem_cons_of_mem _ member, le_refl _, le_refl _⟩

theorem Reaches.cons {cells later : List Cell} (reaches : Reaches cells later) (cell : Cell) :
    Reaches (cell :: cells) (cell :: later) := by
  intro next member
  rcases List.mem_cons.mp member with rfl | member
  · exact ⟨next, by simp, le_refl _, le_refl _⟩
  · obtain ⟨last, inside, bounds⟩ := reaches next member
    exact ⟨last, by simp [inside], bounds⟩

theorem reaches_collapseCells {P : Span → Prop}
    (closed : ∀ a b, P a → P b → a ≤ b → P (a.1, b.2)) (cells : List Cell)
    (aligned : Aligned P cells) : Reaches cells (collapseCells cells) := by
  induction cells with
  | nil => simp [Reaches]
  | cons cell rest ih =>
      obtain ⟨-, bound, tail⟩ := aligned_cons.mp aligned
      have reaches := (ih tail).cons cell
      unfold collapseCells
      split
      · have lower := (tail.collapseCells closed).2 cell.span bound
        exact reaches.trans (reaches_prependBlank cell (collapseCells rest) lower)
      · exact reaches

end Cells

section Run

variable (form : Text → List (Char × Int)) (fold : Char → List Char)

def Transform.onCells (cells : List Cell) : Transform → List Cell
  | .nfkc => alignCells (0, 0) cells (form (chars cells))
  | .asciiQuotes => flatMapCells (fun c => [NormalizedString.asciiQuote c]) cells
  | .asciiDashes => flatMapCells (fun c => [NormalizedString.asciiDash c]) cells
  | .asciiSpaces => flatMapCells (fun c => [NormalizedString.asciiSpace c]) cells
  | .caseFold => flatMapCells fold cells
  | .retainChars predicate => flatMapCells (fun c => if predicate c then [c] else []) cells
  | .collapseWhitespaceRuns => collapseCells cells

theorem totalConsumed_chars (inOrder : InOrder form) (cells : List Cell) :
    totalConsumed (form (chars cells)) = cells.length := by
  rw [inOrder, chars, List.length_map]

theorem Transform.apply_ofCells (inOrder : InOrder form) (original : Text) (cells : List Cell)
    (transform : Transform) :
    transform.apply form fold (.ofCells original cells) =
      some (.ofCells original (transform.onCells form fold cells)) := by
  cases transform with
  | nfkc => exact nfkc_eq form original cells (totalConsumed_chars form inOrder cells).le
  | asciiQuotes =>
      rw [onCells, flatMapCells_singleton]
      exact mapChars_eq _ original cells
  | asciiDashes =>
      rw [onCells, flatMapCells_singleton]
      exact mapChars_eq _ original cells
  | asciiSpaces =>
      rw [onCells, flatMapCells_singleton]
      exact mapChars_eq _ original cells
  | caseFold => exact flatMapChars_eq fold original cells
  | retainChars predicate => exact retainChars_eq predicate original cells
  | collapseWhitespaceRuns => exact collapseWhitespaceRuns_eq original cells

theorem Transform.onCells_aligned (inOrder : InOrder form) {P : Span → Prop} (zero : P (0, 0))
    (closed : ∀ a b, P a → P b → a ≤ b → P (a.1, b.2)) {cells : List Cell}
    (aligned : Aligned P cells) (transform : Transform) :
    Aligned P (transform.onCells form fold cells) := by
  cases transform with
  | nfkc =>
      exact (aligned.alignCells closed _ (0, 0) (fun cell _ => ⟨Nat.zero_le _, Nat.zero_le _⟩)
        (totalConsumed_chars form inOrder cells).le (.inl zero)).1
  | collapseWhitespaceRuns => exact (aligned.collapseCells closed).1
  | _ =>
      simp only [onCells]
      exact aligned.flatMapCells _

theorem Transform.onCells_reaches (inOrder : InOrder form) (folds : ∀ c, fold c ≠ [])
    {P : Span → Prop} (closed : ∀ a b, P a → P b → a ≤ b → P (a.1, b.2)) {cells : List Cell}
    (aligned : Aligned P cells) (transform : Transform) (keeps : transform.Keeps) :
    Reaches cells (transform.onCells form fold cells) := by
  cases transform with
  | nfkc => exact reaches_alignCells _ cells (0, 0) (totalConsumed_chars form inOrder cells)
  | collapseWhitespaceRuns => exact reaches_collapseCells closed cells aligned
  | caseFold => exact reaches_flatMapCells fold cells fun cell _ => folds cell.char
  | retainChars => exact absurd keeps id
  | _ =>
      simp only [onCells]
      exact reaches_flatMapCells _ cells (by simp)

theorem foldlM_onCells (inOrder : InOrder form) {P : Span → Prop} (zero : P (0, 0))
    (closed : ∀ a b, P a → P b → a ≤ b → P (a.1, b.2)) (original : Text) (cells : List Cell)
    (aligned : Aligned P cells) (transforms : List Transform) :
    ∃ final, transforms.foldlM (Transform.apply form fold) (.ofCells original cells) =
        some (.ofCells original final) ∧ Aligned P final ∧
      ((∀ c, fold c ≠ []) → (∀ transform ∈ transforms, transform.Keeps) →
        Reaches cells final) := by
  induction transforms generalizing cells with
  | nil => exact ⟨cells, rfl, aligned, fun _ _ cell member => ⟨cell, member, le_refl _, le_refl _⟩⟩
  | cons transform rest ih =>
      have next := transform.onCells_aligned form fold inOrder zero closed aligned
      obtain ⟨final, run, kept, reaches⟩ := ih _ next
      refine ⟨final, ?_, kept, ?_⟩
      · rw [List.foldlM_cons, transform.apply_ofCells form fold inOrder]
        exact run
      · intro folds keeps
        have step := transform.onCells_reaches form fold inOrder folds closed aligned
          (keeps transform (by simp))
        exact step.trans (reaches folds fun other member => keeps other (by simp [member]))

theorem isAligned_ofCells (text : Text) (cells : List Cell)
    (aligned : Aligned (fun span => Range.Valid text ⟨span.1, span.2⟩) cells) :
    (NormalizedString.ofCells text cells).IsAligned where
  perByte := spanTable_length cells
  shared := by
    intro before c after same i inside
    obtain ⟨left, tail, rfl, rfl, rest⟩ := List.map_eq_append_iff.mp same
    obtain ⟨cell, right, rfl, rfl, rfl⟩ := List.map_eq_cons_iff.mp rest
    exact (spanTable_lookup left cell right i inside).trans
      (spanTable_first left cell right).symm
  valid := by
    intro span member
    obtain ⟨cell, inside, repeated⟩ := List.mem_flatMap.mp member
    rw [List.eq_of_mem_replicate repeated]
    exact aligned.each cell inside
  ordered := by
    apply List.pairwise_flatMap.mpr
    constructor
    · intro cell _
      exact List.pairwise_replicate.mpr (.inr ⟨le_refl _, le_refl _⟩)
    · apply aligned.ordered.imp
      intro first next below a inFirst b inNext
      rw [List.eq_of_mem_replicate inFirst, List.eq_of_mem_replicate inNext]
      exact below

theorem covers_ofCells (text : Text) (small : byteLength text < 2 ^ 32) (cells : List Cell)
    (reaches : Reaches (sourceCells 0 text) cells) :
    (NormalizedString.ofCells text cells).Covers := by
  have source (offset : Nat) (rest : Text) (fits : offset + byteLength rest < 2 ^ 32) (i : Nat)
      (above : offset ≤ i) (below : i < offset + byteLength rest) :
      ∃ cell ∈ sourceCells offset rest, cell.span.1 ≤ i ∧ i < cell.span.2 := by
    induction rest generalizing offset with
    | nil =>
        simp only [byteLength_nil] at below
        omega
    | cons c rest ih =>
        simp only [byteLength_cons] at fits below
        by_cases own : i < offset + c.utf8Size
        · refine ⟨_, List.mem_cons_self, ?_⟩
          simp only [u32]
          omega
        · obtain ⟨cell, member, bounds⟩ := ih (offset + c.utf8Size) (by omega) (by omega) (by omega)
          exact ⟨cell, List.mem_cons_of_mem _ member, bounds⟩
  intro i inText
  obtain ⟨cell, member, low, high⟩ := source 0 text (by omega) i (Nat.zero_le i)
    (by rw [Nat.zero_add]; exact inText)
  obtain ⟨next, inside, low', high'⟩ := reaches cell member
  refine ⟨next.span, List.mem_flatMap.mpr ⟨next, inside, ?_⟩, by omega, by omega⟩
  exact List.mem_replicate.mpr ⟨next.char.utf8Size_pos.ne', rfl⟩

/-- What the table promises of the ranges that it maps. -/
structure SplicesWell (string : NormalizedString) (gapless : Prop) (range : Range) : Prop where
  valid : ∃ out, string.spliceRangeOriginal range = some out ∧ out.Valid string.original
  hull : range.start < range.stop → ∀ out, string.spliceRangeOriginal range = some out →
    string.IsHull range out
  position : range.start = range.stop → string.spliceRangeOriginal range =
    some ⟨string.insertionPoint range.start, string.insertionPoint range.start⟩
  within : ∀ wider : Range, wider.Valid string.normalized → range.Within wider →
    (range.start = wider.stop → wider.start < wider.stop → gapless) →
    ∀ out out', string.spliceRangeOriginal range = some out →
      string.spliceRangeOriginal wider = some out' → out.Within out'
  before : ∀ later : Range, later.Valid string.normalized → range.Before later →
    later.start < later.stop →
    ∀ out out', string.spliceRangeOriginal range = some out →
      string.spliceRangeOriginal later = some out' → out.Before out'

theorem NormalizedString.IsAligned.splicesWell {string : NormalizedString}
    (aligned : string.IsAligned) (gapless : Prop) (covers : gapless → string.Covers)
    (range : Range) (valid : range.Valid string.normalized) :
    SplicesWell string gapless range where
  valid := aligned.valid_splice range valid.ordered valid.stop.le
  hull := fun nonempty out spliced => (aligned.hull range nonempty valid.stop.le out spliced).2
  position := by
    intro empty
    obtain ⟨position, stop⟩ := range
    obtain rfl : position = stop := empty
    exact aligned.splice_empty position valid.stop.le
  within := fun wider inside within reached out out' =>
    aligned.splice_within range wider out out' valid.ordered within inside.stop.le
      fun final nonempty => covers (reached final nonempty)
  before := fun later inside before nonempty out out' =>
    aligned.splice_before range later out out' valid.ordered before nonempty inside.stop.le

theorem chain_aligned (inOrder : InOrder form) (folds : ∀ c, fold c ≠ []) (text : Text)
    (small : byteLength text < 2 ^ 32) (transforms : List Transform) :
    ∃ string, chain form fold text transforms = some string ∧ string.original = text ∧
      string.IsAligned ∧ ((∀ transform ∈ transforms, transform.Keeps) → string.Covers) ∧
      ∀ range : Range, range.Valid string.normalized →
        SplicesWell string (∀ transform ∈ transforms, transform.Keeps) range := by
  have start : Range.Valid text ⟨0, 0⟩ := ⟨le_refl 0, isBoundary_zero text, isBoundary_zero text⟩
  obtain ⟨cells, run, aligned, reaches⟩ := foldlM_onCells form fold inOrder start
    (valid_merge text) text _ (sourceCells_valid text small) transforms
  have kept := isAligned_ofCells text cells aligned
  have covers := fun keeps => covers_ofCells text small cells (reaches folds keeps)
  refine ⟨_, ?_, rfl, kept, covers, kept.splicesWell _ covers⟩
  rw [chain, fromStr_eq]
  exact run

end Run

section Escape

def sharpFold (c : Char) : List Char := if c = 'ß' then ['s', 's'] else [c]

theorem sharpFold_ne_nil (c : Char) : sharpFold c ≠ [] := by
  unfold sharpFold
  split <;> simp

theorem chain_aligned_folded :
    ∃ string, chain plainForm sharpFold ['ß', '–', ' ', ' ', 'a']
        [.nfkc, .asciiDashes, .caseFold, .collapseWhitespaceRuns] = some string ∧
      string.original = ['ß', '–', ' ', ' ', 'a'] ∧ string.IsAligned ∧
      ((∀ transform ∈ [Transform.nfkc, .asciiDashes, .caseFold, .collapseWhitespaceRuns],
        transform.Keeps) → string.Covers) ∧
      ∀ range : Range, range.Valid string.normalized →
        SplicesWell string (∀ transform ∈
          [Transform.nfkc, .asciiDashes, .caseFold, .collapseWhitespaceRuns],
            transform.Keeps) range :=
  chain_aligned plainForm sharpFold plainForm_inOrder sharpFold_ne_nil _ (by decide) _

theorem position_escapes :
    (¬ ∀ text transforms string, byteLength text < 2 ^ 32 →
      chain plainForm sharpFold text transforms = some string →
      ∀ range wider out out' : Range, range.Valid string.normalized →
        wider.Valid string.normalized → range.Within wider →
        string.spliceRangeOriginal range = some out →
        string.spliceRangeOriginal wider = some out' → out.Within out') ∧
    ¬ ∀ text transforms string, byteLength text < 2 ^ 32 →
      chain plainForm sharpFold text transforms = some string →
      ∀ range later out out' : Range, range.Valid string.normalized →
        later.Valid string.normalized → range.Before later →
        string.spliceRangeOriginal range = some out →
        string.spliceRangeOriginal later = some out' → out.Before out' := by
  constructor
  · intro claim
    have escaped := claim ['a', '.'] [.retainChars (· == 'a')] ⟨['a', '.'], ['a'], [(0, 1)]⟩
      (by decide) rfl ⟨1, 1⟩ ⟨0, 1⟩ ⟨2, 2⟩ ⟨0, 1⟩
      ⟨by decide, by decide, by decide⟩ ⟨by decide, by decide, by decide⟩
      ⟨by decide, by decide⟩ rfl rfl
    exact absurd escaped.2 (by decide)
  · intro claim
    have escaped := claim ['ß'] [.caseFold] ⟨['ß'], ['s', 's'], [(0, 2), (0, 2)]⟩
      (by decide) rfl ⟨0, 1⟩ ⟨1, 1⟩ ⟨0, 2⟩ ⟨0, 0⟩
      ⟨by decide, by decide, by decide⟩ ⟨by decide, by decide, by decide⟩
      ⟨by decide, by decide⟩ rfl rfl
    exact absurd escaped.2 (by decide)

end Escape

end Frona.Text
