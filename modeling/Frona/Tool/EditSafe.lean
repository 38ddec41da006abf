import Frona.Tool.EditRanges
import Mathlib.Data.List.Forall2

set_option autoImplicit false

namespace Frona.Tool

open Utf8 Frona.Text

section Matches

def matchRange (fileNs needleNs : NormalizedString) (needle : Text) (nstart : Nat) :
    Option Range := do
  let span ← fileNs.spliceRangeOriginal ⟨nstart, nstart + byteLength needle⟩
  clampBoundaryRuns fileNs needleNs needle nstart (nstart + byteLength needle) span

theorem matchRanges_eq (fileNs needleNs : NormalizedString) (needle : Text) (hits : List Nat)
    (Q : Nat → Range → Prop)
    (found : ∀ hit ∈ hits, ∃ range, matchRange fileNs needleNs needle hit = some range ∧
      Q hit range) :
    ∃ ranges, matchRanges fileNs needleNs needle hits = some (.ok ranges) ∧
      List.Forall₂ (fun hit range => matchRange fileNs needleNs needle hit = some range ∧
        Q hit range) hits ranges := by
  induction hits with
  | nil => exact ⟨[], rfl, .nil⟩
  | cons nstart rest ih =>
      obtain ⟨range, head, holds⟩ := found nstart (by simp)
      obtain ⟨ranges, tail, each⟩ := ih fun hit member => found hit (by simp [member])
      obtain ⟨span, spliced, clamped⟩ := Option.bind_eq_some_iff.mp head
      refine ⟨range :: ranges, ?_, .cons ⟨head, holds⟩ each⟩
      simp only [matchRanges, spliced, clamped, tail, Option.bind_eq_bind, Option.bind_some]
      rfl

/-- The cells that a match covers. -/
structure Covers (file needle before cells after : List Cell) (nstart : Nat) : Prop where
  whole : file = before ++ (cells ++ after)
  same : chars cells = chars needle
  position : byteLength (chars before) = nstart

theorem exists_covers (file needle : List Cell) (nstart : Nat)
    (occurs : Occurs (chars file) (chars needle) nstart) :
    ∃ before cells after, Covers file needle before cells after nstart := by
  obtain ⟨left, right, same, size⟩ := occurs
  obtain ⟨before, tail, rfl, rfl, rest⟩ := List.map_eq_append_iff.mp same
  obtain ⟨cells, after, rfl, covered, rfl⟩ := List.map_eq_append_iff.mp rest
  exact ⟨before, cells, after, rfl, covered, size⟩

theorem matchRange_eq (fileText needleText : Text) (before cells after needle : List Cell)
    (first last spelledFirst spelledLast : Cell) (stretch : Stretch cells first last)
    (spelling : Stretch needle spelledFirst spelledLast) (same : chars cells = chars needle)
    (order : first.span ≤ last.span) (firstOrder : first.span.1 ≤ first.span.2)
    (lastOrder : last.span.1 ≤ last.span.2) :
    let start := cutStart (chars needle) first spelledFirst
    let stop := cutStop (chars needle) last spelledLast
    matchRange (.ofCells fileText (before ++ (cells ++ after))) (.ofCells needleText needle)
        (chars needle) (byteLength (chars before)) = some ⟨start, max start stop⟩ := by
  intro start stop
  have spliced := spliceRangeOriginal_eq fileText before cells after first last stretch
  rw [same] at spliced
  simp only [matchRange, spliced, Option.bind_eq_bind, Option.bind_some]
  exact clampBoundaryRuns_eq fileText needleText before cells after needle first last
    spelledFirst spelledLast stretch spelling same order firstOrder lastOrder

end Matches

section Fitting

def sourceOf (ns : NormalizedString) (i : Nat) : Option Text := do
  let range ← ns.spliceRangeOriginal ⟨i, i + 1⟩
  slice ns.original range.start range.stop

def PrefixFits (run : Text) (bytes : Nat) : Prop :=
  byteLength run ≤ bytes ∨ IsBoundary run bytes

def SuffixFits (run : Text) (bytes : Nat) : Prop :=
  byteLength run ≤ bytes ∨ IsBoundary run (byteLength run - bytes)

theorem tailCut_isBoundary (original run : Text) (span : Span) (bytes : Nat)
    (sliced : slice original span.1 span.2 = some run) :
    IsBoundary original (tailCut span bytes) ↔ PrefixFits run bytes := by
  obtain ⟨before, after, rfl, start, stop⟩ := (slice_eq_some _ _ _ _).mp sliced
  have width : span.2 - span.1 = byteLength run := by omega
  rw [tailCut, width, ← start, isBoundary_append _ _ _ _ (Nat.min_le_right _ _), PrefixFits]
  rcases Nat.le_total (byteLength run) bytes with long | short
  · simp [long, isBoundary_length]
  · rw [Nat.min_eq_left short]
    constructor
    · exact .inr
    · rintro (long | boundary)
      · rw [show bytes = byteLength run by omega]
        exact isBoundary_length run
      · exact boundary

theorem headCut_isBoundary (original run : Text) (span : Span) (bytes : Nat)
    (sliced : slice original span.1 span.2 = some run) :
    IsBoundary original (headCut span bytes) ↔ SuffixFits run bytes := by
  obtain ⟨before, after, rfl, start, stop⟩ := (slice_eq_some _ _ _ _).mp sliced
  have width : span.2 - span.1 = byteLength run := by omega
  have position : headCut span bytes =
      byteLength before + (byteLength run - min bytes (byteLength run)) := by
    rw [headCut, width]
    omega
  rw [position, isBoundary_append _ _ _ _ (Nat.sub_le _ _), SuffixFits]
  rcases Nat.le_total (byteLength run) bytes with long | short
  · simp [long, isBoundary_zero]
  · rw [Nat.min_eq_left short]
    constructor
    · exact .inr
    · rintro (long | boundary)
      · rw [show byteLength run - bytes = 0 by omega]
        exact isBoundary_zero run
      · exact boundary

def Crossed (fileNs needleNs : NormalizedString) (needle : Text) (nstart : Nat) : Prop :=
  startsBlank needle = true ∧ ∃ first last,
    fileNs.spliceRangeOriginal ⟨nstart, nstart + 1⟩ = some first ∧
    fileNs.spliceRangeOriginal
      ⟨nstart + byteLength needle - 1, nstart + byteLength needle - 1 + 1⟩ = some last ∧
    last.start + min (spelled needleNs (byteLength needle - 1)) last.length <
      first.stop - min (spelled needleNs 0) first.length

/-- What the needle spells of a boundary run has the length of whole characters of the file's
run. -/
structure RunsFit (fileNs needleNs : NormalizedString) (needle : Text) (nstart : Nat) :
    Prop where
  head : startsBlank needle = true → ∃ run, sourceOf fileNs nstart = some run ∧
    SuffixFits run (spelled needleNs 0)
  tail : endsBlank needle = true → Crossed fileNs needleNs needle nstart ∨
    ∃ run, sourceOf fileNs (nstart + byteLength needle - 1) = some run ∧
      PrefixFits run (spelled needleNs (byteLength needle - 1))

section Match

variable (fileText needleText : Text) (before cells after needle : List Cell)
  (first last spelledFirst spelledLast : Cell) (stretch : Stretch cells first last)
  (spelling : Stretch needle spelledFirst spelledLast) (same : chars cells = chars needle)
include stretch spelling same

theorem head_fits_iff (sliceable : Sliceable fileText first.span)
    (blank : startsBlank (chars needle) = true) :
    IsBoundary fileText (cutStart (chars needle) first spelledFirst) ↔
      ∃ run, sourceOf (.ofCells fileText (before ++ (cells ++ after)))
          (byteLength (chars before)) = some run ∧
        SuffixFits run (spelled (.ofCells needleText needle) 0) := by
  have spelledBlank := startsBlank_first _ needle _ _ spelling rfl blank
  have run := splice_first fileText before cells after needle first last stretch same blank
  obtain ⟨source, sliced⟩ := sliceable.slice
  rw [spelled_first needleText needle _ _ spelling spelledBlank, cutStart, if_pos blank,
    headCut_isBoundary fileText source first.span _ sliced]
  simp only [sourceOf, run, Option.bind_eq_bind, Option.bind_some]
  rw [show (NormalizedString.ofCells fileText (before ++ (cells ++ after))).original =
    fileText from rfl, sliced]
  simp

theorem tail_fits_iff (sliceable : Sliceable fileText last.span)
    (blank : endsBlank (chars needle) = true) :
    IsBoundary fileText (cutStop (chars needle) last spelledLast) ↔
      ∃ run, sourceOf (.ofCells fileText (before ++ (cells ++ after)))
          (byteLength (chars before) + byteLength (chars needle) - 1) = some run ∧
        PrefixFits run (spelled (.ofCells needleText needle) (byteLength (chars needle) - 1)) := by
  have spelledBlank := (endsBlank_last _ needle _ _ spelling rfl).mp blank
  have run := splice_last fileText before cells after needle first last stretch same blank
  obtain ⟨source, sliced⟩ := sliceable.slice
  rw [spelled_last needleText needle _ _ spelling spelledBlank, cutStop, if_pos blank,
    tailCut_isBoundary fileText source last.span _ sliced]
  simp only [sourceOf, run, Option.bind_eq_bind, Option.bind_some]
  rw [show (NormalizedString.ofCells fileText (before ++ (cells ++ after))).original =
    fileText from rfl, sliced]
  simp

theorem crossed_iff (blank : endsBlank (chars needle) = true) (order : first.span ≤ last.span) :
    Crossed (.ofCells fileText (before ++ (cells ++ after))) (.ofCells needleText needle)
        (chars needle) (byteLength (chars before)) ↔
      cutStop (chars needle) last spelledLast < cutStart (chars needle) first spelledFirst := by
  have lastBlank := (endsBlank_last _ needle _ _ spelling rfl).mp blank
  have final := splice_last fileText before cells after needle first last stretch same blank
  have finalSpelled := spelled_last needleText needle _ _ spelling lastBlank
  unfold Crossed
  by_cases starts : startsBlank (chars needle) = true
  · have firstBlank := startsBlank_first _ needle _ _ spelling rfl starts
    have initial := splice_first fileText before cells after needle first last stretch same starts
    have initialSpelled := spelled_first needleText needle _ _ spelling firstBlank
    simp [starts, blank, initial, final, initialSpelled, finalSpelled, cutStart, cutStop,
      headCut, tailCut, Range.length]
  · have : ¬ cutStop (chars needle) last spelledLast < cutStart (chars needle) first spelledFirst := by
      have := order.1
      simp only [cutStart, cutStop, blank, starts, if_true, Bool.false_eq_true, if_false, tailCut]
      omega
    simp [starts, this]

theorem matchRange_valid_iff (order : first.span ≤ last.span)
    (firstSlice : Sliceable fileText first.span) (lastSlice : Sliceable fileText last.span) :
    ∃ range, matchRange (.ofCells fileText (before ++ (cells ++ after)))
        (.ofCells needleText needle) (chars needle) (byteLength (chars before)) = some range ∧
      (range.Valid fileText ↔
        RunsFit (.ofCells fileText (before ++ (cells ++ after))) (.ofCells needleText needle)
          (chars needle) (byteLength (chars before))) := by
  have computed := matchRange_eq fileText needleText before cells after needle first last
    spelledFirst spelledLast stretch spelling same order firstSlice.ordered lastSlice.ordered
  refine ⟨_, computed, ?_⟩
  have headFits (blank : startsBlank (chars needle) = true) :=
    head_fits_iff fileText needleText before cells after needle first last spelledFirst
      spelledLast stretch spelling same firstSlice blank
  have tailFits (blank : endsBlank (chars needle) = true) :=
    tail_fits_iff fileText needleText before cells after needle first last spelledFirst
      spelledLast stretch spelling same lastSlice blank
  have crossing (blank : endsBlank (chars needle) = true) :=
    crossed_iff fileText needleText before cells after needle first last spelledFirst
      spelledLast stretch spelling same blank order
  constructor
  · intro valid
    refine ⟨fun blank => (headFits blank).mp valid.start, fun blank => ?_⟩
    rw [crossing blank, ← tailFits blank]
    by_cases crossed : cutStop (chars needle) last spelledLast <
        cutStart (chars needle) first spelledFirst
    · exact .inl crossed
    · right
      have stop := valid.stop
      rwa [Nat.max_eq_right (by omega)] at stop
  · intro fit
    have start : IsBoundary fileText (cutStart (chars needle) first spelledFirst) := by
      by_cases blank : startsBlank (chars needle) = true
      · exact (headFits blank).mpr (fit.head blank)
      · rw [cutStart, if_neg blank]
        exact firstSlice.start
    refine ⟨Nat.le_max_left _ _, start, ?_⟩
    by_cases blank : endsBlank (chars needle) = true
    · have stops := fit.tail blank
      rw [crossing blank, ← tailFits blank] at stops
      rcases stops with crossed | boundary
      · rwa [Nat.max_eq_left (by omega)]
      · rcases Nat.le_total (cutStop (chars needle) last spelledLast)
          (cutStart (chars needle) first spelledFirst) with less | less
        · rwa [Nat.max_eq_left less]
        · rwa [Nat.max_eq_right less]
    · have within : cutStart (chars needle) first spelledFirst ≤
          cutStop (chars needle) last spelledLast := by
        have below : first.span.2 ≤ last.span.2 := order.2
        have ordered : first.span.1 ≤ first.span.2 := firstSlice.ordered
        simp only [cutStart, cutStop, blank, headCut, Bool.false_eq_true, if_false]
        split <;> omega
      rw [Nat.max_eq_right within, cutStop, if_neg blank]
      exact lastSlice.stop

end Match

end Fitting

section Edit

variable (form : Form) (original oldString : Text) (replaceAll : Bool)

def Rescued (exact hits : List Nat) : Prop :=
  exact = [] ∧ (replaceAll = true ∨ hits.length ≤ 1) ∨
    replaceAll = true ∧ exact.length < hits.length

def BoundaryRunsFit : Prop :=
  ∀ fileNs needleNs exact hits,
    normalize form (NormalizedString.fromStr original) = some fileNs →
    normalize form (NormalizedString.fromStr oldString) = some needleNs →
    findAll original oldString = some exact →
    findAll fileNs.normalized needleNs.normalized = some hits →
    Rescued replaceAll exact hits →
    ∀ nstart ∈ hits, RunsFit fileNs needleNs needleNs.normalized nstart

structure EditSafe (newString : Text) : Prop where
  returns : (applyEdit form original oldString newString replaceAll).isSome
  ranges : ∀ ranges tier, editRanges form original oldString replaceAll = some (.ok (ranges, tier)) →
    ∀ r ∈ ranges, r.start ≤ r.stop ∧ r.stop ≤ byteLength original ∧
      IsBoundary original r.start ∧ IsBoundary original r.stop

variable (inOrder : InOrder form) (small : byteLength original < 2 ^ 32)
include inOrder small

theorem matchRange_of_occurs (nstart : Nat) (nonempty : normalCells form oldString ≠ [])
    (occurs : Occurs (chars (normalCells form original)) (chars (normalCells form oldString)) nstart) :
    ∃ range, matchRange (.ofCells original (normalCells form original))
        (.ofCells oldString (normalCells form oldString)) (chars (normalCells form oldString))
        nstart = some range ∧
      (range.Valid original ↔
        RunsFit (.ofCells original (normalCells form original))
          (.ofCells oldString (normalCells form oldString)) (chars (normalCells form oldString))
          nstart) := by
  obtain ⟨before, cells, after, whole, same, rfl⟩ := exists_covers _ _ nstart occurs
  have aligned := normalCells_sliceable form inOrder original small
  rw [whole] at aligned ⊢
  have covered : cells ≠ [] := by
    rintro rfl
    exact nonempty (List.map_eq_nil_iff.mp same.symm)
  obtain ⟨first, last, stretch⟩ := exists_stretch cells covered
  obtain ⟨spelledFirst, spelledLast, spelling⟩ := exists_stretch _ nonempty
  have firstIn : first ∈ before ++ (cells ++ after) := by simp [stretch.first_mem]
  have lastIn : last ∈ before ++ (cells ++ after) := by simp [stretch.last_mem]
  have ordered := (List.pairwise_append.mp (List.pairwise_append.mp aligned.ordered).2.1).1
  have order := (stretch.bounds ordered last stretch.last_mem).1
  exact matchRange_valid_iff original oldString before cells after _ first last spelledFirst
    spelledLast stretch spelling same order (aligned.each first firstIn)
    (aligned.each last lastIn)

theorem normalizedRanges_eq (nonempty : normalCells form oldString ≠ []) :
    ∃ hits ranges, findAll (chars (normalCells form original))
        (chars (normalCells form oldString)) = some hits ∧
      List.Forall₂ (fun hit range => matchRange (.ofCells original (normalCells form original))
        (.ofCells oldString (normalCells form oldString)) (chars (normalCells form oldString))
        hit = some range ∧
        (range.Valid original ↔
          RunsFit (.ofCells original (normalCells form original))
            (.ofCells oldString (normalCells form oldString))
            (chars (normalCells form oldString)) hit)) hits ranges ∧
      normalizedRanges form original oldString replaceAll =
        some (if hits = [] then .error .notFound
          else if hits.length > 1 ∧ replaceAll = false then .error (.ambiguous hits.length)
          else .ok ranges) := by
  have needle : chars (normalCells form oldString) ≠ [] := fun empty =>
    nonempty (List.map_eq_nil_iff.mp empty)
  obtain ⟨hits, found, occurs⟩ := findAll_occurs (chars (normalCells form original)) _ needle
  obtain ⟨ranges, matched, computed⟩ := matchRanges_eq
    (.ofCells original (normalCells form original))
    (.ofCells oldString (normalCells form oldString)) (chars (normalCells form oldString)) hits _
    fun hit member => matchRange_of_occurs form original oldString inOrder small hit nonempty
      (occurs hit member)
  refine ⟨hits, ranges, found, computed, ?_⟩
  · have empty : (NormalizedString.ofCells oldString (normalCells form oldString)).normalized.isEmpty
        = false := by simpa [NormalizedString.ofCells] using needle
    simp only [normalizedRanges, normalize_eq form inOrder, Option.bind_eq_bind,
      Option.bind_some, empty, Bool.false_eq_true, if_false]
    simp only [NormalizedString.ofCells] at found matched ⊢
    rw [found]
    simp only [Option.bind_some]
    by_cases none : hits = []
    · simp [none]
    · by_cases many : hits.length > 1 ∧ replaceAll = false
      · simp [none, many]
      · have selected : selectMatches replaceAll hits = hits := by
          unfold selectMatches
          split
          · rfl
          · rename_i single
            apply List.take_of_length_le
            simp only [not_and, Bool.not_eq_false] at many
            by_contra more
            exact single (many (by omega))
        have few : (decide (hits.length > 1) && !replaceAll) = false := by
          simpa using many
        simp [none, many, few, selected, matched]

omit small in
theorem normalCells_ne_nil (text : Text) (nonempty : text ≠ []) : normalCells form text ≠ [] := by
  have some : form text ≠ [] := by
    intro empty
    have := inOrder text
    rw [empty] at this
    exact nonempty (List.length_eq_zero_iff.mp this.symm)
  obtain ⟨⟨c, diff⟩, out, listed⟩ := List.exists_cons_of_ne_nil some
  simp only [normalCells, formCells, listed, alignCells, List.map_cons, collapseCells]
  split
  · exact prependBlank_ne_nil _ _
  · simp

theorem editRanges_eq (nonempty : oldString ≠ []) :
    ∃ exact hits ranges, findAll original oldString = some exact ∧
      findAll (chars (normalCells form original)) (chars (normalCells form oldString)) =
        some hits ∧
      List.Forall₂ (fun hit range => matchRange (.ofCells original (normalCells form original))
        (.ofCells oldString (normalCells form oldString)) (chars (normalCells form oldString))
        hit = some range ∧
        (range.Valid original ↔
          RunsFit (.ofCells original (normalCells form original))
            (.ofCells oldString (normalCells form oldString))
            (chars (normalCells form oldString)) hit)) hits ranges ∧
      (hits ≠ [] → Rescued replaceAll exact hits →
        editRanges form original oldString replaceAll = some (.ok (ranges, .normalized))) ∧
      (¬ (hits ≠ [] ∧ Rescued replaceAll exact hits) →
        (∃ outcome, editRanges form original oldString replaceAll = some (.error outcome) ∧
          ∀ rewritten count tier, outcome ≠ .applied rewritten count tier) ∨
        ∃ taken, editRanges form original oldString replaceAll = some (.ok (taken, .exact)) ∧
          ∀ r ∈ taken, r.Valid original) := by
  obtain ⟨exact, exactFound, occurs⟩ := findAll_occurs original oldString nonempty
  obtain ⟨hits, ranges, hitsFound, each, computed⟩ := normalizedRanges_eq form original oldString
    replaceAll inOrder small (normalCells_ne_nil form inOrder oldString nonempty)
  have taken : ∀ r ∈ (selectMatches replaceAll exact).map
      (fun s => (⟨s, s + byteLength oldString⟩ : Range)), r.Valid original := by
    intro r member
    obtain ⟨s, selected, rfl⟩ := List.mem_map.mp member
    apply (occurs s _).valid
    unfold selectMatches at selected
    split at selected
    · exact selected
    · exact List.mem_of_mem_take selected
  have sizes := each.length_eq
  refine ⟨exact, hits, ranges, exactFound, hitsFound, each, ?_, ?_⟩
  · intro matched rescued
    unfold editRanges
    simp only [exactFound, computed, matched, Option.bind_eq_bind, Option.bind_some, if_false]
    rcases rescued with ⟨rfl, wanted⟩ | ⟨rfl, more⟩
    · have few : ¬ (hits.length > 1 ∧ replaceAll = false) := by
        rintro ⟨many, single⟩
        rcases wanted with all | few
        · simp [all] at single
        · omega
      rw [if_neg few]
      simp [Except.map]
    · have few : ¬ (hits.length > 1 ∧ true = false) := by simp
      rw [if_neg few]
      simp only [selectMatches, if_true, List.length_map, Bool.not_true, Bool.and_false,
        Bool.false_eq_true, if_false]
      by_cases empty : exact = []
      · simp [empty, Except.map]
      · have nonempty : exact.isEmpty = false := by simpa using empty
        rw [nonempty]
        simp only [Bool.false_eq_true, if_false]
        rw [if_pos (by omega)]
        rfl
  · intro exactPass
    unfold editRanges
    simp only [exactFound, computed, Option.bind_eq_bind, Option.bind_some]
    by_cases many : (decide (exact.length > 1) && !replaceAll) = true
    · rw [if_pos many]
      exact .inl ⟨_, rfl, by simp⟩
    · rw [if_neg many]
      by_cases empty : exact = []
      · left
        subst empty
        simp only [List.isEmpty_nil, if_true]
        by_cases none : hits = []
        · rw [if_pos none]
          exact ⟨_, rfl, by simp⟩
        · rw [if_neg none]
          have ambiguous : hits.length > 1 ∧ replaceAll = false := by
            by_contra few
            apply exactPass
            refine ⟨none, .inl ⟨rfl, ?_⟩⟩
            by_cases all : replaceAll = true
            · exact .inl all
            · right
              by_contra more
              exact few ⟨by omega, by simpa using all⟩
          rw [if_pos ambiguous]
          exact ⟨_, rfl, by simp⟩
      · right
        have nonempty : exact.isEmpty = false := by simpa using empty
        rw [nonempty]
        simp only [Bool.false_eq_true, if_false]
        cases replaceAll with
        | false => exact ⟨_, rfl, taken⟩
        | true =>
            simp only [if_true]
            by_cases none : hits = []
            · rw [if_pos none]
              exact ⟨_, rfl, taken⟩
            · have few : ¬ (hits.length > 1 ∧ true = false) := by simp
              rw [if_neg none, if_neg few]
              have fewer : ¬ ranges.length > ((selectMatches true exact).map
                  (fun s => (⟨s, s + byteLength oldString⟩ : Range))).length := by
                simp only [selectMatches, if_true, List.length_map]
                intro more
                exact exactPass ⟨none, .inr ⟨rfl, by omega⟩⟩
              simp only [if_neg fewer]
              exact ⟨_, rfl, taken⟩

theorem editSafe_iff (newString : Text) (nonempty : oldString ≠ []) :
    EditSafe form original oldString replaceAll newString ↔
      BoundaryRunsFit form original oldString replaceAll := by
  obtain ⟨exact, hits, ranges, exactFound, hitsFound, each, rescue, otherwise⟩ :=
    editRanges_eq form original oldString replaceAll inOrder small nonempty
  have filled : oldString.isEmpty = false := by simpa using nonempty
  constructor
  · intro safe fileNs needleNs exact' hits' file needle exactFound' hitsFound' rescued nstart member
    rw [normalize_eq form inOrder] at file needle
    obtain rfl := Option.some.inj file
    obtain rfl := Option.some.inj needle
    obtain rfl := Option.some.inj (exactFound.symm.trans exactFound')
    obtain rfl := Option.some.inj (hitsFound.symm.trans hitsFound')
    have planned := rescue (List.ne_nil_of_mem member) rescued
    obtain ⟨i, inHits, rfl⟩ := List.getElem_of_mem member
    have inRanges : i < ranges.length := each.length_eq ▸ inHits
    have here := each.get inHits inRanges
    obtain ⟨ordered, _, start, stop⟩ :=
      safe.ranges ranges .normalized planned ranges[i] (List.getElem_mem inRanges)
    exact here.2.mp ⟨ordered, start, stop⟩
  · intro fit
    have valid : ∀ chosen tier,
        editRanges form original oldString replaceAll = some (.ok (chosen, tier)) →
        ∀ r ∈ chosen, r.Valid original := by
      intro chosen tier planned r member
      by_cases rescued : hits ≠ [] ∧ Rescued replaceAll exact hits
      · rw [rescue rescued.1 rescued.2] at planned
        obtain ⟨rfl, rfl⟩ : ranges = chosen ∧ MatchTier.normalized = tier := by
          simpa using planned
        obtain ⟨i, inRanges, rfl⟩ := List.getElem_of_mem member
        have inHits : i < hits.length := each.length_eq ▸ inRanges
        have here := each.get inHits inRanges
        exact here.2.mpr (fit _ _ exact hits (normalize_eq form inOrder original)
          (normalize_eq form inOrder oldString) exactFound hitsFound rescued.2 _
          (List.getElem_mem inHits))
      · rcases otherwise rescued with ⟨outcome, failed, _⟩ | ⟨taken, planned', valid⟩
        · rw [failed] at planned
          simp at planned
        · rw [planned'] at planned
          obtain ⟨rfl, rfl⟩ : taken = chosen ∧ MatchTier.exact = tier := by simpa using planned
          exact valid r member
    refine ⟨?_, fun chosen tier planned r member => ?_⟩
    · have applied (chosen : List Range) (tier : MatchTier)
          (planned : editRanges form original oldString replaceAll = some (.ok (chosen, tier))) :
          (applyEdit form original oldString newString replaceAll).isSome := by
        obtain ⟨result, spliced⟩ := spliceRanges_isSome original
          ((LineEnding.detect original).apply newString) chosen (valid chosen tier planned)
        simp [applyEdit, filled, planned, spliced]
      by_cases rescued : hits ≠ [] ∧ Rescued replaceAll exact hits
      · exact applied ranges .normalized (rescue rescued.1 rescued.2)
      · rcases otherwise rescued with ⟨outcome, failed, _⟩ | ⟨taken, planned, _⟩
        · simp [applyEdit, filled, failed]
        · exact applied taken .exact planned
    · have := valid chosen tier planned r member
      exact ⟨this.ordered, this.stop.le, this.start, this.stop⟩

end Edit

section NoBreakSpace

/-- The compatibility forms of a no-break space and of the `fi` ligature. -/
def compatForm (text : Text) : List (Char × Int) :=
  text.flatMap fun c =>
    if c = Char.ofNat 0xA0 then [(' ', 0)]
    else if c = Char.ofNat 0xFB01 then [('f', 0), ('i', 1)]
    else [(c, 0)]

theorem compatForm_inOrder : InOrder compatForm := by
  intro text
  induction text with
  | nil => rfl
  | cons c rest ih =>
      have split : compatForm (c :: rest) = compatForm [c] ++ compatForm rest := by
        simp [compatForm]
      have one : totalConsumed (compatForm [c]) = 1 := by
        simp only [compatForm, List.flatMap_cons, List.flatMap_nil, List.append_nil]
        split_ifs <;> rfl
      rw [split, totalConsumed, List.map_append, List.sum_append]
      simp only [totalConsumed] at one ih
      rw [one, ih, List.length_cons, Nat.add_comm]

-- The file separates its letters by a no-break space, the needle spells an ASCII one.
def spacedFile : Text := ['a', Char.ofNat 0xA0, 'b']

def spacedNeedle : Text := ['a', ' ']

theorem editSafe_iff_spaced :
    EditSafe compatForm spacedFile spacedNeedle false [] ↔
      BoundaryRunsFit compatForm spacedFile spacedNeedle false :=
  editSafe_iff compatForm spacedFile spacedNeedle false compatForm_inOrder (by decide) []
    (by decide)

theorem spaced_edit_panics : ¬ EditSafe compatForm spacedFile spacedNeedle false [] := by
  intro safe
  have returns := safe.returns
  revert returns
  decide

end NoBreakSpace

end Frona.Tool
