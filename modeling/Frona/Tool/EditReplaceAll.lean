import Frona.Tool.EditRemoval
import Frona.Tool.EditUnique

set_option autoImplicit false

namespace Frona.Tool

open Utf8 Frona.Text

section Splicing

theorem spliceRanges_count (original replacement : Text) (ranges : List Range) (rewritten : Text)
    (count : Nat) (spliced : spliceRanges original ranges replacement = some (rewritten, count)) :
    count = (keptRanges 0 ranges).length := by
  have loop (state final : SpliceState)
      (run : ranges.foldlM (spliceStep original replacement) state = some final) :
      final.count = state.count + (keptRanges state.cursor ranges).length := by
    clear spliced
    induction ranges generalizing state with
    | nil =>
        obtain rfl : state = final := by simpa using run
        rfl
    | cons r rest ih =>
        rw [List.foldlM_cons] at run
        obtain ⟨next, stepped, run⟩ := Option.bind_eq_some_iff.mp run
        have counted := ih next run
        unfold spliceStep at stepped
        unfold keptRanges
        split at stepped
        next skipped =>
          cases stepped
          rw [if_pos skipped]
          exact counted
        next taken =>
          obtain ⟨kept, _, same⟩ := Option.bind_eq_some_iff.mp stepped
          cases same
          rw [if_neg taken, counted, List.length_cons]
          simp only
          omega
  obtain ⟨final, run, rest⟩ := Option.bind_eq_some_iff.mp spliced
  obtain ⟨tail, _, same⟩ := Option.bind_eq_some_iff.mp rest
  have counted := loop ⟨[], 0, 0⟩ final run
  simp only [Option.pure_def, Option.some.injEq, Prod.mk.injEq] at same
  rw [← same.2, counted, Nat.zero_add]

theorem Scan.keptRanges_eq {haystack needle : Text} {start cursor : Nat} {hits : List Nat}
    (scan : Scan haystack needle start hits) (reached : cursor ≤ start) :
    keptRanges cursor (hits.map fun s => ⟨s, s + byteLength needle⟩) =
      hits.map fun s => (⟨s, s + byteLength needle⟩ : Range) := by
  induction scan generalizing cursor with
  | done _ => rfl
  | @hit start p rest later _ _ _ ih =>
      have ahead : ¬ p < cursor := by omega
      simp only [List.map_cons, keptRanges, if_neg ahead]
      rw [ih (Nat.le_refl _)]

end Splicing

section Reaching

structure Reaches (fileNs needleNs : NormalizedString) (needle : Text) (nstart hit width : Nat) :
    Prop where
  source : ∃ span, fileNs.spliceRangeOriginal ⟨nstart, nstart + byteLength needle⟩ = some span ∧
    span.start ≤ hit ∧ hit + width ≤ span.stop
  head : startsBlank needle = true → ∃ run,
    fileNs.spliceRangeOriginal ⟨nstart, nstart + 1⟩ = some run ∧
      run.stop ≤ hit + spelled needleNs 0
  tail : endsBlank needle = true → ∃ run,
    fileNs.spliceRangeOriginal
        ⟨nstart + byteLength needle - 1, nstart + byteLength needle - 1 + 1⟩ = some run ∧
      hit + width ≤ run.start + spelled needleNs (byteLength needle - 1)

def unskipped (fileNs needleNs : NormalizedString) (needle : Text) : Nat → List Nat → List Nat
  | _, [] => []
  | cursor, nstart :: rest =>
      match matchRange fileNs needleNs needle nstart with
      | none => unskipped fileNs needleNs needle cursor rest
      | some r =>
          if r.start < cursor then unskipped fileNs needleNs needle cursor rest
          else nstart :: unskipped fileNs needleNs needle r.stop rest

theorem unskipped_kept (fileNs needleNs : NormalizedString) (needle : Text) (hits : List Nat)
    (ranges : List Range) (cursor : Nat)
    (each : List.Forall₂ (fun hit r => matchRange fileNs needleNs needle hit = some r)
      hits ranges) :
    List.Forall₂ (fun hit r => matchRange fileNs needleNs needle hit = some r)
      (unskipped fileNs needleNs needle cursor hits) (keptRanges cursor ranges) := by
  induction each generalizing cursor with
  | nil => exact .nil
  | @cons hit r hits ranges ranged _ ih =>
      simp only [unskipped, keptRanges, ranged]
      by_cases skipped : r.start < cursor
      next =>
        simp only [if_pos skipped]
        exact ih cursor
      next =>
        simp only [if_neg skipped]
        exact .cons ranged (ih r.stop)

theorem unskipped_subset (fileNs needleNs : NormalizedString) (needle : Text) (hits : List Nat)
    (cursor : Nat) : unskipped fileNs needleNs needle cursor hits ⊆ hits := by
  induction hits generalizing cursor with
  | nil => simp [unskipped]
  | cons hit rest ih =>
      unfold unskipped
      split
      next => exact List.subset_cons_of_subset _ (ih cursor)
      next r _ =>
        split
        next => exact List.subset_cons_of_subset _ (ih cursor)
        next => exact List.cons_subset_cons _ (ih r.stop)

section Match

variable (fileText needleText : Text) (before cells after needle : List Cell)
  (first last spelledFirst spelledLast : Cell) (stretch : Stretch cells first last)
  (spelling : Stretch needle spelledFirst spelledLast) (same : chars cells = chars needle)
include stretch spelling same

theorem cutStart_le_iff (hit : Nat) (within : first.span.1 ≤ hit)
    (order : first.span.1 ≤ first.span.2) :
    cutStart (chars needle) first spelledFirst ≤ hit ↔
      (startsBlank (chars needle) = true → ∃ run,
        (NormalizedString.ofCells fileText (before ++ (cells ++ after))).spliceRangeOriginal
            ⟨byteLength (chars before), byteLength (chars before) + 1⟩ = some run ∧
          run.stop ≤ hit + spelled (.ofCells needleText needle) 0) := by
  unfold cutStart
  split
  next blank =>
    have spelledBlank := startsBlank_first _ needle _ _ spelling rfl blank
    have run := splice_first fileText before cells after needle first last stretch same blank
    rw [spelled_first needleText needle _ _ spelling spelledBlank, run]
    simp only [headCut, blank, true_implies, Option.some.injEq, exists_eq_left']
    omega
  next plain => simp [plain, within]

theorem le_cutStop_iff (hit : Nat) (within : hit ≤ last.span.2) (beyond : last.span.1 ≤ last.span.2) :
    hit ≤ cutStop (chars needle) last spelledLast ↔
      (endsBlank (chars needle) = true → ∃ run,
        (NormalizedString.ofCells fileText (before ++ (cells ++ after))).spliceRangeOriginal
            ⟨byteLength (chars before) + byteLength (chars needle) - 1,
              byteLength (chars before) + byteLength (chars needle) - 1 + 1⟩ = some run ∧
          hit ≤ run.start +
            spelled (.ofCells needleText needle) (byteLength (chars needle) - 1)) := by
  unfold cutStop
  split
  next blank =>
    have spelledBlank := (endsBlank_last _ needle _ _ spelling rfl).mp blank
    have run := splice_last fileText before cells after needle first last stretch same blank
    rw [spelled_last needleText needle _ _ spelling spelledBlank, run]
    simp only [tailCut, blank, true_implies, Option.some.injEq, exists_eq_left']
    omega
  next plain => simp [plain, within]

theorem matchRange_reaches_iff (order : first.span ≤ last.span)
    (firstOrder : first.span.1 ≤ first.span.2) (lastOrder : last.span.1 ≤ last.span.2)
    (r : Range) (hit width : Nat) (wide : 0 < width)
    (ranged : matchRange (.ofCells fileText (before ++ (cells ++ after)))
      (.ofCells needleText needle) (chars needle) (byteLength (chars before)) = some r) :
    (r.start ≤ hit ∧ hit + width ≤ r.stop) ↔
      Reaches (.ofCells fileText (before ++ (cells ++ after))) (.ofCells needleText needle)
        (chars needle) (byteLength (chars before)) hit width := by
  have computed := matchRange_eq fileText needleText before cells after needle first last
    spelledFirst spelledLast stretch spelling same order firstOrder lastOrder
  rw [computed] at ranged
  cases ranged
  have spliced := spliceRangeOriginal_eq fileText before cells after first last stretch
  rw [same] at spliced
  -- The cuts stay within the source text of the match.
  have low : first.span.1 ≤ cutStart (chars needle) first spelledFirst := by
    simp only [cutStart, headCut]
    split <;> omega
  have high : cutStop (chars needle) last spelledLast ≤ last.span.2 := by
    simp only [cutStop, tailCut]
    split <;> omega
  have head := cutStart_le_iff fileText needleText before cells after needle first last
    spelledFirst spelledLast stretch spelling same hit
  have tail := le_cutStop_iff fileText needleText before cells after needle first last
    spelledFirst spelledLast stretch spelling same (hit + width)
  constructor
  · intro inside
    simp only at inside
    have inFront : first.span.1 ≤ hit := by omega
    have inBack : hit + width ≤ last.span.2 := by omega
    exact
      { source := ⟨_, spliced, inFront, inBack⟩
        head := (head inFront firstOrder).mp inside.1
        tail := (tail inBack lastOrder).mp (by omega) }
  · intro reaches
    obtain ⟨span, found, inFront, inBack⟩ := reaches.source
    obtain rfl := Option.some.inj (spliced.symm.trans found)
    have := (head inFront firstOrder).mpr reaches.head
    have := (tail inBack lastOrder).mpr reaches.tail
    simp only
    omega

end Match

end Reaching

section ReplaceAll

variable (form : Form) (original oldString newString : Text)

/-- The edit is a splice that replaces every exact hit, and counts the ranges it replaces. -/
structure ReplacesEvery (rewritten : Text) (count : Nat) (tier : MatchTier) : Prop where
  spliced : ∃ hits ranges, findAll original oldString = some hits ∧
    editRanges form original oldString true = some (.ok (ranges, tier)) ∧
    Replaced original ((LineEnding.detect original).apply newString) 0 (keptRanges 0 ranges)
      rewritten ∧
    count = (keptRanges 0 ranges).length ∧
    ∀ hit ∈ hits, ∃ r ∈ keptRanges 0 ranges,
      r.start ≤ hit ∧ hit + byteLength oldString ≤ r.stop

/-- Where the normalised text has more matches than there are exact hits, each of these is
reached by a match that is not skipped. -/
def HitsReached : Prop :=
  ∀ fileNs needleNs exact hits,
    normalize form (NormalizedString.fromStr original) = some fileNs →
    normalize form (NormalizedString.fromStr oldString) = some needleNs →
    findAll original oldString = some exact →
    findAll fileNs.normalized needleNs.normalized = some hits →
    exact.length < hits.length →
    ∀ hit ∈ exact, ∃ nstart ∈ unskipped fileNs needleNs needleNs.normalized 0 hits,
      Reaches fileNs needleNs needleNs.normalized nstart hit (byteLength oldString)

variable {form original oldString newString}

theorem editRanges_all (inOrder : InOrder form) (small : byteLength original < 2 ^ 32)
    (nonempty : oldString ≠ []) :
    ∃ exact hits ranges, findAll original oldString = some exact ∧
      Scan original oldString 0 exact ∧
      findAll (chars (normalCells form original)) (chars (normalCells form oldString)) =
        some hits ∧
      List.Forall₂ (fun hit r => matchRange (.ofCells original (normalCells form original))
        (.ofCells oldString (normalCells form oldString)) (chars (normalCells form oldString))
        hit = some r) hits ranges ∧
      editRanges form original oldString true =
        some (if exact = [] ∧ hits = [] then .error .notFound
          else if exact.length < hits.length then .ok (ranges, .normalized)
          else .ok (exact.map fun s => ⟨s, s + byteLength oldString⟩, .exact)) := by
  obtain ⟨exact, found, scan⟩ := findAll_scan original oldString nonempty
  obtain ⟨hits, ranges, matched, each, computed⟩ := normalizedRanges_eq form original oldString
    true inOrder small (normalCells_ne_nil form inOrder oldString nonempty)
  have sizes := each.length_eq
  refine ⟨exact, hits, ranges, found, scan, matched, each.imp fun _ _ both => both.1, ?_⟩
  unfold editRanges
  simp only [found, computed, selectMatches, Option.bind_eq_bind, Option.bind_some,
    Bool.not_true, Bool.and_false, Bool.false_eq_true, Bool.true_eq_false, if_false, if_true,
    and_false, List.length_map]
  cases exact with
  | nil =>
      cases hits with
      | nil => rfl
      | cons hit rest => simp [Except.map]
  | cons s later =>
      cases hits with
      | nil => simp
      | cons hit rest =>
          have more : ranges.length > later.length + 1 ↔ later.length < rest.length := by
            simp only [List.length_cons] at sizes
            omega
          simp only [List.isEmpty_cons, Bool.false_eq_true, if_false, List.length_cons,
            reduceCtorEq, and_self, more, Nat.add_lt_add_iff_right]
          split <;> rfl

theorem applyEdit_spliced {rewritten : Text} {count : Nat} {tier : MatchTier}
    (inOrder : InOrder form) (small : byteLength original < 2 ^ 32)
    (applied : applyEdit form original oldString newString true =
      some (.applied rewritten count tier)) :
    oldString ≠ [] ∧ ∃ ranges,
      editRanges form original oldString true = some (.ok (ranges, tier)) ∧
      spliceRanges original ranges ((LineEnding.detect original).apply newString) =
        some (rewritten, count) := by
  unfold applyEdit at applied
  split at applied
  next => cases applied
  next filled =>
    have nonempty : oldString ≠ [] := by simpa using filled
    obtain ⟨exact, hits, ranges, -, -, -, -, computed⟩ := editRanges_all inOrder small nonempty
    obtain ⟨plan, planned, done⟩ := Option.bind_eq_some_iff.mp applied
    refine ⟨nonempty, ?_⟩
    cases plan with
    | error outcome =>
        obtain rfl : outcome = .notFound := by
          rw [computed] at planned
          split_ifs at planned <;> simp_all
        cases done
    | ok chosen =>
        obtain ⟨result, spliced, same⟩ := Option.bind_eq_some_iff.mp done
        obtain ⟨rfl, rfl, rfl⟩ : result.1 = rewritten ∧ result.2 = count ∧ chosen.2 = tier := by
          simpa using same
        exact ⟨chosen.1, planned, spliced⟩

theorem kept_iff_reached (inOrder : InOrder form) (small : byteLength original < 2 ^ 32)
    (nonempty : oldString ≠ []) {hits : List Nat} {ranges : List Range}
    (matched : findAll (chars (normalCells form original)) (chars (normalCells form oldString)) =
      some hits)
    (each : List.Forall₂ (fun hit r => matchRange
        (.ofCells original (normalCells form original))
        (.ofCells oldString (normalCells form oldString)) (chars (normalCells form oldString))
        hit = some r) hits ranges) (hit : Nat) :
    (∃ r ∈ keptRanges 0 ranges, r.start ≤ hit ∧ hit + byteLength oldString ≤ r.stop) ↔
      ∃ nstart ∈ unskipped (.ofCells original (normalCells form original))
          (.ofCells oldString (normalCells form oldString)) (chars (normalCells form oldString))
          0 hits,
        Reaches (.ofCells original (normalCells form original))
          (.ofCells oldString (normalCells form oldString)) (chars (normalCells form oldString))
          nstart hit (byteLength oldString) := by
  have kept := unskipped_kept _ _ _ hits ranges 0 each
  have needleNonempty := normalCells_ne_nil form inOrder oldString nonempty
  have wide : 0 < byteLength oldString := by
    have := (byteLength_eq_zero oldString).not.mpr nonempty
    omega
  have reached (nstart : Nat) (r : Range)
      (listed : nstart ∈ unskipped (.ofCells original (normalCells form original))
          (.ofCells oldString (normalCells form oldString)) (chars (normalCells form oldString))
          0 hits)
      (ranged : matchRange (.ofCells original (normalCells form original))
        (.ofCells oldString (normalCells form oldString)) (chars (normalCells form oldString))
        nstart = some r) :
      (r.start ≤ hit ∧ hit + byteLength oldString ≤ r.stop) ↔
        Reaches (.ofCells original (normalCells form original))
          (.ofCells oldString (normalCells form oldString)) (chars (normalCells form oldString))
          nstart hit (byteLength oldString) := by
    have needle : chars (normalCells form oldString) ≠ [] := fun empty =>
      needleNonempty (List.map_eq_nil_iff.mp empty)
    obtain ⟨all, found, occurs⟩ := findAll_occurs (chars (normalCells form original)) _ needle
    obtain rfl := Option.some.inj (matched.symm.trans found)
    obtain ⟨before, cells, after, whole, same, rfl⟩ := exists_covers _ _ nstart
      (occurs nstart (unskipped_subset _ _ _ hits 0 listed))
    have aligned := normalCells_sliceable form inOrder original small
    rw [whole] at aligned ranged ⊢
    have covered : cells ≠ [] := by
      intro empty
      subst empty
      exact needleNonempty (List.map_eq_nil_iff.mp same.symm)
    obtain ⟨first, last, stretch⟩ := exists_stretch cells covered
    obtain ⟨spelledFirst, spelledLast, spelling⟩ := exists_stretch _ needleNonempty
    have ordered := (List.pairwise_append.mp (List.pairwise_append.mp aligned.ordered).2.1).1
    have firstSlice := aligned.each first (by simp [stretch.first_mem])
    have lastSlice := aligned.each last (by simp [stretch.last_mem])
    exact matchRange_reaches_iff original oldString before cells after _ first last spelledFirst
      spelledLast stretch spelling same (stretch.bounds ordered last stretch.last_mem).1
      firstSlice.ordered lastSlice.ordered r hit _ wide ranged
  constructor
  · intro ⟨r, member, inside⟩
    obtain ⟨i, inRanges, rfl⟩ := List.getElem_of_mem member
    have inHits : i < (unskipped (.ofCells original (normalCells form original))
        (.ofCells oldString (normalCells form oldString)) (chars (normalCells form oldString))
        0 hits).length := kept.length_eq ▸ inRanges
    have listed := List.getElem_mem inHits
    exact ⟨_, listed, (reached _ _ listed (kept.get inHits inRanges)).mp inside⟩
  · intro ⟨nstart, listed, reaches⟩
    obtain ⟨i, inHits, rfl⟩ := List.getElem_of_mem listed
    have inRanges : i < (keptRanges 0 ranges).length := kept.length_eq ▸ inHits
    exact ⟨_, List.getElem_mem inRanges, (reached _ _ listed (kept.get inHits inRanges)).mpr reaches⟩

/-- An edit of all occurrences replaces every exact hit, whichever pass it takes, unless the
normalising pass finds more places and reaches fewer of the hits. -/
theorem replacesEvery_iff (inOrder : InOrder form) (small : byteLength original < 2 ^ 32)
    (rewritten : Text) (count : Nat) (tier : MatchTier)
    (applied : applyEdit form original oldString newString true =
      some (.applied rewritten count tier)) :
    ReplacesEvery form original oldString newString rewritten count tier ↔
      HitsReached form original oldString := by
  obtain ⟨nonempty, chosen, planned, spliced⟩ := applyEdit_spliced inOrder small applied
  obtain ⟨exact, hits, ranges, found, scan, matched, each, computed⟩ :=
    editRanges_all inOrder small nonempty
  have replaced (ordered : ∀ r ∈ chosen, r.start ≤ r.stop) :=
    spliceRanges_replaced original _ chosen ordered rewritten count spliced
  have counted := spliceRanges_count original _ chosen rewritten count spliced
  by_cases more : exact.length < hits.length
  · have some : ¬ (exact = [] ∧ hits = []) := by
      intro empty
      simp [empty.1, empty.2] at more
    rw [computed, if_neg some, if_pos more] at planned
    obtain ⟨rfl, rfl⟩ : ranges = chosen ∧ MatchTier.normalized = tier := by simpa using planned
    have reached := kept_iff_reached inOrder small nonempty matched each
    constructor
    · intro every fileNs needleNs exact' hits' file needle found' matched' _ hit member
      rw [normalize_eq form inOrder] at file needle
      cases file
      cases needle
      obtain rfl := Option.some.inj (found.symm.trans found')
      obtain rfl := Option.some.inj (matched.symm.trans matched')
      obtain ⟨all, others, found'', planned', _, _, covered⟩ := every.spliced
      obtain rfl := Option.some.inj (found.symm.trans found'')
      rw [computed, if_neg some, if_pos more] at planned'
      obtain rfl : ranges = others := by simpa using planned'
      exact (reached hit).mp (covered hit member)
    · intro every
      refine ⟨exact, ranges, found, ?_, replaced ?_, counted, ?_⟩
      · rw [computed, if_neg some, if_pos more]
      · intro r member
        obtain ⟨i, inRanges, rfl⟩ := List.getElem_of_mem member
        have inHits : i < hits.length := each.length_eq ▸ inRanges
        exact matchRange_ordered _ _ _ _ _ (each.get inHits inRanges)
      · intro hit member
        exact (reached hit).mpr (every _ _ exact hits (normalize_eq form inOrder original)
          (normalize_eq form inOrder oldString) found matched more hit member)
  · constructor
    · intro _ fileNs needleNs exact' hits' file needle found' matched' fewer
      rw [normalize_eq form inOrder] at file needle
      cases file
      cases needle
      obtain rfl := Option.some.inj (found.symm.trans found')
      obtain rfl := Option.some.inj (matched.symm.trans matched')
      exact absurd fewer more
    · intro _
      -- The exact hits themselves are replaced, all of them.
      rw [computed, if_neg more] at planned
      split at planned
      next => simp at planned
      next some =>
        obtain ⟨rfl, rfl⟩ :
            (exact.map fun s => (⟨s, s + byteLength oldString⟩ : Range)) = chosen ∧
              MatchTier.exact = tier := by simpa using planned
        refine ⟨exact, _, found, ?_, replaced ?_, counted, ?_⟩
        · rw [computed, if_neg some, if_neg more]
        · intro r member
          obtain ⟨s, _, rfl⟩ := List.mem_map.mp member
          exact Nat.le_add_right _ _
        · intro hit member
          rw [scan.keptRanges_eq (Nat.le_refl 0)]
          exact ⟨_, List.mem_map.mpr ⟨hit, member, rfl⟩, Nat.le_refl _, Nat.le_refl _⟩

end ReplaceAll

section BlankNeedle

-- Two runs of whitespace, and one space in the first of them.
def indentedLine : Text := ['\t', ' ', 'a', '\t', 'b']

theorem indented_applied :
    applyEdit plainForm indentedLine [' '] [] true =
      some (.applied " ab".toList 2 .normalized) := by decide +kernel

theorem replacesEvery_iff_indented :
    ReplacesEvery plainForm indentedLine [' '] [] " ab".toList 2 .normalized ↔
      HitsReached plainForm indentedLine [' '] :=
  replacesEvery_iff plainForm_inOrder (by decide) _ _ _ indented_applied

theorem blank_survives :
    ¬ ∀ form original oldString newString rewritten count tier,
      InOrder form → byteLength original < 2 ^ 32 →
      applyEdit form original oldString newString true = some (.applied rewritten count tier) →
      ReplacesEvery form original oldString newString rewritten count tier := by
  intro always
  obtain ⟨hits, ranges, found, planned, -, -, covered⟩ :=
    (always plainForm indentedLine [' '] [] _ _ _ plainForm_inOrder (by decide)
      indented_applied).spliced
  have scanned : findAll indentedLine [' '] = some [1] := by decide
  obtain rfl : [1] = hits := by simpa [scanned] using found
  have computed : editRanges plainForm indentedLine [' '] true =
      some (.ok ([⟨0, 1⟩, ⟨3, 4⟩], .normalized)) := by decide +kernel
  obtain rfl : [⟨0, 1⟩, ⟨3, 4⟩] = ranges := by simpa [computed] using planned
  obtain ⟨r, member, inside⟩ := covered 1 (by simp)
  revert r
  decide

end BlankNeedle

end Frona.Tool
