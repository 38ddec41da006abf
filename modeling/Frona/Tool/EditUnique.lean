import Frona.Tool.EditRanges

set_option autoImplicit false

namespace Frona.Tool

open Utf8 Frona.Text

section First

theorem find_first (text pattern : Text) (offset : Nat) (found : find text pattern = some offset)
    (before after : Text) (occurs : text = before ++ (pattern ++ after)) :
    offset ≤ byteLength before := by
  induction text generalizing offset before with
  | nil =>
      unfold find at found
      split at found
      · cases found
        exact Nat.zero_le _
      · cases found
  | cons c rest ih =>
      unfold find at found
      split at found
      next =>
        cases found
        exact Nat.zero_le _
      next elsewhere =>
        obtain ⟨inner, deeper, rfl⟩ := Option.map_eq_some_iff.mp found
        cases before with
        | nil =>
            -- The pattern is not at the front of the text.
            exact absurd (List.isPrefixOf_iff_prefix.mpr ⟨after, occurs.symm⟩) elsewhere
        | cons d more =>
            obtain ⟨rfl, same⟩ := List.cons.inj occurs
            have := ih inner deeper more same
            simp only [byteLength_cons]
            omega

theorem find_none (text pattern : Text) (missing : find text pattern = none)
    (before after : Text) : text ≠ before ++ (pattern ++ after) := by
  induction text generalizing before with
  | nil =>
      intro occurs
      unfold find at missing
      split at missing
      · cases missing
      · rename_i elsewhere
        obtain ⟨-, rest⟩ := List.append_eq_nil_iff.mp occurs.symm
        exact elsewhere (List.isPrefixOf_iff_prefix.mpr ⟨after, rest⟩)
  | cons c rest ih =>
      intro occurs
      unfold find at missing
      split at missing
      · cases missing
      · rename_i elsewhere
        cases before with
        | nil => exact elsewhere (List.isPrefixOf_iff_prefix.mpr ⟨after, occurs.symm⟩)
        | cons d more =>
            exact ih (Option.map_eq_none_iff.mp missing) more (List.cons.inj occurs).2

end First

section Scan

inductive Scan (haystack needle : Text) : Nat → List Nat → Prop where
  | done {start : Nat} (clear : ∀ p, Occurs haystack needle p → p < start) :
      Scan haystack needle start []
  | hit {start p : Nat} {rest : List Nat} (reached : start ≤ p)
      (occurs : Occurs haystack needle p)
      (first : ∀ q, Occurs haystack needle q → start ≤ q → p ≤ q)
      (later : Scan haystack needle (p + byteLength needle) rest) :
      Scan haystack needle start (p :: rest)

theorem Occurs.behind {before rest needle : Text} {p : Nat}
    (occurs : Occurs (before ++ rest) needle p) (reached : byteLength before ≤ p) :
    ∃ skipped after, rest = skipped ++ (needle ++ after) ∧
      p = byteLength before + byteLength skipped := by
  obtain ⟨head, after, same, rfl⟩ := occurs
  obtain ⟨skipped, rfl, split⟩ := exists_between before rest head (needle ++ after) same reached
  exact ⟨skipped, after, split, by simp⟩

theorem findAllFrom_scan (haystack needle : Text) (nonempty : needle ≠ []) (fuel start : Nat)
    (hits : List Nat) (boundary : IsBoundary haystack start)
    (enough : byteLength haystack < start + fuel) :
    ∃ later, findAllFrom haystack needle fuel start hits = some (hits ++ later) ∧
      Scan haystack needle start later := by
  induction fuel generalizing start hits with
  | zero =>
      have := boundary.le
      omega
  | succ fuel ih =>
      obtain ⟨before, rest, rfl, rfl⟩ := boundary
      have sliced : sliceFrom (before ++ rest) (byteLength before) = some rest :=
        (sliceFrom_eq_some _ _ _).mpr ⟨before, rfl, rfl⟩
      unfold findAllFrom
      simp only [sliced]
      cases search : find rest needle with
      | none =>
          refine ⟨[], by simp, .done fun p occurs => ?_⟩
          by_contra reached
          obtain ⟨skipped, after, split, -⟩ := occurs.behind (by omega)
          exact find_none rest needle search skipped after split
      | some idx =>
          obtain ⟨skipped, after, rfl, rfl⟩ := find_eq_some rest needle idx search
          have positive : 0 < byteLength needle := by
            have := (byteLength_eq_zero needle).not.mpr nonempty
            omega
          have resumed : IsBoundary (before ++ (skipped ++ (needle ++ after)))
              (byteLength before + byteLength skipped + byteLength needle) :=
            ⟨before ++ skipped ++ needle, after, by simp, by simp [Nat.add_assoc]⟩
          obtain ⟨later, run, scan⟩ := ih _
            (hits ++ [byteLength before + byteLength skipped]) resumed (by omega)
          refine ⟨(byteLength before + byteLength skipped) :: later, ?_, ?_⟩
          · simpa using run
          · refine .hit (Nat.le_add_right _ _) ?_ ?_ scan
            · exact ⟨before ++ skipped, after, by simp, by simp⟩
            · intro q occurs reached
              obtain ⟨other, behind, split, rfl⟩ := occurs.behind reached
              have := find_first _ needle _ search other behind split
              omega

theorem findAll_scan (haystack needle : Text) (nonempty : needle ≠ []) :
    ∃ hits, findAll haystack needle = some hits ∧ Scan haystack needle 0 hits := by
  obtain ⟨hits, run, scan⟩ := findAllFrom_scan haystack needle nonempty
    (byteLength haystack + 1) 0 [] (isBoundary_zero haystack) (by omega)
  exact ⟨hits, run, scan⟩

variable {haystack needle : Text}

theorem Scan.two_iff {hits : List Nat} (scan : Scan haystack needle 0 hits) :
    1 < hits.length ↔
      ∃ p q, Occurs haystack needle p ∧ Occurs haystack needle q ∧
        p + byteLength needle ≤ q := by
  cases scan with
  | done clear =>
      constructor
      · intro two
        simp at two
      · rintro ⟨p, _, occurs, _⟩
        exact absurd (clear p occurs) (Nat.not_lt_zero p)
  | @hit _ s rest _ occurs first later =>
      cases later with
      | done clear =>
          simp only [List.length_singleton, Nat.lt_irrefl, false_iff]
          rintro ⟨p, q, atP, atQ, apart⟩
          have := first p atP (Nat.zero_le p)
          have := clear q atQ
          omega
      | hit reached again _ _ =>
          simp only [List.length_cons, Nat.lt_add_left_iff_pos, Nat.zero_lt_succ, true_iff]
          exact ⟨_, _, occurs, again, reached⟩

theorem Scan.head {s : Nat} {rest : List Nat} (scan : Scan haystack needle 0 (s :: rest)) :
    Occurs haystack needle s ∧ ∀ p, Occurs haystack needle p → s ≤ p := by
  cases scan with
  | hit _ occurs first _ => exact ⟨occurs, fun p atP => first p atP (Nat.zero_le p)⟩

end Scan

section Unique

variable (form : Form) (original oldString newString : Text)

/-- Only a needle that occurs once is replaced, and then at that place alone; one that occurs
more often is ambiguous. -/
structure UniquenessExact : Prop where
  unique : ∀ rewritten count,
    applyEdit form original oldString newString false = some (.applied rewritten count .exact) →
    ∃ before after, original = before ++ (oldString ++ after) ∧
      (∀ p, Occurs original oldString p → p = byteLength before) ∧
      rewritten = before ++ ((LineEnding.detect original).apply newString ++ after)
  ambiguous : ∀ p q, Occurs original oldString p → Occurs original oldString q → p ≠ q →
    ∃ count, applyEdit form original oldString newString false = some (.ambiguous count)

/-- The needle occurs once at most, or at two places that do not overlap. -/
def OnceOrApart : Prop :=
  (∀ p q, Occurs original oldString p → Occurs original oldString q → p = q) ∨
    ∃ p q, Occurs original oldString p ∧ Occurs original oldString q ∧
      p + byteLength oldString ≤ q

variable {form original oldString newString}

theorem spliceRanges_single (before middle after replacement : Text) :
    spliceRanges (before ++ (middle ++ after))
        [⟨byteLength before, byteLength before + byteLength middle⟩] replacement =
      some (before ++ (replacement ++ after), 1) := by
  have kept : slice (before ++ (middle ++ after)) 0 (byteLength before) = some before := by
    have := slice_append [] before (middle ++ after)
    simpa using this
  have rest : sliceFrom (before ++ (middle ++ after)) (byteLength before + byteLength middle) =
      some after :=
    (sliceFrom_eq_some _ _ _).mpr ⟨before ++ middle, by simp, by simp⟩
  simp [spliceRanges, spliceStep, kept, rest]

theorem applyEdit_ambiguous (nonempty : oldString ≠ []) {hits : List Nat}
    (found : findAll original oldString = some hits) (several : 1 < hits.length) :
    applyEdit form original oldString newString false = some (.ambiguous hits.length) := by
  simp [applyEdit, editRanges, found, several, nonempty]

theorem applyEdit_single (nonempty : oldString ≠ []) {before after : Text}
    (same : original = before ++ (oldString ++ after))
    (found : findAll original oldString = some [byteLength before]) :
    applyEdit form original oldString newString false =
      some (.applied (before ++ ((LineEnding.detect original).apply newString ++ after)) 1
        .exact) := by
  have spliced := spliceRanges_single before oldString after
    ((LineEnding.detect original).apply newString)
  rw [← same] at spliced
  simp [applyEdit, editRanges, found, nonempty, selectMatches, spliced]

theorem matchRanges_error (fileNs needleNs : NormalizedString) (needle : Text) (hits : List Nat)
    (outcome : EditOutcome)
    (failed : matchRanges fileNs needleNs needle hits = some (.error outcome)) :
    outcome = .notFound := by
  induction hits with
  | nil => cases failed
  | cons nstart rest ih =>
      simp only [matchRanges] at failed
      split at failed
      · cases failed
        rfl
      · obtain ⟨range, _, more⟩ := Option.bind_eq_some_iff.mp failed
        obtain ⟨result, matched, same⟩ := Option.bind_eq_some_iff.mp more
        cases result with
        | ok ranges => simp [Except.map] at same
        | error inner =>
            obtain rfl : inner = outcome := by simpa [Except.map] using same
            exact ih matched

theorem normalizedRanges_error {outcome : EditOutcome} {replaceAll : Bool}
    (failed : normalizedRanges form original oldString replaceAll = some (.error outcome))
    (rewritten : Text) (count : Nat) (tier : MatchTier) :
    outcome ≠ .applied rewritten count tier := by
  obtain ⟨fileNs, _, failed⟩ := Option.bind_eq_some_iff.mp failed
  obtain ⟨needleNs, _, failed⟩ := Option.bind_eq_some_iff.mp failed
  dsimp only at failed
  split at failed
  · cases failed
    simp
  · obtain ⟨hits, _, failed⟩ := Option.bind_eq_some_iff.mp failed
    split_ifs at failed
    · cases failed
      simp
    · cases failed
      simp
    · rw [matchRanges_error _ _ _ _ _ failed]
      simp

theorem applyEdit_missing (found : findAll original oldString = some []) (rewritten : Text)
    (count : Nat) :
    applyEdit form original oldString newString false ≠
      some (.applied rewritten count .exact) := by
  intro applied
  unfold applyEdit at applied
  split at applied
  · cases applied
  · obtain ⟨plan, planned, done⟩ := Option.bind_eq_some_iff.mp applied
    obtain ⟨result, ranged, rfl⟩ : ∃ result,
        normalizedRanges form original oldString false = some result ∧
          result.map (fun ranges => (ranges, MatchTier.normalized)) = plan := by
      simpa [editRanges, found, Option.bind_eq_some_iff] using planned
    cases result with
    | error outcome =>
        exact normalizedRanges_error ranged rewritten count .exact (Option.some.inj done)
    | ok ranges =>
        obtain ⟨_, _, same⟩ := Option.bind_eq_some_iff.mp done
        simp at same

theorem OnceOrApart.exact (nonempty : oldString ≠ []) (clear : OnceOrApart original oldString) :
    UniquenessExact form original oldString newString := by
  obtain ⟨hits, found, scan⟩ := findAll_scan original oldString nonempty
  by_cases several : 1 < hits.length
  next =>
    have outcome : applyEdit form original oldString newString false =
        some (.ambiguous hits.length) := applyEdit_ambiguous nonempty found several
    constructor
    · intro rewritten count applied
      rw [outcome] at applied
      cases applied
    · exact fun _ _ _ _ _ => ⟨hits.length, outcome⟩
  next =>
    have once : ∀ p q, Occurs original oldString p → Occurs original oldString q → p = q :=
      clear.resolve_right (several ∘ scan.two_iff.mpr)
    refine ⟨?_, fun p q atP atQ differ => absurd (once p q atP atQ) differ⟩
    intro rewritten count applied
    cases hits with
    | nil => exact absurd applied (applyEdit_missing found rewritten count)
    | cons s rest =>
        obtain rfl : rest = [] := List.length_eq_zero_iff.mp (by
          rw [List.length_cons] at several
          omega)
        obtain ⟨before, after, same, rfl⟩ := scan.head.1
        rw [applyEdit_single nonempty same found] at applied
        refine ⟨before, after, same, fun p atP => once p _ atP scan.head.1, ?_⟩
        cases applied
        rfl

/-- The check is exact unless the needle occurs again, but only where it overlaps itself. -/
theorem uniquenessExact_iff (form : Form) (original oldString newString : Text)
    (nonempty : oldString ≠ []) :
    UniquenessExact form original oldString newString ↔ OnceOrApart original oldString := by
  refine ⟨fun exact => ?_, OnceOrApart.exact nonempty⟩
  by_contra unclear
  obtain ⟨repeated, together⟩ := not_or.mp unclear
  obtain ⟨p, q, atP, atQ, differ⟩ : ∃ p q, Occurs original oldString p ∧
      Occurs original oldString q ∧ p ≠ q := by simpa using repeated
  obtain ⟨count, outcome⟩ := exact.ambiguous p q atP atQ differ
  -- All the places overlap the first one, which is the only hit.
  obtain ⟨hits, found, scan⟩ := findAll_scan original oldString nonempty
  have single : ¬ 1 < hits.length := together ∘ scan.two_iff.mp
  cases hits with
  | nil =>
      cases scan with
      | done clear => exact absurd (clear p atP) (Nat.not_lt_zero p)
  | cons s rest =>
      obtain rfl : rest = [] := List.length_eq_zero_iff.mp (by
        rw [List.length_cons] at single
        omega)
      obtain ⟨before, after, same, rfl⟩ := scan.head.1
      rw [applyEdit_single nonempty same found] at outcome
      cases outcome

end Unique

section Overlap

def blankLines : Text := ['a', '\n', '\n', '\n', 'b']

theorem uniquenessExact_iff_blankLines :
    UniquenessExact plainForm blankLines "\n\n".toList [] ↔
      OnceOrApart blankLines "\n\n".toList :=
  uniquenessExact_iff _ _ _ _ (by decide)

theorem blank_lines_overlap :
    ¬ ∀ form original oldString newString, oldString ≠ [] →
      UniquenessExact form original oldString newString := by
  intro always
  have exact := always plainForm blankLines ['\n', '\n'] [] (by decide)
  obtain ⟨count, outcome⟩ := exact.ambiguous 1 2
    ⟨['a'], ['\n', 'b'], by decide, by decide⟩
    ⟨['a', '\n'], ['b'], by decide, by decide⟩ (by decide)
  -- The search goes on behind the first hit, and the second one begins in it.
  have found : findAll blankLines ['\n', '\n'] = some [1] := by decide
  have same : blankLines = ['a'] ++ (['\n', '\n'] ++ ['\n', 'b']) := rfl
  rw [applyEdit_single (by decide) same found] at outcome
  cases outcome

end Overlap

end Frona.Tool
