import Frona.Chat.SplitRounds

set_option autoImplicit false

namespace Frona.Chat

open Utf8 Frona.Text

section Runs

theorem markerRun_replicate (marker : Char) (n : Nat) :
    markerRun marker (List.replicate n marker) = n := by
  simp [markerRun]

theorem markerRun_append (marker : Char) (left right : Text)
    (inside : markerRun marker left < left.length) :
    markerRun marker (left ++ right) = markerRun marker left := by
  induction left with
  | nil => simp at inside
  | cons c rest ih =>
      simp only [markerRun] at ih inside ⊢
      by_cases same : c = marker
      · simp only [List.takeWhile_cons, same, decide_true, if_true, List.length_cons,
          Nat.add_lt_add_iff_right] at inside
        simp [same, ih inside]
      · simp [same]

theorem markerRun_le_append (marker : Char) (left right : Text) :
    markerRun marker left ≤ markerRun marker (left ++ right) := by
  induction left with
  | nil => simp [markerRun]
  | cons c rest ih =>
      simp only [markerRun] at ih ⊢
      by_cases same : c = marker <;> simp [same, ih]

theorem markerRun_le_length (marker : Char) (text : Text) : markerRun marker text ≤ text.length :=
  (List.takeWhile_sublist _).length_le

theorem parseOpeningFence_head (line : Text) (bf : BlockFence)
    (opens : parseOpeningFence line = some bf) :
    ∃ rest, line.drop (indent line) = bf.marker :: rest := by
  unfold parseOpeningFence at opens
  split at opens
  · cases opens
  · dsimp only at opens
    cases trimmed : line.drop (indent line) with
    | nil => simp [trimmed] at opens
    | cons marker rest =>
        simp only [trimmed, List.head?_cons] at opens
        split_ifs at opens
        obtain rfl := Option.some.inj opens
        exact ⟨rest, rfl⟩

theorem parseOpeningFence_append (line tail : Text) (short long : BlockFence)
    (opens : parseOpeningFence line = some short)
    (opensWhole : parseOpeningFence (line ++ tail) = some long) :
    short.marker = long.marker ∧ short.openLen ≤ long.openLen := by
  obtain ⟨rest, trimmed⟩ := parseOpeningFence_head line short opens
  obtain ⟨rest', trimmed'⟩ := parseOpeningFence_head (line ++ tail) long opensWhole
  have inside : indent line < line.length := by
    by_contra outside
    rw [List.drop_eq_nil_of_le (by omega)] at trimmed
    cases trimmed
  have same : indent (line ++ tail) = indent line := markerRun_append ' ' line tail inside
  have whole : (line ++ tail).drop (indent (line ++ tail)) =
      line.drop (indent line) ++ tail := by
    rw [same, List.drop_append_of_le_length inside.le]
  have marker : short.marker = long.marker := by
    rw [whole, trimmed] at trimmed'
    exact (List.cons.inj trimmed').1
  obtain ⟨-, -, -, shortRun, -⟩ := parseOpeningFence_eq_some line short opens
  obtain ⟨-, -, -, longRun, -⟩ := parseOpeningFence_eq_some (line ++ tail) long opensWhole
  refine ⟨marker, ?_⟩
  rw [shortRun, longRun, whole, marker]
  exact markerRun_le_append _ _ _

end Runs

section Markers

variable {state : FenceState} (ok : state.WellFormed)

def fenceLine (bf : BlockFence) : Text := List.replicate bf.openLen bf.marker

theorem FenceState.WellFormed.marker_ne {state : FenceState} (ok : state.WellFormed)
    (bf : BlockFence) (block : state.block = some bf) : bf.marker ≠ ' ' ∧ bf.marker ≠ '\n' := by
  rcases ok.marker bf block with same | same <;> rw [same] <;> decide

include ok in
theorem indent_fenceLine (bf : BlockFence) (block : state.block = some bf) :
    indent (fenceLine bf) = 0 := by
  obtain ⟨n, size⟩ := Nat.exists_eq_add_of_le (ok.openLen bf block)
  rw [fenceLine, size, Nat.add_comm, List.replicate_succ]
  simp [indent, markerRun, (ok.marker_ne bf block).1]

include ok in
theorem parseOpeningFence_fenceLine (bf : BlockFence) (block : state.block = some bf) :
    parseOpeningFence (fenceLine bf) = some bf := by
  have long := ok.openLen bf block
  have marker := ok.marker bf block
  have head : (fenceLine bf).head? = some bf.marker := by
    rw [fenceLine, List.head?_replicate, if_neg (by omega)]
  have run : markerRun bf.marker (fenceLine bf) = bf.openLen := markerRun_replicate _ _
  unfold parseOpeningFence
  rw [indent_fenceLine ok bf block, if_neg (by omega)]
  simp only [List.drop_zero, head, run]
  rw [if_neg (fun other => by tauto), if_neg (by omega), if_neg (by simp [fenceLine])]

include ok in
theorem isClosingFence_fenceLine (bf other : BlockFence) (block : state.block = some bf)
    (marker : other.marker = bf.marker) (shorter : other.openLen ≤ bf.openLen) :
    isClosingFence (fenceLine bf) other := by
  have run : markerRun other.marker (fenceLine bf) = bf.openLen := by
    rw [marker]
    exact markerRun_replicate _ _
  simp only [isClosingFence, indent_fenceLine ok bf block, List.drop_zero, run]
  simp [fenceLine, shorter]

theorem stepBlock_nil (state : FenceState) (ok : state.WellFormed) :
    stepBlock state.block [] = state.block := by
  cases block : state.block with
  | none => rfl
  | some bf =>
      have long := ok.openLen bf block
      have : isClosingFence [] bf = false := by
        simp only [isClosingFence, List.drop_nil, markerRun, List.takeWhile_nil, List.length_nil]
        simp only [Bool.and_eq_false_iff, decide_eq_false_iff_not]
        exact .inl (.inr (by omega))
      simp [stepBlock, this]

theorem splitLines_fenceLine (bf : BlockFence) (block : state.block = some bf)
    (ok : state.WellFormed) : splitLines (fenceLine bf) = ([], fenceLine bf) := by
  apply splitLines_line
  intro member
  exact (ok.marker_ne bf block).2 (List.eq_of_mem_replicate member).symm

theorem scan_opening (entry : FenceState) (ok : entry.WellFormed) (body : Text) :
    (scan {} (openFenceMarker entry.block ++ body) []).block = (scan entry body []).block := by
  cases block : entry.block with
  | none => simp only [openFenceMarker, List.nil_append, scan_block, block]
  | some bf =>
      have lines : splitLines (openFenceMarker (some bf) ++ body) =
          (fenceLine bf :: (splitLines body).1, (splitLines body).2) := by
        rw [show openFenceMarker (some bf) ++ body = fenceLine bf ++ '\n' :: body by
          simp [openFenceMarker, fenceLine], splitLines_append_newline,
          splitLines_fenceLine bf block ok]
        rfl
      have opened : stepBlock none (fenceLine bf) = some bf :=
        parseOpeningFence_fenceLine ok bf block
      simp only [scan_block, lines, List.foldl_cons, opened, block]

theorem scan_closing (entry : FenceState) (ok : entry.WellFormed) (body : Text) (bf : BlockFence)
    (state : FenceState) (stateOk : state.WellFormed) (block : state.block = some bf) :
    (scan entry (body ++ closeFenceMarker (some bf)) []).block =
      stepBlock (scan entry body []).block (fenceLine bf) := by
  have lines : splitLines (body ++ closeFenceMarker (some bf)) =
      ((splitLines body).1 ++ [(splitLines body).2], fenceLine bf) := by
    rw [show closeFenceMarker (some bf) = '\n' :: fenceLine bf from rfl,
      splitLines_append_newline, splitLines_fenceLine bf block stateOk]
  have nonempty : fenceLine bf ≠ [] := by
    have := stateOk.openLen bf block
    simp only [fenceLine, ne_eq, List.replicate_eq_nil_iff]
    omega
  have linesOk := scanLines_wellFormed entry (splitLines body).1 ok
  have unchanged := stepBlock_nil _ linesOk
  rw [scanLines_block] at unchanged
  simp only [scan_block, lines, nonempty, if_false, List.foldl_append, List.foldl_cons,
    List.foldl_nil, List.takeWhile_nil, List.append_nil]
  split
  · rename_i empty
    rw [empty, unchanged]
  · rfl

theorem scan_marker (entry : FenceState) (body after : Text) (short long : BlockFence)
    (cut : (scan entry body []).block = some short)
    (whole : (scan entry body after).block = some long) :
    short.marker = long.marker ∧ short.openLen ≤ long.openLen := by
  rw [scan_block] at cut whole
  split at cut
  · rename_i empty
    rw [if_pos empty, cut] at whole
    obtain rfl := Option.some.inj whole
    exact ⟨rfl, le_refl _⟩
  · rename_i partialLine
    rw [if_neg partialLine] at whole
    simp only [List.takeWhile_nil, List.append_nil] at cut
    cases block : (splitLines body).1.foldl stepBlock entry.block with
    | some bf =>
        simp only [block, stepBlock] at cut whole
        split_ifs at cut whole
        obtain rfl := Option.some.inj cut
        obtain rfl := Option.some.inj whole
        exact ⟨rfl, le_refl _⟩
    | none =>
        rw [block] at cut whole
        exact parseOpeningFence_append _ _ short long cut whole

theorem stepBlock_fenceLine (state : FenceState) (ok : state.WellFormed) (bf : BlockFence)
    (block : state.block = some bf) (other : Option BlockFence)
    (same : ∀ short, other = some short → short.marker = bf.marker ∧ short.openLen ≤ bf.openLen) :
    stepBlock other (fenceLine bf) = none ↔ other.isSome := by
  cases other with
  | none => simp [stepBlock, parseOpeningFence_fenceLine ok bf block]
  | some short =>
      obtain ⟨marker, shorter⟩ := same short rfl
      simp [stepBlock, isClosingFence_fenceLine ok bf short block marker shorter]

theorem chunk_closed_iff (entry : FenceState) (ok : entry.WellFormed) (body after : Text) :
    (scan {} (openFenceMarker entry.block ++
        (body ++ closeFenceMarker (scan entry body after).block)) []).block = none ↔
      (scan entry body []).block.isSome = (scan entry body after).block.isSome := by
  have wholeOk := scan_wellFormed entry body after ok
  rw [scan_opening entry ok]
  cases whole : (scan entry body after).block with
  | none => simp [closeFenceMarker]
  | some bf =>
      rw [scan_closing entry ok body bf _ wholeOk whole, stepBlock_fenceLine _ wholeOk bf whole]
      · simp
      · exact fun short cut => scan_marker entry body after short bf cut whole

theorem scan_char (entry : FenceState) (ok : entry.WellFormed) (c : Char) :
    (scan entry [c] []).block = entry.block := by
  by_cases newline : c = '\n'
  · subst newline
    have lines : splitLines ['\n'] = ([[]], []) := rfl
    simp only [scan_block, lines, if_true, List.foldl_cons, List.foldl_nil]
    exact stepBlock_nil entry ok
  · have lines : splitLines [c] = ([], [c]) := by simp [splitLines, newline]
    have short (marker : Char) (n : Nat) : markerRun marker ([c].drop n) ≤ 1 := by
      have := markerRun_le_length marker ([c].drop n)
      simp only [List.length_drop, List.length_singleton] at this
      omega
    simp only [scan_block, lines, List.cons_ne_nil, if_false, List.foldl_nil, List.takeWhile_nil,
      List.append_nil]
    cases block : entry.block with
    | none =>
        cases opens : parseOpeningFence [c] with
        | none => exact opens
        | some bf =>
            obtain ⟨-, -, long, run, -⟩ := parseOpeningFence_eq_some [c] bf opens
            have := short bf.marker (indent [c])
            omega
    | some bf =>
        have long := ok.openLen bf block
        have := short bf.marker (indent [c])
        have open_ : isClosingFence [c] bf = false := by
          simp only [isClosingFence, Bool.and_eq_false_iff, decide_eq_false_iff_not]
          exact .inl (.inr (by omega))
        simp [stepBlock, open_]

end Markers

section Blocks

/-- Every chunk but the last leaves no fence open, a chunk reopens exactly the fence that the
text has open where its body starts, and the bodies make up the text. -/
structure SelfContained (text : Text) (chunks : List Chunk) : Prop where
  closed : ∀ front chunk later, chunks = front ++ chunk :: later → later ≠ [] →
    ∀ fence, fenceDepthAt chunk.text (byteLength chunk.text) = some fence → fence.block = none
  reopened : ∀ front chunk later, chunks = front ++ chunk :: later →
    ∃ fence, fenceDepthAt text (byteLength (front.flatMap Chunk.body)) = some fence ∧
      chunk.opening = openFenceMarker fence.block
  bodies : chunks.flatMap Chunk.body = text

/-- Where a chunk starts that the rest does not fit in, the reopened marker leaves room for a
character, and the line that the chunk is cut in leaves a fence open exactly when its part before
the cut does. -/
def ReadsAlike (text : Text) (providerLimit : Nat) (state : SplitState) : Prop :=
  ∀ rest, sliceFrom text state.cursor = some rest →
    let opening := byteLength (openFenceMarker state.entry.block)
    providerLimit < byteLength rest + opening → 1 < rest.length →
      (∀ first ∈ rest.head?, state.entry.block.isSome →
        opening + first.utf8Size ≤ providerLimit) ∧
      ∀ body after, rest = body ++ after → body ≠ [] →
        (chooseCut (fun _ cut => cut) rest (findBoundary rest (providerLimit - opening))
          state.entry).map Prod.fst = some (byteLength body) →
        (scan state.entry body []).block.isSome = (scan state.entry body after).block.isSome

variable {text : Text} {providerLimit : Nat} {state : SplitState}
  {before rest head tail body after : Text}

theorem readsAlike_iff (located : Located text state before rest)
    (choice : Choice (fun _ cut => cut) providerLimit state rest head tail body after)
    (several : 1 < rest.length) :
    ReadsAlike text providerLimit state ↔
      (∀ first ∈ rest.head?, state.entry.block.isSome →
        byteLength (openFenceMarker state.entry.block) + first.utf8Size ≤ providerLimit) ∧
      (body ≠ [] →
        (scan state.entry body []).block.isSome = (scan state.entry body after).block.isSome) := by
  simp only [ReadsAlike, located.sliceFrom, Option.some.injEq, forall_eq', choice.long, several,
    forall_const, choice.run, Option.map_some]
  refine and_congr_right fun _ => ⟨fun all nonempty => all body after choice.taken nonempty rfl, ?_⟩
  intro alike left right same nonempty size
  obtain ⟨rfl, rfl⟩ := append_inj_of_length _ _ _ _ (same.symm.trans choice.taken) size.symm
  exact alike nonempty

theorem Choice.head_le
    (choice : Choice (fun _ cut => cut) providerLimit state rest head tail body after)
    (nonempty : rest ≠ []) :
    byteLength head ≤ providerLimit - byteLength (openFenceMarker state.entry.block) ∧
      (∀ first ∈ rest.head?,
        byteLength (openFenceMarker state.entry.block) + first.utf8Size ≤ providerLimit →
          head ≠ []) := by
  have long := choice.long
  have positive := Nat.pos_of_ne_zero ((byteLength_eq_zero rest).not.mpr nonempty)
  obtain ⟨bound, left, whole, boundary, fits, first⟩ := findBoundary_spec rest
    (providerLimit - byteLength (openFenceMarker state.entry.block))
  have size : byteLength head = byteLength bound := choice.size.trans boundary
  obtain ⟨rfl, rfl⟩ := append_inj_of_length _ _ _ _ (choice.candidate.symm.trans whole) size
  refine ⟨fits.resolve_left (by omega), ?_⟩
  intro c starts room
  obtain ⟨more, same⟩ := List.head?_eq_some_iff.mp starts
  exact first c more same (by omega)

theorem Choice.forced_block (located : Located text state before rest)
    (choice : Choice (fun _ cut => cut) providerLimit state rest head tail [] rest)
    (first : Char) (more : Text) (same : rest = first :: more) (inside : state.entry.block.isSome) :
    ¬ byteLength (openFenceMarker state.entry.block) + first.utf8Size ≤ providerLimit := by
  intro room
  have nonempty : head ≠ [] := (choice.head_le (by simp [same])).2 first (by simp [same]) room
  cases choice.cut with
  | candidate _ empty => exact nonempty empty.symm
  | inside _ empty => exact nonempty empty.symm
  | back within safe below found size =>
      obtain rfl : 0 = safe := size
      have closed := backtrackToSafe_spec rest state.entry (byteLength head) (by
        rw [choice.candidate]
        simp)
      rw [found] at closed
      obtain ⟨-, -, between⟩ := closed
      -- One character into the block no inline span is open, so the search stops there.
      have literal := scan_next_literal state.entry [] first more located.wellFormed
        (by rw [scan_nil]; exact inside)
      obtain ⟨c, others, headIs⟩ := List.exists_cons_of_ne_nil nonempty
      obtain ⟨rfl, moreIs⟩ : c = first ∧ others ++ tail = more := by
        have := choice.candidate.symm.trans same
        rw [headIs] at this
        exact List.cons.inj this
      by_cases only : others = []
      · rw [headIs, only] at within
        rw [only] at moreIs
        simp only [List.nil_append] at literal moreIs
        rw [moreIs, literal] at within
        cases within
      · have longer := Nat.pos_of_ne_zero ((byteLength_eq_zero others).not.mpr only)
        have positive := c.utf8Size_pos
        have span := between [c] more same (by simpa using positive)
          (by rw [headIs]; simp only [byteLength_cons, byteLength_nil]; omega)
        simp only [List.nil_append] at literal
        rw [literal] at span
        cases span

theorem round_closed_iff {chunk : Chunk} (located : Located text state before rest)
    (round : Round (fun _ cut => cut) providerLimit state rest chunk body after)
    (taken : rest = body ++ after) (nonempty : rest ≠ []) :
    (after ≠ [] → (scan {} chunk.text []).block = none) ↔ ReadsAlike text providerLimit state := by
  cases round with
  | final fits =>
      simp only [ne_eq, not_true_eq_false, false_implies, true_iff]
      intro other sliced
      rw [located.sliceFrom] at sliced
      obtain rfl := Option.some.inj sliced
      intro _ long
      omega
  | forced head tail first more same choice =>
      have blocked := choice.forced_block located first after same
      by_cases only : after = []
      · simp only [only, ne_eq, not_true_eq_false, false_implies, true_iff]
        intro other sliced
        rw [located.sliceFrom] at sliced
        obtain rfl := Option.some.inj sliced
        intro _ _ several
        simp [same, only] at several
      · have several : 1 < rest.length := by
          have := List.length_pos_iff.mpr only
          simp only [same, List.length_cons]
          omega
        have chunkBlock : (scan {} (Chunk.text ⟨openFenceMarker state.entry.block, [first], []⟩)
            []).block = state.entry.block := by
          rw [Chunk.text, List.append_nil, scan_opening _ located.wellFormed,
            scan_char _ located.wellFormed]
        rw [readsAlike_iff located choice several, chunkBlock, same]
        simp only [only, not_false_eq_true, ne_eq, forall_const, List.head?_cons, Option.mem_def,
          Option.some.injEq, forall_eq', not_true_eq_false, false_implies, and_true]
        cases block : state.entry.block with
        | none => simp
        | some bf => simpa [block] using blocked (by simp [block])
  | cut head tail body after nonemptyBody choice =>
      obtain ⟨budget, -⟩ := choice.head_le nonempty
      have positive := Nat.pos_of_ne_zero ((byteLength_eq_zero body).not.mpr nonemptyBody)
      have long := choice.long
      have short := choice.short
      have size : byteLength rest = byteLength body + byteLength after := by
        rw [taken, byteLength_append]
      have left : after ≠ [] := (byteLength_eq_zero after).not.mp (by omega)
      have several : 1 < rest.length := by
        have := List.length_pos_iff.mpr nonemptyBody
        have := List.length_pos_iff.mpr left
        rw [taken, List.length_append]
        omega
      have room (first : Char) (starts : first ∈ rest.head?) :
          byteLength (openFenceMarker state.entry.block) + first.utf8Size ≤ providerLimit := by
        obtain ⟨c, others, bodyIs⟩ := List.exists_cons_of_ne_nil nonemptyBody
        obtain rfl : c = first := by simpa [taken, bodyIs] using starts
        rw [bodyIs, byteLength_cons] at short
        have := c.utf8Size_pos
        omega
      rw [readsAlike_iff located choice several]
      simp only [left, ne_eq, not_false_eq_true, forall_const, nonemptyBody]
      rw [← chunk_closed_iff _ located.wellFormed]
      exact ⟨fun closed => ⟨fun first starts _ => room first starts, closed⟩, And.right⟩

theorem selfContained_iff (text : Text) (providerLimit : Nat) :
    (∃ chunks, splitMarkdownAware text providerLimit = some chunks ∧ SelfContained text chunks) ↔
      ∀ state, Reached (fun _ cut => cut) text providerLimit state →
        ReadsAlike text providerLimit state := by
  obtain ⟨chunks, run, rounds⟩ := splitChunks_rounds adjusts_id text providerLimit
  have all := rounds.forall_iff
    (fun _ chunk later => later ≠ [] → (scan {} chunk.text []).block = none)
    (ReadsAlike text providerLimit) fun state before rest chunk body after later _ located nonempty
      round taken ended => by
        rw [← round_closed_iff located round taken nonempty, ne_eq, ended]
  have depth (chunk : Chunk) :
      fenceDepthAt chunk.text (byteLength chunk.text) = some (scan {} chunk.text []) := by
    simpa [fenceDepthAt] using fenceDepthFrom_append chunk.text [] {}
  have closed : SelfContained text chunks ↔ ∀ front chunk later,
      chunks = front ++ chunk :: later → later ≠ [] → (scan {} chunk.text []).block = none := by
    constructor
    · intro selfContained front chunk later same more
      exact selfContained.closed front chunk later same more _ (depth chunk)
    · intro each
      refine ⟨fun front chunk later same more fence found => ?_, fun front chunk later same => ?_,
        rounds.bodies⟩
      · obtain rfl := Option.some.inj ((depth chunk).symm.trans found)
        exact each front chunk later same more
      · simpa using rounds.opening front later chunk same
  have split : splitMarkdownAware text providerLimit = some chunks := run
  simp only [split, Option.some.injEq, exists_eq_left', closed, all, Reached, and_imp]

-- A fence with a long info string, indented by two spaces.
def indentedFence : Text := [' ', ' ', backtick, backtick, backtick] ++ List.replicate 20 'x'

theorem indent_cut_off : ¬ ∀ text providerLimit, 16 ≤ providerLimit →
    ∃ chunks, splitMarkdownAware text providerLimit = some chunks ∧ SelfContained text chunks := by
  intro claim
  obtain ⟨chunks, run, selfContained⟩ := claim indentedFence 16 (le_refl 16)
  have split : splitMarkdownAware indentedFence 16 = some
      [⟨[], [' ', ' '], ['\n', backtick, backtick, backtick]⟩,
        ⟨[backtick, backtick, backtick, '\n'],
          [backtick, backtick, backtick] ++ List.replicate 9 'x',
          ['\n', backtick, backtick, backtick]⟩,
        ⟨[backtick, backtick, backtick, '\n'], List.replicate 11 'x', []⟩] := by decide
  rw [split] at run
  obtain rfl := Option.some.inj run
  have closed := selfContained.closed [] _ _ rfl (by simp)
    ⟨some ⟨backtick, 3⟩, none⟩ (by decide)
  cases closed

end Blocks

end Frona.Chat
