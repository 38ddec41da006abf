import Frona.Chat.SplitRounds

set_option autoImplicit false

namespace Frona.Chat

open Utf8 Frona.Text

section Markers

-- The bytes of a fence marker with its line break.
def markerLen : Option BlockFence → Nat
  | none => 0
  | some bf => bf.openLen + 1

theorem byteLength_replicate (n : Nat) (c : Char) :
    byteLength (List.replicate n c) = n * c.utf8Size := by
  induction n with
  | zero => simp
  | succ n ih => rw [List.replicate_succ, byteLength_cons, ih, Nat.succ_mul, Nat.add_comm]

theorem FenceState.WellFormed.marker_size {state : FenceState} (ok : state.WellFormed)
    (bf : BlockFence) (block : state.block = some bf) : bf.marker.utf8Size = 1 := by
  rcases ok.marker bf block with same | same <;> rw [same] <;> rfl

theorem FenceState.WellFormed.openFenceMarker_length {state : FenceState}
    (ok : state.WellFormed) : byteLength (openFenceMarker state.block) = markerLen state.block := by
  cases block : state.block with
  | none => rfl
  | some bf =>
      simp only [openFenceMarker, markerLen, byteLength_append, byteLength_replicate,
        ok.marker_size bf block, byteLength_cons, byteLength_nil, Nat.mul_one]
      rfl

theorem FenceState.WellFormed.closeFenceMarker_length {state : FenceState}
    (ok : state.WellFormed) :
    byteLength (closeFenceMarker state.block) = markerLen state.block := by
  cases block : state.block with
  | none => rfl
  | some bf =>
      simp only [closeFenceMarker, markerLen, byteLength_replicate, ok.marker_size bf block,
        byteLength_cons, Nat.mul_one, show Char.utf8Size '\n' = 1 from rfl]
      omega

end Markers

section Fits

def ShortFences (text : Text) : Prop :=
  ∀ cursor fence, fenceDepthAt text cursor = some fence →
    ∀ bf, fence.block = some bf → bf.openLen ≤ 4

def LeavesRoom (adjust : Text → Nat → Nat) (text : Text) (providerLimit : Nat)
    (state : SplitState) : Prop :=
  ∀ rest, sliceFrom text state.cursor = some rest →
    let opening := byteLength (openFenceMarker state.entry.block)
    let budget := providerLimit - opening
    let boundary := findBoundary rest budget
    let cut := adjust rest boundary
    providerLimit < byteLength rest + opening →
      ∀ fence, fenceDepthFrom rest cut state.entry = some fence →
        (∀ bf, fence.block = some bf → cut + (bf.openLen + 1) ≤ budget) ∧
        (budget < cut → fence.inlineOpen.isSome ∧
          ∃ safe < boundary, backtrackToSafe rest state.entry cut = some safe)

def ChunksFit (providerLimit : Nat) (result : Option (List Text)) : Prop :=
  ∃ chunks, result = some chunks ∧ ∀ chunk ∈ chunks, byteLength chunk ≤ providerLimit

def AlwaysLeavesRoom (adjust : Text → Nat → Nat) (text : Text) (providerLimit : Nat) : Prop :=
  ¬ text.all isWhitespace → providerLimit < byteLength text →
    ∀ state, Reached adjust text providerLimit state → LeavesRoom adjust text providerLimit state

variable {adjust : Text → Nat → Nat} (adjusts : Adjusts adjust) {text : Text}
  {providerLimit : Nat} (large : 16 ≤ providerLimit) (fences : ShortFences text)

theorem Located.opening_le {state : SplitState} {before rest : Text} (fences : ShortFences text)
    (located : Located text state before rest) :
    byteLength (openFenceMarker state.entry.block) ≤ 5 := by
  rw [located.wellFormed.openFenceMarker_length]
  cases block : state.entry.block with
  | none => exact Nat.zero_le 5
  | some bf =>
      have found : fenceDepthAt text (byteLength before) = some state.entry := by
        rw [located.entry, located.whole]
        exact fenceDepthFrom_append before rest {}
      have := fences _ _ found bf block
      simp only [markerLen]
      omega

theorem leavesRoom_iff {state : SplitState} {before rest head tail body after : Text}
    (located : Located text state before rest)
    (choice : Choice adjust providerLimit state rest head tail body after) :
    LeavesRoom adjust text providerLimit state ↔
      let budget := providerLimit - byteLength (openFenceMarker state.entry.block)
      (∀ bf, (scan state.entry head tail).block = some bf →
        byteLength head + (bf.openLen + 1) ≤ budget) ∧
      (budget < byteLength head → (scan state.entry head tail).inlineOpen.isSome ∧
        ∃ safe < findBoundary rest budget,
          backtrackToSafe rest state.entry (byteLength head) = some safe) := by
  have found : fenceDepthFrom rest (byteLength head) state.entry =
      some (scan state.entry head tail) := by
    rw [choice.candidate]
    exact fenceDepthFrom_append head tail state.entry
  simp only [LeavesRoom, located.sliceFrom, Option.some.injEq, forall_eq', ← choice.size, found,
    choice.long, forall_const]

theorem next_le_boundary (before after left right : Text) (d : Char) (more : Text)
    (same : before ++ after = left ++ right) (less : byteLength before < byteLength left)
    (next : after = d :: more) : byteLength before + d.utf8Size ≤ byteLength left := by
  obtain ⟨between, rfl, split⟩ := exists_between before after left right same less.le
  cases between with
  | nil => simp at less
  | cons c rest =>
      rw [next, List.cons_append, List.cons.injEq] at split
      rw [split.1]
      simp only [byteLength_append, byteLength_cons]
      omega

structure Bounds (adjust : Text → Nat → Nat) (budget : Nat) (rest head bound left : Text) :
    Prop where
  whole : rest = bound ++ left
  boundary : findBoundary rest budget = byteLength bound
  inside : byteLength bound ≤ budget
  positive : 0 < byteLength bound
  moved : byteLength head = byteLength bound ∨
    ∃ c more, left = c :: more ∧ byteLength head = byteLength bound + c.utf8Size

include adjusts large fences in
theorem exists_bounds {state : SplitState} {before rest head tail body after : Text}
    (located : Located text state before rest)
    (choice : Choice adjust providerLimit state rest head tail body after) :
    ∃ bound left, Bounds adjust
      (providerLimit - byteLength (openFenceMarker state.entry.block)) rest head bound left := by
  have opening := located.opening_le fences
  have long := choice.long
  obtain ⟨bound, left, whole, boundary, fits, first⟩ := findBoundary_spec rest
    (providerLimit - byteLength (openFenceMarker state.entry.block))
  refine ⟨bound, left, whole, boundary, fits.resolve_left (by omega), ?_, ?_⟩
  · cases rest with
    | nil =>
        simp only [byteLength_nil] at long
        omega
    | cons c more =>
        have := c.utf8Size_le_four
        exact Nat.pos_of_ne_zero ((byteLength_eq_zero bound).not.mpr (first c more rfl (by omega)))
  · rw [choice.size, boundary, whole]
    exact adjusts.moves bound left

include adjusts in
theorem back_fits {budget : Nat} {entry : FenceState} {rest head tail body bound left : Text}
    (candidate : rest = head ++ tail) (short : byteLength body ≤ byteLength head)
    (bounds : Bounds adjust budget rest head bound left)
    (size : byteLength head = adjust rest (byteLength bound)) (safe : Nat)
    (below : safe < byteLength head)
    (found : backtrackToSafe rest entry (byteLength head) = some safe)
    (bodySize : byteLength body = adjust rest safe) :
    byteLength body ≤ budget ↔ (budget < byteLength head → safe < byteLength bound) := by
  have closed := backtrackToSafe_spec rest entry (byteLength head) (by simp [candidate])
  rw [found] at closed
  obtain ⟨-, ⟨p, q, same, rfl, -⟩, -⟩ := closed
  have inside := bounds.inside
  rcases bounds.moved with stays | ⟨c, more, next, moved⟩
  · constructor <;> intro <;> omega
  · have atMost : byteLength p ≤ byteLength bound := by
      by_contra above
      have := next_le_boundary bound left p q c more (bounds.whole.symm.trans same) (by omega) next
      omega
    rcases Nat.eq_or_lt_of_le atMost with final | less
    · rw [bodySize, final, ← size]
      constructor <;> intro <;> omega
    · have : byteLength body ≤ byteLength bound := by
        rw [bodySize, same]
        rcases adjusts.moves p q with stays | ⟨d, rest', nextD, moved⟩
        · rw [stays]
          exact atMost
        · rw [moved]
          exact next_le_boundary p q bound left d rest' (same.symm.trans bounds.whole) less nextD
      constructor <;> intro <;> omega

theorem chunk_length (chunk : Chunk) : byteLength chunk.text =
    byteLength chunk.opening + (byteLength chunk.body + byteLength chunk.closing) := by
  simp [Chunk.text]

include adjusts large fences in
theorem cut_fits_iff {state : SplitState} {before rest head tail body after : Text}
    (located : Located text state before rest)
    (choice : Choice adjust providerLimit state rest head tail body after) :
    byteLength (openFenceMarker state.entry.block) + (byteLength body +
        byteLength (closeFenceMarker (scan state.entry body after).block)) ≤ providerLimit ↔
      LeavesRoom adjust text providerLimit state := by
  have opening := located.opening_le fences
  obtain ⟨bound, left, bounds⟩ := exists_bounds adjusts large fences located choice
  have literal (within : (scan state.entry head tail).inlineOpen.isSome) :
      (scan state.entry head tail).block = none := by
    cases block : (scan state.entry head tail).block with
    | none => rfl
    | some bf =>
        have := (scan_wellFormed state.entry head tail located.wellFormed).literal bf block
        simp [this] at within
  rw [leavesRoom_iff located choice]
  dsimp only
  rw [(scan_wellFormed _ body after located.wellFormed).closeFenceMarker_length]
  cases choice.cut with
  | candidate outside same blocks =>
      rw [blocks, same, outside]
      cases block : (scan state.entry head tail).block with
      | none => simp [markerLen]; omega
      | some bf => simp [markerLen]; omega
  | inside within same blocks stuck =>
      rw [blocks, same, stuck, literal within]
      simp [markerLen]
      omega
  | back within safe below found size blocks =>
      have fits := back_fits adjusts choice.candidate choice.short bounds
        (bounds.boundary ▸ choice.size) safe below found size
      rw [blocks, literal within, found, bounds.boundary]
      simp only [markerLen, within, reduceCtorEq, false_implies, implies_true, true_and,
        Option.some.injEq, exists_eq_right', Nat.add_zero]
      rw [← fits]
      omega

include adjusts large fences in
theorem round_fits_iff {state : SplitState} {before rest body after : Text} {chunk : Chunk}
    (located : Located text state before rest)
    (round : Round adjust providerLimit state rest chunk body after) :
    byteLength chunk.text ≤ providerLimit ↔ LeavesRoom adjust text providerLimit state := by
  have opening := located.opening_le fences
  cases round with
  | final fits =>
      constructor
      · intro _ other sliced
        rw [located.sliceFrom] at sliced
        obtain rfl := Option.some.inj sliced
        intro _ _ _ _ long
        omega
      · intro _
        rw [chunk_length]
        simp only [byteLength_nil]
        omega
  | forced head tail first more same choice =>
      have small := first.utf8Size_le_four
      have room := cut_fits_iff adjusts large fences located choice
      have length := located.wellFormed.openFenceMarker_length
      -- The cut is empty: the fence that is open there is the one that the chunk reopens.
      rw [scan_nil, located.wellFormed.closeFenceMarker_length, byteLength_nil] at room
      rw [chunk_length, ← room]
      simp only [byteLength_cons, byteLength_nil]
      omega
  | cut head tail body after nonempty choice =>
      rw [chunk_length]
      exact cut_fits_iff adjusts large fences located choice

include adjusts large fences in
theorem split_fits_iff : ChunksFit providerLimit (split adjust text providerLimit) ↔
    AlwaysLeavesRoom adjust text providerLimit := by
  unfold split AlwaysLeavesRoom
  by_cases blank : text.all isWhitespace
  · simp [blank, ChunksFit]
  · by_cases fits : byteLength text ≤ providerLimit
    · simp [blank, fits, ChunksFit]
    · obtain ⟨chunks, run, rounds⟩ := splitChunks_rounds adjusts text providerLimit
      have all := rounds.forall_iff (fun _ chunk _ => byteLength chunk.text ≤ providerLimit)
        (LeavesRoom adjust text providerLimit) fun state before rest chunk body after later
          _ located _ round _ _ => round_fits_iff adjusts large fences located round
      have listed : ChunksFit providerLimit (some (chunks.map Chunk.text)) ↔
          ∀ front chunk later, chunks = front ++ chunk :: later →
            byteLength chunk.text ≤ providerLimit := by
        simp only [ChunksFit, Option.some.injEq, exists_eq_left', List.mem_map, forall_exists_index,
          and_imp, forall_apply_eq_imp_iff₂]
        constructor
        · intro each front chunk later same
          exact each chunk (by simp [same])
        · intro each chunk member
          obtain ⟨front, later, same⟩ := List.append_of_mem member
          exact each front chunk later same
      rw [if_neg blank, if_neg fits, run, Option.map_some, listed, all]
      simp only [blank, Bool.false_eq_true, not_false_eq_true, forall_const, Nat.not_le.mp fits,
        Reached, and_imp]

end Fits

section Splitters

theorem chunksFit_iff (text : Text) (providerLimit : Nat) (large : 16 ≤ providerLimit)
    (fences : ShortFences text) :
    (ChunksFit providerLimit (MarkdownSplitter.split ⟨providerLimit⟩ text) ↔
        AlwaysLeavesRoom (fun _ cut => cut) text providerLimit) ∧
      (ChunksFit providerLimit (TelegramMarkdownV2Splitter.split ⟨providerLimit⟩ text) ↔
        AlwaysLeavesRoom avoidSplitAfterBackslash text providerLimit) :=
  ⟨split_fits_iff adjusts_id large fences,
    split_fits_iff adjusts_avoidSplitAfterBackslash large fences⟩

-- A code block with a line longer than a chunk.
def longLine : Text := [backtick, backtick, backtick, '\n'] ++ List.replicate 20 'x'

theorem longLine_fences : ShortFences longLine := by
  intro cursor fence found bf block
  have bounded : ∀ cursor < 25, ((fenceDepthAt longLine cursor).bind FenceState.block).all
      (·.openLen ≤ 4) := by decide
  have inside : fenceDepthAt longLine (min cursor 24) = some fence := by
    rw [← found]
    simp only [fenceDepthAt, fenceDepthFrom, show byteLength longLine = 24 from rfl,
      Nat.min_assoc, Nat.min_self]
  have short := bounded (min cursor 24) (by omega)
  simpa [inside, block] using short

theorem chunksFit_iff_longLine :
    (ChunksFit 16 (MarkdownSplitter.split ⟨16⟩ longLine) ↔
        AlwaysLeavesRoom (fun _ cut => cut) longLine 16) ∧
      (ChunksFit 16 (TelegramMarkdownV2Splitter.split ⟨16⟩ longLine) ↔
        AlwaysLeavesRoom avoidSplitAfterBackslash longLine 16) :=
  chunksFit_iff longLine 16 (le_refl 16) longLine_fences

theorem closing_fence_overflows : ¬ ∀ text providerLimit, 16 ≤ providerLimit → ShortFences text →
    ChunksFit providerLimit (MarkdownSplitter.split ⟨providerLimit⟩ text) ∧
      ChunksFit providerLimit (TelegramMarkdownV2Splitter.split ⟨providerLimit⟩ text) := by
  intro claim
  obtain ⟨⟨chunks, run, fit⟩, -⟩ := claim longLine 16 (le_refl 16) longLine_fences
  have split : MarkdownSplitter.split ⟨16⟩ longLine = some
      [[backtick, backtick, backtick, '\n', '\n', backtick, backtick, backtick],
        [backtick, backtick, backtick, '\n'] ++ List.replicate 12 'x' ++
          ['\n', backtick, backtick, backtick],
        [backtick, backtick, backtick, '\n'] ++ List.replicate 8 'x'] := by decide
  rw [split] at run
  obtain rfl := Option.some.inj run
  exact absurd (fit _ (List.mem_cons_of_mem _ List.mem_cons_self)) (by decide)

end Splitters

end Frona.Chat
