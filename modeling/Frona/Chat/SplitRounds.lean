import Frona.Chat.Split
import Mathlib.Logic.Relation

set_option autoImplicit false

namespace Frona.Chat

open Utf8 Frona.Text

section Boundary

theorem floorBoundary_spec (text : Text) (target : Nat) :
    ∃ tail, text = floorBoundary text target ++ tail ∧
      byteLength (floorBoundary text target) ≤ target := by
  induction text generalizing target with
  | nil => exact ⟨[], rfl, Nat.zero_le _⟩
  | cons c rest ih =>
      unfold floorBoundary
      split
      · obtain ⟨tail, same, short⟩ := ih (target - c.utf8Size)
        exact ⟨tail, by rw [List.cons_append, ← same], by simp only [byteLength_cons]; omega⟩
      · exact ⟨c :: rest, rfl, Nat.zero_le _⟩

theorem rfind_eq_some (text pattern : Text) (i : Nat) (found : rfind text pattern = some i) :
    ∃ before after, text = before ++ (pattern ++ after) ∧ byteLength before = i := by
  induction text generalizing i with
  | nil =>
      unfold rfind at found
      split at found
      · rename_i isPrefix
        obtain ⟨after, same⟩ := List.isPrefixOf_iff_prefix.mp isPrefix
        cases found
        exact ⟨[], after, same.symm, rfl⟩
      · cases found
  | cons c rest ih =>
      unfold rfind at found
      split at found
      · rename_i j later
        obtain ⟨before, after, same, size⟩ := ih j later
        cases found
        exact ⟨c :: before, after, by rw [same]; rfl, by rw [byteLength_cons, size]⟩
      · split at found
        · rename_i isPrefix
          obtain ⟨after, same⟩ := List.isPrefixOf_iff_prefix.mp isPrefix
          cases found
          exact ⟨[], after, same.symm, rfl⟩
        · cases found

theorem cut_after_pattern (slice tail pattern : Text) (i : Nat) (nonempty : pattern ≠ [])
    (found : rfind slice pattern = some i) :
    ∃ head rest, slice ++ tail = head ++ rest ∧ i + byteLength pattern = byteLength head ∧
      byteLength head ≤ byteLength slice ∧ head ≠ [] := by
  obtain ⟨before, after, same, size⟩ := rfind_eq_some slice pattern i found
  refine ⟨before ++ pattern, after ++ tail, ?_, ?_, ?_, by simp [nonempty]⟩
  · simp [same]
  · simp [size]
  · rw [same]
    simp only [byteLength_append]
    omega

theorem findBoundary_spec (text : Text) (target : Nat) :
    ∃ head tail, text = head ++ tail ∧ findBoundary text target = byteLength head ∧
      (byteLength text ≤ target ∨ byteLength head ≤ target) ∧
      (∀ c rest, text = c :: rest → c.utf8Size ≤ target → head ≠ []) := by
  unfold findBoundary
  split
  · rename_i fits
    exact ⟨text, [], by simp, rfl, .inl fits, fun c rest same _ => by simp [same]⟩
  · obtain ⟨tail, same, short⟩ := floorBoundary_spec text target
    -- A boundary after a pattern is inside the part that fits.
    have pattern (pat : Text) (i : Nat) (nonempty : pat ≠ [])
        (found : rfind (floorBoundary text target) pat = some i) :
        ∃ head rest, text = head ++ rest ∧ i + byteLength pat = byteLength head ∧
          (byteLength text ≤ target ∨ byteLength head ≤ target) ∧
          (∀ c rest, text = c :: rest → c.utf8Size ≤ target → head ≠ []) := by
      obtain ⟨head, rest, split, size, inside, some⟩ :=
        cut_after_pattern _ tail pat i nonempty found
      exact ⟨head, rest, same.trans split, size, .inr (by omega), fun _ _ _ _ => some⟩
    dsimp only
    split
    · rename_i i found
      exact pattern ['\n', '\n'] i (by simp) found
    · split
      · rename_i i found
        exact pattern ['\n'] i (by simp) found
      · split
        · rename_i i found
          exact pattern [' '] i (by simp) found
        · refine ⟨floorBoundary text target, tail, same, rfl, .inr short, ?_⟩
          rintro c rest rfl fits
          simp [floorBoundary, fits]

structure Adjusts (adjust : Text → Nat → Nat) : Prop where
  moves : ∀ before after, adjust (before ++ after) (byteLength before) = byteLength before ∨
    ∃ c rest, after = c :: rest ∧
      adjust (before ++ after) (byteLength before) = byteLength before + c.utf8Size

theorem adjusts_id : Adjusts fun _ cut => cut := ⟨fun _ _ => .inl rfl⟩

theorem adjusts_avoidSplitAfterBackslash : Adjusts avoidSplitAfterBackslash where
  moves := by
    intro before after
    unfold avoidSplitAfterBackslash
    split
    · exact .inl rfl
    · rw [splitAt_append]
      cases after with
      | nil => exact .inl rfl
      | cons escaped rest =>
          dsimp only
          split
          · exact .inr ⟨escaped, rest, rfl, rfl⟩
          · exact .inl rfl

theorem fenceDepthFrom_append (before after : Text) (entry : FenceState) :
    fenceDepthFrom (before ++ after) (byteLength before) entry =
      some (scan entry before after) := by
  rw [fenceDepthFrom, Nat.min_eq_left (by simp), splitAt_append]
  rfl

theorem fenceDepthFrom_eq_some (text : Text) (cursor : Nat) (entry state : FenceState)
    (inside : cursor ≤ byteLength text) (found : fenceDepthFrom text cursor entry = some state) :
    ∃ before after, text = before ++ after ∧ byteLength before = cursor ∧
      state = scan entry before after := by
  rw [fenceDepthFrom, Nat.min_eq_left inside] at found
  obtain ⟨⟨before, after⟩, split, rfl⟩ := Option.map_eq_some_iff.mp found
  obtain ⟨same, size⟩ := (splitAt_eq_some text cursor before after).mp split
  exact ⟨before, after, same, size, rfl⟩

/-- An inline span is open at every position before `start`, or at those after the one found. -/
def LastClosed (text : Text) (entry : FenceState) (start : Nat) : Option Nat → Prop
  | none => ∀ before after, text = before ++ after → byteLength before < start →
      (scan entry before after).inlineOpen.isSome
  | some safe =>
      safe < start ∧
      (∃ before after, text = before ++ after ∧ byteLength before = safe ∧
        (scan entry before after).inlineOpen = none) ∧
      ∀ before after, text = before ++ after → safe < byteLength before →
        byteLength before < start → (scan entry before after).inlineOpen.isSome

theorem LastClosed.succ {text : Text} {entry : FenceState} {pos : Nat} {result : Option Nat}
    (earlier : LastClosed text entry pos result)
    (span : ∀ before after, text = before ++ after → byteLength before = pos →
      (scan entry before after).inlineOpen.isSome) : LastClosed text entry (pos + 1) result := by
  have last (before after : Text) (same : text = before ++ after) (below : byteLength before < pos + 1)
      (rest : byteLength before < pos → (scan entry before after).inlineOpen.isSome) :
      (scan entry before after).inlineOpen.isSome := by
    rcases Nat.lt_succ_iff_lt_or_eq.mp below with below | final
    · exact rest below
    · exact span before after same final
  cases result with
  | none => exact fun before after same below => last before after same below (earlier before after same)
  | some safe =>
      obtain ⟨below, closed, between⟩ := earlier
      exact ⟨by omega, closed, fun before after same above below =>
        last before after same below (between before after same above)⟩

theorem backtrackToSafe_spec (text : Text) (entry : FenceState) (start : Nat)
    (inside : start ≤ byteLength text) :
    LastClosed text entry start (backtrackToSafe text entry start) := by
  induction start with
  | zero => simp [backtrackToSafe, LastClosed]
  | succ pos ih =>
      have earlier := ih (by omega)
      unfold backtrackToSafe
      cases found : fenceDepthFrom text pos entry with
      | none =>
          apply earlier.succ
          rintro before after rfl rfl
          rw [fenceDepthFrom_append] at found
          cases found
      | some state =>
          obtain ⟨before, after, same, size, rfl⟩ :=
            fenceDepthFrom_eq_some text pos entry state (by omega) found
          cases open_ : (scan entry before after).inlineOpen with
          | none =>
              simp only [open_, Option.isNone_none, if_true]
              refine ⟨Nat.lt_succ_self pos, ⟨before, after, same, size, open_⟩, ?_⟩
              intro before' after' _ above below
              omega
          | some n =>
              simp only [open_, Option.isNone_some, Bool.false_eq_true, if_false]
              apply earlier.succ
              intro before' after' same' size'
              obtain ⟨rfl, rfl⟩ := append_inj_of_length before after before' after'
                (same.symm.trans same') (by omega)
              simp [open_]

end Boundary

section Cut

variable {adjust : Text → Nat → Nat} (adjusts : Adjusts adjust) (entry : FenceState)
  (ok : entry.WellFormed)

inductive CutAt (adjust : Text → Nat → Nat) (remaining head body : Text) (entry : FenceState)
    (state : FenceState) (block : Option BlockFence) : Prop where
  | candidate (outside : state.inlineOpen = none) (same : body = head) (blocks : block = state.block)
  | inside (within : state.inlineOpen.isSome) (same : body = head) (blocks : block = none)
      (stuck : backtrackToSafe remaining entry (byteLength head) = none)
  | back (within : state.inlineOpen.isSome) (safe : Nat) (before : safe < byteLength head)
      (found : backtrackToSafe remaining entry (byteLength head) = some safe)
      (size : byteLength body = adjust remaining safe) (blocks : block = none)

include adjusts ok in
theorem chooseCut_back (head tail : Text) (safe : Nat)
    (found : backtrackToSafe (head ++ tail) entry (byteLength head) = some safe)
    (within : (scan entry head tail).inlineOpen.isSome) :
    ∃ body after, head ++ tail = body ++ after ∧ byteLength body = adjust (head ++ tail) safe ∧
      byteLength body ≤ byteLength head ∧ safe < byteLength head ∧
      (scan entry body after).block = none := by
  have closed := backtrackToSafe_spec (head ++ tail) entry (byteLength head) (by simp)
  rw [found] at closed
  obtain ⟨below, ⟨before, after, same, rfl, outside⟩, between⟩ := closed
  obtain ⟨rest, whole, tailIs⟩ := exists_between before after head tail same.symm below.le
  -- The character after the safe position: the span is open behind it.
  obtain ⟨c, more, restIs⟩ : ∃ c more, rest = c :: more := by
    cases rest with
    | nil => simp [whole] at below
    | cons c more => exact ⟨c, more, rfl⟩
  have afterIs : after = c :: (more ++ tail) := by rw [tailIs, restIs]; rfl
  have nextBefore : byteLength (before ++ [c]) ≤ byteLength head := by
    rw [whole, restIs]
    simp only [byteLength_append, byteLength_cons, byteLength_nil]
    omega
  have nextWhole : head ++ tail = (before ++ [c]) ++ (more ++ tail) := by
    rw [same, afterIs]
    simp
  have span : (scan entry (before ++ [c]) (more ++ tail)).inlineOpen.isSome := by
    rcases Nat.lt_or_eq_of_le nextBefore with less | final
    · refine between _ _ nextWhole ?_ less
      have := c.utf8Size_pos
      simp only [byteLength_append, byteLength_cons]
      omega
    · obtain ⟨headIs, tailIs⟩ := append_inj_of_length _ _ _ _ nextWhole final.symm
      rw [← headIs, ← tailIs]
      exact within
  rw [same]
  rcases adjusts.moves before after with stays | ⟨d, left, moved, size⟩
  · refine ⟨before, after, rfl, stays.symm, below.le, below, ?_⟩
    cases block : (scan entry before after).block with
    | none => rfl
    | some bf =>
        rw [afterIs] at block
        have literal := scan_next_literal entry before c (more ++ tail) ok (by simp [block])
        simp [literal] at span
  · obtain ⟨rfl, rfl⟩ : c = d ∧ more ++ tail = left := by
      rw [afterIs, List.cons.injEq] at moved
      exact moved
    refine ⟨before ++ [c], more ++ tail, by rw [afterIs]; simp, ?_, nextBefore, below, ?_⟩
    · rw [size]
      simp
    · cases block : (scan entry (before ++ [c]) (more ++ tail)).block with
      | none => rfl
      | some bf =>
          have literal := (scan_wellFormed entry _ _ ok).literal bf block
          simp [literal] at span

include adjusts ok in
theorem chooseCut_spec (head tail : Text) :
    ∃ body after, head ++ tail = body ++ after ∧
      chooseCut adjust (head ++ tail) (byteLength head) entry =
        some (byteLength body, closeFenceMarker (scan entry body after).block) ∧
      byteLength body ≤ byteLength head ∧
      CutAt adjust (head ++ tail) head body entry (scan entry head tail)
        (scan entry body after).block := by
  simp only [chooseCut, fenceDepthFrom_append, Option.bind_eq_bind, Option.bind_some]
  cases span : (scan entry head tail).inlineOpen with
  | none =>
      refine ⟨head, tail, rfl, ?_, le_refl _, .candidate span rfl rfl⟩
      cases block : (scan entry head tail).block <;> rfl
  | some n =>
      have within : (scan entry head tail).inlineOpen.isSome := by simp [span]
      have outside : (scan entry head tail).block = none := by
        cases block : (scan entry head tail).block with
        | none => rfl
        | some bf => simp [(scan_wellFormed entry _ _ ok).literal bf block] at span
      cases found : backtrackToSafe (head ++ tail) entry (byteLength head) with
      | none =>
          refine ⟨head, tail, rfl, ?_, le_refl _, .inside within rfl outside found⟩
          simp only [outside]
          rfl
      | some safe =>
          obtain ⟨body, after, same, size, short, before, blocks⟩ :=
            chooseCut_back adjusts entry ok head tail safe found within
          refine ⟨body, after, same, ?_, short, .back within safe before found size blocks⟩
          simp only [outside]
          rw [← size, same, fenceDepthFrom_append]
          rfl

end Cut

section Round

structure Located (text : Text) (state : SplitState) (before rest : Text) : Prop where
  whole : text = before ++ rest
  cursor : state.cursor = byteLength before
  entry : state.entry = scan {} before rest

theorem Located.wellFormed {text : Text} {state : SplitState} {before rest : Text}
    (located : Located text state before rest) : state.entry.WellFormed := by
  rw [located.entry]
  exact scan_wellFormed {} before rest wellFormed_initial

theorem located_initial (text : Text) : Located text ⟨0, {}⟩ [] text := ⟨rfl, rfl, rfl⟩

theorem SplitState.at_append (before rest : Text) :
    SplitState.at (before ++ rest) (byteLength before) =
      some ⟨byteLength before, scan {} before rest⟩ := by
  rw [SplitState.at, fenceDepthAt, fenceDepthFrom_append]
  rfl

structure Choice (adjust : Text → Nat → Nat) (providerLimit : Nat) (state : SplitState)
    (rest head tail body after : Text) : Prop where
  long : providerLimit < byteLength rest + byteLength (openFenceMarker state.entry.block)
  candidate : rest = head ++ tail
  size : byteLength head = adjust rest
    (findBoundary rest (providerLimit - byteLength (openFenceMarker state.entry.block)))
  taken : rest = body ++ after
  short : byteLength body ≤ byteLength head
  cut : CutAt adjust rest head body state.entry (scan state.entry head tail)
    (scan state.entry body after).block
  run : chooseCut adjust rest (adjust rest (findBoundary rest
      (providerLimit - byteLength (openFenceMarker state.entry.block)))) state.entry =
    some (byteLength body, closeFenceMarker (scan state.entry body after).block)

inductive Round (adjust : Text → Nat → Nat) (providerLimit : Nat) (state : SplitState)
    (rest : Text) : Chunk → Text → Text → Prop where
  | final (fits : byteLength rest + byteLength (openFenceMarker state.entry.block) ≤ providerLimit) :
      Round adjust providerLimit state rest ⟨openFenceMarker state.entry.block, rest, []⟩ rest []
  | forced (head tail : Text) (first : Char) (more : Text) (same : rest = first :: more)
      (choice : Choice adjust providerLimit state rest head tail [] rest) :
      Round adjust providerLimit state rest ⟨openFenceMarker state.entry.block, [first], []⟩
        [first] more
  | cut (head tail body after : Text) (nonempty : body ≠ [])
      (choice : Choice adjust providerLimit state rest head tail body after) :
      Round adjust providerLimit state rest
        ⟨openFenceMarker state.entry.block, body,
          closeFenceMarker (scan state.entry body after).block⟩ body after

theorem Round.body {adjust : Text → Nat → Nat} {providerLimit : Nat} {state : SplitState}
    {rest body after : Text} {chunk : Chunk}
    (round : Round adjust providerLimit state rest chunk body after) : chunk.body = body := by
  cases round <;> rfl

theorem Round.opening {adjust : Text → Nat → Nat} {providerLimit : Nat} {state : SplitState}
    {rest body after : Text} {chunk : Chunk}
    (round : Round adjust providerLimit state rest chunk body after) :
    chunk.opening = openFenceMarker state.entry.block := by
  cases round <;> rfl

inductive Rounds (adjust : Text → Nat → Nat) (text : Text) (providerLimit : Nat) :
    SplitState → Text → Text → List Chunk → Prop where
  | done (state : SplitState) (before : Text) (located : Located text state before []) :
      Rounds adjust text providerLimit state before [] []
  | final (state : SplitState) (before rest : Text) (chunk : Chunk)
      (located : Located text state before rest) (nonempty : rest ≠ [])
      (run : splitRound adjust text providerLimit state = some (chunk, none))
      (round : Round adjust providerLimit state rest chunk rest []) :
      Rounds adjust text providerLimit state before rest [chunk]
  | next (state next : SplitState) (before body after : Text) (chunk : Chunk)
      (chunks : List Chunk) (located : Located text state before (body ++ after))
      (run : splitRound adjust text providerLimit state = some (chunk, some next))
      (round : Round adjust providerLimit state (body ++ after) chunk body after)
      (nonempty : body ≠ [])
      (long : providerLimit <
        byteLength (body ++ after) + byteLength (openFenceMarker state.entry.block))
      (rounds : Rounds adjust text providerLimit next (before ++ body) after chunks) :
      Rounds adjust text providerLimit state before (body ++ after) (chunk :: chunks)

variable {adjust : Text → Nat → Nat} (adjusts : Adjusts adjust) {text : Text}
  {providerLimit : Nat} {state : SplitState} {before rest : Text}

theorem Located.next (located : Located text state before rest) (body after : Text)
    (taken : rest = body ++ after) :
    ∃ next, SplitState.at text (state.cursor + byteLength body) = some next ∧
      Located text next (before ++ body) after := by
  have whole : text = (before ++ body) ++ after := by rw [located.whole, taken, List.append_assoc]
  refine ⟨⟨byteLength (before ++ body), scan {} (before ++ body) after⟩, ?_, whole, rfl, rfl⟩
  rw [located.cursor, ← byteLength_append, whole]
  exact SplitState.at_append _ _

theorem Located.sliceFrom (located : Located text state before rest) :
    sliceFrom text state.cursor = some rest :=
  (sliceFrom_eq_some _ _ _).mpr ⟨before, located.whole, located.cursor.symm⟩

include adjusts in
theorem exists_choice (located : Located text state before rest)
    (long : providerLimit < byteLength rest + byteLength (openFenceMarker state.entry.block)) :
    ∃ head tail body after, Choice adjust providerLimit state rest head tail body after := by
  obtain ⟨bound, left, split, boundary, -, -⟩ := findBoundary_spec rest
    (providerLimit - byteLength (openFenceMarker state.entry.block))
  obtain ⟨head, tail, same, size⟩ : ∃ head tail, rest = head ++ tail ∧
      byteLength head = adjust rest (findBoundary rest
        (providerLimit - byteLength (openFenceMarker state.entry.block))) := by
    rw [boundary, split]
    rcases adjusts.moves bound left with stays | ⟨c, more, next, moved⟩
    · exact ⟨bound, left, rfl, stays.symm⟩
    · exact ⟨bound ++ [c], more, by simp [next], by rw [moved]; simp⟩
  obtain ⟨body, after, taken, run, short, cut⟩ :=
    chooseCut_spec adjusts state.entry located.wellFormed head tail
  rw [← same] at taken run cut
  exact ⟨head, tail, body, after, ⟨long, same, size, taken, short, cut, by rw [← size, run]⟩⟩

include adjusts in
theorem splitRound_spec (located : Located text state before rest) (nonempty : rest ≠ []) :
    (∃ chunk, splitRound adjust text providerLimit state = some (chunk, none) ∧
        Round adjust providerLimit state rest chunk rest []) ∨
      ∃ chunk body after next, splitRound adjust text providerLimit state = some (chunk, some next) ∧
        Round adjust providerLimit state rest chunk body after ∧ rest = body ++ after ∧ body ≠ [] ∧
        providerLimit < byteLength rest + byteLength (openFenceMarker state.entry.block) ∧
        Located text next (before ++ body) after := by
  simp only [splitRound, located.sliceFrom, Option.bind_eq_bind, Option.bind_some]
  by_cases fits : byteLength rest + byteLength (openFenceMarker state.entry.block) ≤ providerLimit
  · exact .inl ⟨_, by simp only [fits, if_true]; rfl, .final fits⟩
  · obtain ⟨head, tail, body, after, choice⟩ :=
      exists_choice adjusts located (Nat.not_le.mp fits)
    refine .inr ?_
    simp only [fits, if_false, choice.run, Option.bind_some]
    cases body with
    | nil =>
        obtain ⟨first, more, same⟩ := List.exists_cons_of_ne_nil nonempty
        have restIs : after = rest := choice.taken.symm
        obtain ⟨next, reached, there⟩ := located.next [first] more same
        refine ⟨_, [first], more, next, ?_, .forced head tail first more same (restIs ▸ choice),
          same, by simp, choice.long, there⟩
        simp only [byteLength_cons, byteLength_nil, Nat.add_zero] at reached
        simp only [byteLength_nil, if_true, same, List.head?_cons, Option.bind_some, reached]
        rfl
    | cons c more =>
        obtain ⟨next, reached, there⟩ := located.next (c :: more) after choice.taken
        refine ⟨_, c :: more, after, next, ?_, .cut head tail (c :: more) after (by simp) choice,
          choice.taken, by simp, choice.long, there⟩
        have positive := (byteLength_eq_zero (c :: more)).not.mpr (by simp)
        simp only [positive, if_false]
        rw [show Utf8.splitAt rest (byteLength (c :: more)) = some (c :: more, after) by
          rw [choice.taken, splitAt_append], reached]
        rfl

include adjusts in
theorem splitLoop_rounds (fuel : Nat) (located : Located text state before rest)
    (enough : byteLength rest < fuel) :
    ∃ chunks, splitLoop adjust text providerLimit fuel state = some chunks ∧
      Rounds adjust text providerLimit state before rest chunks := by
  induction fuel generalizing state before rest with
  | zero => omega
  | succ fuel ih =>
      have total : byteLength text = state.cursor + byteLength rest := by
        rw [located.whole, byteLength_append, located.cursor]
      unfold splitLoop
      by_cases empty : rest = []
      · subst empty
        rw [if_neg (by simp only [byteLength_nil] at total; omega)]
        exact ⟨[], rfl, .done state before located⟩
      · have positive := Nat.pos_of_ne_zero ((byteLength_eq_zero rest).not.mpr empty)
        rw [if_pos (by omega)]
        rcases splitRound_spec adjusts located empty with
          ⟨chunk, run, round⟩ | ⟨chunk, body, after, next, run, round, taken, nonempty, long, there⟩
        · exact ⟨[chunk], by rw [run]; rfl, .final state before rest chunk located empty run round⟩
        · subst taken
          have shrinks := Nat.pos_of_ne_zero ((byteLength_eq_zero body).not.mpr nonempty)
          obtain ⟨chunks, later, rounds⟩ := ih there (by
            rw [byteLength_append] at enough
            omega)
          refine ⟨chunk :: chunks, ?_, .next state next before body after chunk chunks located run
            round nonempty long rounds⟩
          simp only [run, Option.bind_eq_bind, Option.bind_some, later]
          rfl

include adjusts in
theorem splitChunks_rounds (text : Text) (providerLimit : Nat) :
    ∃ chunks, splitChunks adjust text providerLimit = some chunks ∧
      Rounds adjust text providerLimit ⟨0, {}⟩ [] text chunks :=
  splitLoop_rounds adjusts _ (located_initial text) (Nat.lt_succ_self _)

end Round

section Reached

variable (adjust : Text → Nat → Nat) (text : Text) (providerLimit : Nat)

def Step (state next : SplitState) : Prop :=
  state.cursor < byteLength text ∧
    ∃ chunk, splitRound adjust text providerLimit state = some (chunk, some next)

/-- A chunk starts at this state. -/
def Reached (state : SplitState) : Prop :=
  Relation.ReflTransGen (Step adjust text providerLimit) ⟨0, {}⟩ state ∧
    state.cursor < byteLength text

variable {adjust text providerLimit}

theorem Rounds.located {state : SplitState} {before rest : Text} {chunks : List Chunk}
    (rounds : Rounds adjust text providerLimit state before rest chunks) :
    Located text state before rest := by
  cases rounds with
  | done _ _ located => exact located
  | final _ _ _ _ located => exact located
  | next _ _ _ _ _ _ _ located => exact located

theorem Located.cursor_lt {state : SplitState} {before rest : Text}
    (located : Located text state before rest) :
    state.cursor < byteLength text ↔ rest ≠ [] := by
  have empty := byteLength_eq_zero rest
  rw [located.whole, located.cursor, byteLength_append, ne_eq, ← empty]
  omega

theorem Rounds.forall_iff {state : SplitState} {before rest : Text} {chunks : List Chunk}
    (P : Text → Chunk → List Chunk → Prop) (Q : SplitState → Prop)
    (each : ∀ reached before rest chunk body after later,
      Relation.ReflTransGen (Step adjust text providerLimit) state reached →
      Located text reached before rest → rest ≠ [] →
      Round adjust providerLimit reached rest chunk body after → rest = body ++ after →
      (later = [] ↔ after = []) → (P before chunk later ↔ Q reached))
    (rounds : Rounds adjust text providerLimit state before rest chunks) :
    (∀ front chunk later, chunks = front ++ chunk :: later →
        P (before ++ front.flatMap Chunk.body) chunk later) ↔
      ∀ reached, Relation.ReflTransGen (Step adjust text providerLimit) state reached →
        reached.cursor < byteLength text → Q reached := by
  induction rounds with
  | done state before located =>
      constructor
      · intro _ reached steps inside
        rcases steps.cases_head with rfl | ⟨next, ⟨started, -⟩, -⟩
        · exact absurd (located.cursor_lt.mp inside) (by simp)
        · exact absurd (located.cursor_lt.mp started) (by simp)
      · intro _ front chunk later same
        simp at same
  | final state before rest chunk located nonempty run round =>
      have here := each state before rest chunk rest [] [] .refl located nonempty round (by simp)
        (by simp)
      constructor
      · intro all reached steps _
        rcases steps.cases_head with rfl | ⟨next, ⟨-, other, continued⟩, -⟩
        · exact here.mp (by simpa using all [] chunk [] rfl)
        · rw [run] at continued
          simp at continued
      · intro all front other later same
        obtain ⟨rfl, rfl, rfl⟩ : front = [] ∧ other = chunk ∧ later = [] := by
          cases front <;> simp_all
        simpa using here.mpr (all state .refl (located.cursor_lt.mpr nonempty))
  | next state next before body after chunk chunks located run round nonempty long rounds ih =>
      have ended : chunks = [] ↔ after = [] := by
        cases rounds with
        | done => simp
        | final _ _ _ _ _ nonempty => simp [nonempty]
        | next _ _ _ _ _ _ _ _ _ _ nonempty => simp [nonempty]
      have here := each state before _ chunk body after chunks .refl located (by simp [nonempty])
        round rfl ended
      have inside : state.cursor < byteLength text := located.cursor_lt.mpr (by simp [nonempty])
      have step : Step adjust text providerLimit state next := ⟨inside, chunk, run⟩
      have later := ih fun reached before rest chunk body after later steps =>
        each reached before rest chunk body after later (.head step steps)
      constructor
      · intro all reached steps below
        rcases steps.cases_head with rfl | ⟨other, ⟨-, chunk', continued⟩, more⟩
        · exact here.mp (by simpa using all [] chunk chunks rfl)
        · rw [run] at continued
          obtain ⟨-, rfl⟩ : chunk = chunk' ∧ next = other := by simpa using continued
          refine later.mp (fun front c rest same => ?_) reached more below
          simpa [round.body] using all (chunk :: front) c rest (by rw [same]; rfl)
      · intro all front c rest same
        cases front with
        | nil =>
            obtain ⟨rfl, rfl⟩ : chunk = c ∧ chunks = rest := by simpa using same
            simpa using here.mpr (all state .refl inside)
        | cons head front =>
            obtain ⟨rfl, further⟩ : chunk = head ∧ chunks = front ++ c :: rest := by
              simpa using same
            have all := later.mpr (fun reached steps => all reached (.head step steps)) front c rest
              further
            simpa [round.body] using all

theorem Rounds.bodies {state : SplitState} {before rest : Text} {chunks : List Chunk}
    (rounds : Rounds adjust text providerLimit state before rest chunks) :
    chunks.flatMap Chunk.body = rest := by
  induction rounds with
  | done => rfl
  | final _ _ _ _ _ _ _ round => simpa using round.body
  | next _ _ _ _ _ _ _ _ _ round _ _ _ ih => rw [List.flatMap_cons, ih, round.body]

theorem Rounds.opening {state : SplitState} {before rest : Text} {chunks : List Chunk}
    (rounds : Rounds adjust text providerLimit state before rest chunks) (front later : List Chunk)
    (chunk : Chunk) (same : chunks = front ++ chunk :: later) :
    ∃ fence, fenceDepthAt text (byteLength (before ++ front.flatMap Chunk.body)) = some fence ∧
      chunk.opening = openFenceMarker fence.block := by
  have here (state : SplitState) (before rest : Text) (located : Located text state before rest) :
      fenceDepthAt text (byteLength before) = some state.entry := by
    rw [located.entry, located.whole]
    exact fenceDepthFrom_append before rest {}
  induction rounds generalizing front with
  | done => simp at same
  | final state before rest only located _ _ round =>
      obtain ⟨rfl, rfl⟩ : front = [] ∧ only = chunk := by cases front <;> simp_all
      exact ⟨state.entry, by simpa using here _ _ _ located, round.opening⟩
  | next state next before body after first chunks located _ round _ _ rounds ih =>
      cases front with
      | nil =>
          obtain ⟨rfl, rfl⟩ : first = chunk ∧ chunks = later := by simpa using same
          exact ⟨state.entry, by simpa using here _ _ _ located, round.opening⟩
      | cons head front =>
          simp only [List.cons_append, List.cons.injEq] at same
          obtain ⟨rfl, same⟩ := same
          obtain ⟨fence, found, opening⟩ := ih front same
          refine ⟨fence, ?_, opening⟩
          rw [List.flatMap_cons, round.body, ← List.append_assoc]
          exact found

end Reached

end Frona.Chat
