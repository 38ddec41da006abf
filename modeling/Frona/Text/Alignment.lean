import Frona.Text.NormalizedString
import Mathlib.Order.Nat

set_option autoImplicit false

namespace Frona.Text

open Utf8

structure Cell where
  char : Char
  span : Span

section Table

def chars (cells : List Cell) : Text := cells.map Cell.char

def spanTable (cells : List Cell) : List Span :=
  cells.flatMap fun cell => List.replicate cell.char.utf8Size cell.span

def NormalizedString.ofCells (original : Text) (cells : List Cell) : NormalizedString :=
  ⟨original, chars cells, spanTable cells⟩

def Builder.ofCells (cells : List Cell) : Builder := ⟨chars cells, spanTable cells⟩

@[simp] theorem chars_nil : chars [] = [] := rfl

@[simp] theorem chars_cons (cell : Cell) (rest : List Cell) :
    chars (cell :: rest) = cell.char :: chars rest := rfl

@[simp] theorem chars_append (left right : List Cell) :
    chars (left ++ right) = chars left ++ chars right := List.map_append

@[simp] theorem spanTable_nil : spanTable [] = [] := rfl

@[simp] theorem spanTable_cons (cell : Cell) (rest : List Cell) :
    spanTable (cell :: rest) = List.replicate cell.char.utf8Size cell.span ++ spanTable rest := rfl

@[simp] theorem spanTable_append (left right : List Cell) :
    spanTable (left ++ right) = spanTable left ++ spanTable right := List.flatMap_append

@[simp] theorem spanTable_length (cells : List Cell) :
    (spanTable cells).length = byteLength (chars cells) := by
  induction cells with
  | nil => rfl
  | cons cell rest ih => simp [ih]

theorem spanTable_lookup (before : List Cell) (cell : Cell) (after : List Cell) (i : Nat)
    (inside : i < cell.char.utf8Size) :
    (spanTable (before ++ cell :: after))[byteLength (chars before) + i]? = some cell.span := by
  simp [List.getElem?_append_right, List.getElem?_append_left, inside]

theorem spanTable_first (before : List Cell) (cell : Cell) (after : List Cell) :
    (spanTable (before ++ cell :: after))[byteLength (chars before)]? = some cell.span :=
  spanTable_lookup before cell after 0 cell.char.utf8Size_pos

theorem spanTable_last (before : List Cell) (cell : Cell) (after : List Cell) :
    (spanTable (before ++ cell :: after))[byteLength (chars before) + cell.char.utf8Size - 1]? =
      some cell.span := by
  have size := cell.char.utf8Size_pos
  have := spanTable_lookup before cell after (cell.char.utf8Size - 1) (by omega)
  rwa [← Nat.add_sub_assoc size] at this

theorem Builder.push_ofCells (cells : List Cell) (c : Char) (span : Span) :
    (Builder.ofCells cells).push c span = Builder.ofCells (cells ++ [⟨c, span⟩]) := by
  simp [Builder.push, Builder.ofCells]

theorem Builder.extendLast_ofCells (cells : List Cell) (cell : Cell) (stop : Nat) :
    (Builder.ofCells (cells ++ [cell])).extendLast cell.char.utf8Size stop =
      Builder.ofCells (cells ++ [⟨cell.char, (cell.span.1, max cell.span.2 stop)⟩]) := by
  have kept : (spanTable (cells ++ [cell])).length - cell.char.utf8Size =
      (spanTable cells).length := by simp
  simp only [Builder.extendLast, Builder.ofCells, kept]
  simp

end Table

section Source

def sourceCells : Nat → Text → List Cell
  | _, [] => []
  | offset, c :: rest =>
      ⟨c, (u32 offset, u32 (offset + c.utf8Size))⟩ :: sourceCells (offset + c.utf8Size) rest

@[simp] theorem chars_sourceCells (offset : Nat) (text : Text) :
    chars (sourceCells offset text) = text := by
  induction text generalizing offset with
  | nil => rfl
  | cons c rest ih => simp [sourceCells, ih]

theorem sourceCells_append (offset : Nat) (left right : Text) :
    sourceCells offset (left ++ right) =
      sourceCells offset left ++ sourceCells (offset + byteLength left) right := by
  induction left generalizing offset with
  | nil => simp [sourceCells]
  | cons c rest ih => simp [sourceCells, ih, Nat.add_assoc]

theorem fromStr_eq (text : Text) :
    NormalizedString.fromStr text = .ofCells text (sourceCells 0 text) := by
  have table (offset : Nat) : spanTable (sourceCells offset text) =
      (charIndices offset text).flatMap fun entry =>
        List.replicate entry.2.utf8Size (u32 entry.1, u32 (entry.1 + entry.2.utf8Size)) := by
    induction text generalizing offset with
    | nil => rfl
    | cons c rest ih => simp [sourceCells, charIndices, ih]
  simp [NormalizedString.fromStr, NormalizedString.ofCells, table]

end Source

section Mapping

def flatMapCells (f : Char → List Char) (cells : List Cell) : List Cell :=
  cells.flatMap fun cell => (f cell.char).map fun c => ⟨c, cell.span⟩

theorem Builder.foldl_push_ofCells (cells : List Cell) (text : Text) (span : Span) :
    text.foldl (fun out c => out.push c span) (Builder.ofCells cells) =
      Builder.ofCells (cells ++ text.map fun c => ⟨c, span⟩) := by
  induction text generalizing cells with
  | nil => simp
  | cons c rest ih => simp [Builder.push_ofCells, ih]

theorem flatMapChars_eq (f : Char → List Char) (original : Text) (cells : List Cell) :
    (NormalizedString.ofCells original cells).flatMapChars f =
      some (.ofCells original (flatMapCells f cells)) := by
  have loop (before after : List Cell) (same : cells = before ++ after) (out : List Cell) :
      (chars after).foldlM ((NormalizedString.ofCells original cells).flatMapCharsStep f)
          (byteLength (chars before), Builder.ofCells out) =
        some (byteLength (chars cells), Builder.ofCells (out ++ flatMapCells f after)) := by
    induction after generalizing before out with
    | nil => simp [same, flatMapCells]
    | cons cell rest ih =>
        have found := spanTable_first before cell rest
        rw [← same] at found
        simp only [chars_cons, List.foldlM_cons, NormalizedString.flatMapCharsStep,
          NormalizedString.ofCells, found, Option.bind_eq_bind, Option.bind_some,
          Option.pure_def, Builder.foldl_push_ofCells]
        have next := ih (before ++ [cell]) (by simp [same])
          (out ++ (f cell.char).map fun c => ⟨c, cell.span⟩)
        simpa [NormalizedString.ofCells, flatMapCells] using next
  have whole := loop [] cells rfl []
  simp only [NormalizedString.flatMapChars]
  rw [show (NormalizedString.ofCells original cells).normalized = chars cells from rfl]
  rw [show ((0, ⟨[], []⟩) : Nat × Builder) = (byteLength (chars []), Builder.ofCells []) from rfl,
    whole]
  rfl

theorem flatMapCells_singleton (f : Char → Char) (cells : List Cell) :
    flatMapCells (fun c => [f c]) cells = cells.map fun cell => ⟨f cell.char, cell.span⟩ := by
  induction cells with
  | nil => rfl
  | cons cell rest ih => simpa [flatMapCells] using ih

theorem mapChars_eq (f : Char → Char) (original : Text) (cells : List Cell) :
    (NormalizedString.ofCells original cells).mapChars f =
      some (.ofCells original (cells.map fun cell => ⟨f cell.char, cell.span⟩)) := by
  have whole := flatMapChars_eq (fun c => [f c]) original cells
  rw [flatMapCells_singleton] at whole
  exact whole

theorem retainChars_eq (predicate : Char → Bool) (original : Text) (cells : List Cell) :
    (NormalizedString.ofCells original cells).retainChars predicate =
      some (.ofCells original (flatMapCells (fun c => if predicate c then [c] else []) cells)) := by
  rw [← flatMapChars_eq]
  have step : (NormalizedString.ofCells original cells).retainCharsStep predicate =
      (NormalizedString.ofCells original cells).flatMapCharsStep
        fun c => if predicate c then [c] else [] := by
    funext state c
    by_cases kept : predicate c <;>
      simp [NormalizedString.retainCharsStep, NormalizedString.flatMapCharsStep, kept]
  simp only [NormalizedString.retainChars, NormalizedString.flatMapChars, step]

end Mapping

section Composition

def Span.join (left right : Span) : Span := (min left.1 right.1, max left.2 right.2)

@[simp] theorem Span.join_self (span : Span) : Span.join span span = span := by
  simp [Span.join]

@[simp] theorem Span.join_join_self (left right : Span) :
    Span.join (Span.join left right) right = Span.join left right := by
  simp [Span.join]

def groupHull (last : Span) : List Cell → Span
  | [] => last
  | cell :: rest => (rest.map Cell.span).foldl Span.join cell.span

def alignCells (last : Span) : List Cell → List (Char × Int) → List Cell
  | _, [] => []
  | cells, (c, diff) :: out =>
      let span := groupHull last (cells.take (consumed diff))
      ⟨c, span⟩ :: alignCells span (cells.drop (consumed diff)) out

def totalConsumed (out : List (Char × Int)) : Nat := (out.map fun (_, diff) => consumed diff).sum

@[simp] theorem totalConsumed_cons (c : Char) (diff : Int) (out : List (Char × Int)) :
    totalConsumed ((c, diff) :: out) = consumed diff + totalConsumed out := rfl

/-- The alignment accounts for every source character once, in order. -/
def InOrder (form : Text → List (Char × Int)) : Prop :=
  ∀ text, totalConsumed (form text) = text.length

def Leads (form : Text → List (Char × Int)) : Prop :=
  ∀ text, ∀ head ∈ (form text).head?, 0 < consumed head.2

theorem chars_alignCells (last : Span) (cells : List Cell) (out : List (Char × Int)) :
    chars (alignCells last cells out) = out.map Prod.fst := by
  induction out generalizing last cells with
  | nil => rfl
  | cons head out ih => simp [alignCells, ih]

theorem alignCells_append (last : Span) (left right : List Cell) (out out' : List (Char × Int))
    (consumes : totalConsumed out = left.length) :
    ∃ last', alignCells last (left ++ right) (out ++ out') =
      alignCells last left out ++ alignCells last' right out' := by
  induction out generalizing last left with
  | nil =>
      obtain rfl := List.length_eq_zero_iff.mp consumes.symm
      exact ⟨last, rfl⟩
  | cons head out ih =>
      obtain ⟨c, diff⟩ := head
      rw [totalConsumed_cons] at consumes
      obtain ⟨last', rest⟩ := ih (groupHull last (left.take (consumed diff)))
        (left.drop (consumed diff)) (by rw [List.length_drop]; omega)
      refine ⟨last', ?_⟩
      simp only [List.cons_append, alignCells]
      rw [List.take_append_of_le_length (by omega), List.drop_append_of_le_length (by omega), rest]

theorem alignCells_each (P : Span → Prop) (joins : ∀ a b, P a → P b → P (Span.join a b))
    (last : Span) (cells : List Cell) (out : List (Char × Int))
    (each : ∀ cell ∈ cells, P cell.span) (enough : totalConsumed out ≤ cells.length)
    (start : P last ∨ ∀ head ∈ out.head?, 0 < consumed head.2) :
    ∀ cell ∈ alignCells last cells out, P cell.span := by
  induction out generalizing last cells with
  | nil => simp [alignCells]
  | cons head out ih =>
      obtain ⟨c, diff⟩ := head
      rw [totalConsumed_cons] at enough
      have folded (spans : List Span) (acc : Span) (holds : P acc) (all : ∀ span ∈ spans, P span) :
          P (spans.foldl Span.join acc) := by
        induction spans generalizing acc with
        | nil => exact holds
        | cons span rest ih =>
            exact ih _ (joins _ _ holds (all span (by simp)))
              fun other member => all other (by simp [member])
      have spanned : P (groupHull last (cells.take (consumed diff))) := by
        cases group : cells.take (consumed diff) with
        | nil =>
            have none : consumed diff = 0 := by
              have := congrArg List.length group
              simp only [List.length_take, List.length_nil] at this
              omega
            exact start.resolve_right fun leads => by simpa [none] using leads (c, diff) rfl
        | cons cell rest =>
            have inside (other : Cell) (member : other ∈ cell :: rest) : P other.span :=
              each other (List.mem_of_mem_take (group ▸ member))
            refine folded _ _ (inside cell (by simp)) fun span member => ?_
            obtain ⟨other, listed, rfl⟩ := List.mem_map.mp member
            exact inside other (by simp [listed])
      intro cell member
      rcases List.mem_cons.mp member with rfl | member
      · exact spanned
      · exact ih _ _ (fun other inside => each other (List.mem_of_mem_drop inside))
          (by rw [List.length_drop]; omega) (.inl spanned) cell member

theorem takeChars_append (taken rest : Text) (bytePos : Nat) :
    takeChars taken.length (taken ++ rest) bytePos = some (rest, bytePos + byteLength taken) := by
  induction taken generalizing bytePos with
  | nil => rfl
  | cons c taken ih => simp [takeChars, ih, Nat.add_assoc]

theorem foldl_join_replicate (n : Nat) (acc span : Span) :
    (List.replicate (n + 1) span).foldl Span.join acc = Span.join acc span := by
  induction n generalizing acc with
  | zero => rfl
  | succ n ih => rw [List.replicate_succ, List.foldl_cons, ih, Span.join_join_self]

theorem foldl_join_spanTable (cells : List Cell) (acc : Span) :
    (spanTable cells).foldl Span.join acc = (cells.map Cell.span).foldl Span.join acc := by
  induction cells generalizing acc with
  | nil => rfl
  | cons cell rest ih =>
      obtain ⟨n, size⟩ : ∃ n, cell.char.utf8Size = n + 1 :=
        ⟨_, (Nat.succ_pred_eq_of_pos cell.char.utf8Size_pos).symm⟩
      rw [spanTable_cons, size, List.foldl_append, foldl_join_replicate, ih]
      rfl

theorem foldlM_lookup (before window after : List Span) (acc : Span) :
    (List.range' before.length window.length).foldlM
        (fun (minStart, maxEnd) i => do
          let span ← (before ++ (window ++ after))[i]?
          return (min minStart span.1, max maxEnd span.2)) acc =
      some (window.foldl Span.join acc) := by
  induction window generalizing before acc with
  | nil => rfl
  | cons span rest ih =>
      have found : (before ++ (span :: rest ++ after))[before.length]? = some span := by simp
      rw [List.length_cons, List.range'_succ, List.foldlM_cons]
      simp only [found, Option.bind_eq_bind, Option.bind_some, Option.pure_def]
      have next := ih (before ++ [span]) (Span.join acc span)
      simpa [Span.join] using next

theorem hull_group (before : List Cell) (cell : Cell) (rest after : List Cell) (last : Span) :
    hull (spanTable (before ++ (cell :: rest ++ after))) (byteLength (chars before))
        (byteLength (chars before) + byteLength (chars (cell :: rest))) =
      some (groupHull last (cell :: rest)) := by
  obtain ⟨n, size⟩ : ∃ n, cell.char.utf8Size = n + 1 :=
    ⟨_, (Nat.succ_pred_eq_of_pos cell.char.utf8Size_pos).symm⟩
  have found := spanTable_first before cell (rest ++ after)
  have split : spanTable (before ++ (cell :: rest ++ after)) =
      (spanTable before ++ [cell.span]) ++
        ((List.replicate n cell.span ++ spanTable rest) ++ spanTable after) := by
    simp [size, List.replicate_succ]
  have lookups := foldlM_lookup (spanTable before ++ [cell.span])
    (List.replicate n cell.span ++ spanTable rest) (spanTable after) cell.span
  rw [← split] at lookups
  have width : byteLength (chars before) + byteLength (chars (cell :: rest)) -
      (byteLength (chars before) + 1) = n + byteLength (chars rest) := by
    simp only [chars_cons, byteLength_cons, size]
    omega
  have same : (List.replicate n cell.span).foldl Span.join cell.span = cell.span := by
    cases n with
    | zero => rfl
    | succ n => rw [foldl_join_replicate, Span.join_self]
  unfold hull
  rw [List.cons_append, found, width]
  simp only [List.length_append, spanTable_length, List.length_singleton, List.length_replicate]
    at lookups
  simp only [Option.bind_eq_bind, Option.bind_some] at lookups ⊢
  rw [List.cons_append] at lookups
  rw [lookups, List.foldl_append, same, foldl_join_spanTable]
  rfl

theorem spanTable_getLast (cells : List Cell) :
    (spanTable cells).getLast? = cells.getLast?.map Cell.span := by
  rcases List.eq_nil_or_concat cells with rfl | ⟨before, cell, rfl⟩
  · rfl
  · obtain ⟨n, size⟩ : ∃ n, cell.char.utf8Size = n + 1 :=
      ⟨_, (Nat.succ_pred_eq_of_pos cell.char.utf8Size_pos).symm⟩
    simp [size, List.replicate_succ']

theorem nfkcStep_eq (original : Text) (before rest done : List Cell) (c : Char) (diff : Int)
    (enough : consumed diff ≤ rest.length) :
    let last := (done.getLast?.map Cell.span).getD (0, 0)
    let span := groupHull last (rest.take (consumed diff))
    (NormalizedString.ofCells original (before ++ rest)).nfkcStep
        ⟨chars rest, byteLength (chars before), Builder.ofCells done⟩ (c, diff) =
      some ⟨chars (rest.drop (consumed diff)),
        byteLength (chars (before ++ rest.take (consumed diff))),
        Builder.ofCells (done ++ [⟨c, span⟩])⟩ := by
  intro last span
  have taken : takeChars (consumed diff) (chars rest) (byteLength (chars before)) =
      some (chars (rest.drop (consumed diff)),
        byteLength (chars (before ++ rest.take (consumed diff)))) := by
    have := takeChars_append (chars (rest.take (consumed diff)))
      (chars (rest.drop (consumed diff))) (byteLength (chars before))
    rw [← chars_append, List.take_append_drop] at this
    rw [show (chars (rest.take (consumed diff))).length = consumed diff by
      simp [chars, enough]] at this
    rw [this, chars_append, byteLength_append]
  have spanned : (if byteLength (chars (before ++ rest.take (consumed diff))) >
        byteLength (chars before) then
      hull (NormalizedString.ofCells original (before ++ rest)).spans
        (byteLength (chars before))
        (byteLength (chars (before ++ rest.take (consumed diff))))
      else some ((Builder.ofCells done).spans.getLast?.getD (0, 0))) = some span := by
    cases group : rest.take (consumed diff) with
    | nil =>
        simp only [List.append_nil, gt_iff_lt, Nat.lt_irrefl, if_false]
        rw [show (Builder.ofCells done).spans = spanTable done from rfl, spanTable_getLast]
        simp [span, group, groupHull, last]
    | cons cell tail =>
        have grown : byteLength (chars (before ++ cell :: tail)) > byteLength (chars before) := by
          have := cell.char.utf8Size_pos
          simp only [chars_append, chars_cons, byteLength_append, byteLength_cons]
          omega
        have whole : rest = cell :: tail ++ rest.drop (consumed diff) := by
          rw [← group, List.take_append_drop]
        rw [if_pos grown, chars_append, byteLength_append]
        have := hull_group before cell tail (rest.drop (consumed diff)) last
        rw [← whole] at this
        simp only [span, group, NormalizedString.ofCells]
        exact this
  simp only [NormalizedString.nfkcStep, taken, Option.bind_eq_bind, Option.bind_some,
    Option.pure_def, Builder.push_ofCells]
  split at spanned
  · rename_i grown
    rw [if_pos grown, spanned]
    rfl
  · rename_i still
    rw [if_neg still, Option.some.inj spanned]

theorem nfkc_eq (form : Text → List (Char × Int)) (original : Text) (cells : List Cell)
    (enough : totalConsumed (form (chars cells)) ≤ cells.length) :
    (NormalizedString.ofCells original cells).nfkc form =
      some (.ofCells original (alignCells (0, 0) cells (form (chars cells)))) := by
  have loop (out : List (Char × Int)) (before rest done : List Cell)
      (same : cells = before ++ rest) (left : totalConsumed out ≤ rest.length) :
      ∃ state, out.foldlM (NormalizedString.ofCells original cells).nfkcStep
          ⟨chars rest, byteLength (chars before), Builder.ofCells done⟩ = some state ∧
        state.out = Builder.ofCells
          (done ++ alignCells ((done.getLast?.map Cell.span).getD (0, 0)) rest out) := by
    induction out generalizing before rest done with
    | nil => exact ⟨_, rfl, by simp [alignCells]⟩
    | cons head out ih =>
        obtain ⟨c, diff⟩ := head
        rw [totalConsumed_cons] at left
        have step := nfkcStep_eq original before rest done c diff (by omega)
        simp only at step
        rw [← same] at step
        obtain ⟨state, run, final⟩ := ih (before ++ rest.take (consumed diff))
          (rest.drop (consumed diff)) (done ++ [⟨c, _⟩]) (by simp [same])
          (by rw [List.length_drop]; omega)
        refine ⟨state, ?_, ?_⟩
        · rw [List.foldlM_cons, step]
          exact run
        · rw [final]
          simp [alignCells]
  obtain ⟨state, run, final⟩ := loop (form (chars cells)) [] cells [] rfl enough
  simp only [NormalizedString.nfkc]
  rw [show (NormalizedString.ofCells original cells).normalized = chars cells from rfl]
  rw [show (⟨chars cells, 0, ⟨[], []⟩⟩ : NfkcState) =
    ⟨chars cells, byteLength (chars []), Builder.ofCells []⟩ from rfl, run]
  simp [final, Builder.ofCells, NormalizedString.ofCells]

end Composition

section Collapse

def prependBlank (span : Span) : List Cell → List Cell
  | [] => [⟨' ', span⟩]
  | cell :: rest =>
      if cell.char = ' ' then ⟨' ', (span.1, max span.2 cell.span.2)⟩ :: rest
      else ⟨' ', span⟩ :: cell :: rest

def collapseCells : List Cell → List Cell
  | [] => []
  | cell :: rest =>
      if isWhitespace cell.char then prependBlank cell.span (collapseCells rest)
      else cell :: collapseCells rest

theorem prependBlank_ne_nil (span : Span) (cells : List Cell) : prependBlank span cells ≠ [] := by
  cases cells with
  | nil => simp [prependBlank]
  | cons cell rest =>
      simp only [prependBlank]
      split <;> simp

theorem prependBlank_prependBlank (first second : Span) (cells : List Cell) :
    prependBlank first (prependBlank second cells) =
      prependBlank (first.1, max first.2 second.2) cells := by
  cases cells with
  | nil => simp [prependBlank]
  | cons cell rest =>
      by_cases blank : cell.char = ' '
      · simp [prependBlank, blank, Nat.max_assoc]
      · simp [prependBlank, blank]

theorem collapseWhitespaceRuns_eq (original : Text) (cells : List Cell) :
    (NormalizedString.ofCells original cells).collapseWhitespaceRuns =
      some (.ofCells original (collapseCells cells)) := by
  have loop (after before : List Cell) (same : cells = before ++ after) :
      (∀ done last, ∃ state,
        (chars after).foldlM (NormalizedString.ofCells original cells).collapseStep
            ⟨false, byteLength (chars before), last, Builder.ofCells done⟩ = some state ∧
          state.out = Builder.ofCells (done ++ collapseCells after)) ∧
      ∀ done span, ∃ state,
        (chars after).foldlM (NormalizedString.ofCells original cells).collapseStep
            ⟨true, byteLength (chars before), 1, Builder.ofCells (done ++ [⟨' ', span⟩])⟩ =
          some state ∧
          state.out = Builder.ofCells (done ++ prependBlank span (collapseCells after)) := by
    induction after generalizing before with
    | nil =>
        exact ⟨fun done _ => ⟨_, rfl, by simp [collapseCells]⟩,
          fun done span => ⟨_, rfl, by simp [collapseCells, prependBlank]⟩⟩
    | cons cell rest ih =>
        have found := spanTable_first before cell rest
        rw [← same] at found
        have next : byteLength (chars before) + cell.char.utf8Size =
            byteLength (chars (before ++ [cell])) := by simp
        obtain ⟨outside, inside⟩ := ih (before ++ [cell]) (by simp [same])
        by_cases blank : isWhitespace cell.char
        · constructor
          · intro done last
            obtain ⟨state, run, final⟩ := inside done cell.span
            refine ⟨state, ?_, by simpa [collapseCells, blank] using final⟩
            rw [chars_cons, List.foldlM_cons]
            simp only [NormalizedString.collapseStep, NormalizedString.ofCells, found, next,
              Option.bind_eq_bind, Option.bind_some, Option.pure_def, blank, if_true,
              Bool.false_eq_true, if_false, Builder.push_ofCells]
            exact run
          · intro done span
            obtain ⟨state, run, final⟩ := inside done (span.1, max span.2 cell.span.2)
            refine ⟨state, ?_, ?_⟩
            · have extended :=
                Builder.extendLast_ofCells done ⟨' ', span⟩ cell.span.2
              rw [show (⟨' ', span⟩ : Cell).char.utf8Size = 1 from rfl] at extended
              rw [chars_cons, List.foldlM_cons]
              simp only [NormalizedString.collapseStep, NormalizedString.ofCells, found, next,
                Option.bind_eq_bind, Option.bind_some, Option.pure_def, blank, if_true,
                gt_iff_lt, Nat.lt_add_one, extended]
              exact run
            · rw [final]
              simp [collapseCells, blank, prependBlank_prependBlank]
        · have visible : cell.char ≠ ' ' := by
            intro same
            rw [same] at blank
            exact blank (by decide)
          have step (prev : Bool) (last : Nat) (done : List Cell) :
              (NormalizedString.ofCells original cells).collapseStep
                ⟨prev, byteLength (chars before), last, Builder.ofCells done⟩ cell.char =
              some ⟨false, byteLength (chars (before ++ [cell])), cell.char.utf8Size,
                Builder.ofCells (done ++ [cell])⟩ := by
            simp [NormalizedString.collapseStep, NormalizedString.ofCells, found, blank,
              Builder.push_ofCells]
          constructor
          · intro done last
            obtain ⟨state, run, final⟩ := outside (done ++ [cell]) cell.char.utf8Size
            refine ⟨state, ?_, by simpa [collapseCells, blank] using final⟩
            rw [chars_cons, List.foldlM_cons, step]
            exact run
          · intro done span
            obtain ⟨state, run, final⟩ :=
              outside (done ++ [⟨' ', span⟩] ++ [cell]) cell.char.utf8Size
            refine ⟨state, ?_, ?_⟩
            · rw [chars_cons, List.foldlM_cons, step]
              exact run
            · rw [final]
              simp [collapseCells, blank, prependBlank, visible]
  obtain ⟨state, run, final⟩ := (loop cells [] rfl).1 [] 0
  simp only [NormalizedString.collapseWhitespaceRuns]
  rw [show (NormalizedString.ofCells original cells).normalized = chars cells from rfl]
  rw [show (⟨false, 0, 0, ⟨[], []⟩⟩ : CollapseState) =
    ⟨false, byteLength (chars []), 0, Builder.ofCells []⟩ from rfl, run]
  simp [final, Builder.ofCells, NormalizedString.ofCells]

end Collapse

section Order

structure Aligned (P : Span → Prop) (cells : List Cell) : Prop where
  each : ∀ cell ∈ cells, P cell.span
  ordered : cells.Pairwise fun c d => c.span ≤ d.span

theorem aligned_nil (P : Span → Prop) : Aligned P [] := ⟨by simp, .nil⟩

theorem aligned_cons {P : Span → Prop} {cell : Cell} {rest : List Cell} :
    Aligned P (cell :: rest) ↔
      P cell.span ∧ (∀ next ∈ rest, cell.span ≤ next.span) ∧ Aligned P rest := by
  constructor
  · intro ⟨each, ordered⟩
    rw [List.pairwise_cons] at ordered
    exact ⟨each cell (by simp), ordered.1, fun next member => each next (by simp [member]),
      ordered.2⟩
  · intro ⟨head, bound, each, ordered⟩
    refine ⟨?_, List.pairwise_cons.mpr ⟨bound, ordered⟩⟩
    intro next member
    rcases List.mem_cons.mp member with rfl | member
    · exact head
    · exact each next member

theorem Aligned.mapChars {P : Span → Prop} {cells : List Cell} (aligned : Aligned P cells)
    (f : Char → Char) : Aligned P (cells.map fun cell => ⟨f cell.char, cell.span⟩) := by
  induction cells with
  | nil => exact aligned_nil P
  | cons cell rest ih =>
      obtain ⟨head, bound, tail⟩ := aligned_cons.mp aligned
      rw [List.map_cons, aligned_cons]
      refine ⟨head, ?_, ih tail⟩
      intro next member
      obtain ⟨other, inside, rfl⟩ := List.mem_map.mp member
      exact bound other inside

theorem Aligned.imp {P Q : Span → Prop} {cells : List Cell} (aligned : Aligned P cells)
    (weaker : ∀ span, P span → Q span) : Aligned Q cells :=
  ⟨fun cell member => weaker _ (aligned.each cell member), aligned.ordered⟩

theorem sourceCells_aligned (offset : Nat) (text : Text)
    (small : offset + byteLength text < 2 ^ 32) :
    Aligned (fun span => ∃ before c after, text = before ++ c :: after ∧
        span = (offset + byteLength before, offset + byteLength before + c.utf8Size))
      (sourceCells offset text) := by
  induction text generalizing offset with
  | nil => exact aligned_nil _
  | cons c rest ih =>
      simp only [byteLength_cons] at small
      have tail := ih (offset + c.utf8Size) (by omega)
      have start : u32 offset = offset := Nat.mod_eq_of_lt (by omega)
      have stop : u32 (offset + c.utf8Size) = offset + c.utf8Size := Nat.mod_eq_of_lt (by omega)
      rw [sourceCells, start, stop, aligned_cons]
      refine ⟨⟨[], c, rest, rfl, by simp⟩, ?_, tail.imp ?_⟩
      · intro next member
        obtain ⟨before, d, after, _, same⟩ := tail.each next member
        rw [same]
        exact ⟨by simp only; omega, by simp only; omega⟩
      · rintro span ⟨before, d, after, rfl, rfl⟩
        exact ⟨c :: before, d, after, rfl, by simp only [byteLength_cons, Nat.add_assoc]⟩

theorem sourceCells_valid (text : Text) (small : byteLength text < 2 ^ 32) :
    Aligned (fun span => Range.Valid text ⟨span.1, span.2⟩) (sourceCells 0 text) := by
  apply (sourceCells_aligned 0 text (by simpa using small)).imp
  rintro span ⟨before, c, after, rfl, rfl⟩
  exact ⟨Nat.le_add_right _ _, ⟨before, c :: after, rfl, by simp⟩,
    ⟨before ++ [c], after, by simp, by simp⟩⟩

theorem valid_merge (text : Text) (a b : Span) (first : Range.Valid text ⟨a.1, a.2⟩)
    (last : Range.Valid text ⟨b.1, b.2⟩) (below : a ≤ b) : Range.Valid text ⟨a.1, b.2⟩ :=
  ⟨Nat.le_trans below.1 last.ordered, first.start, last.stop⟩

-- The property has to survive merging neighbouring spans.
variable {P : Span → Prop} (closed : ∀ a b, P a → P b → a ≤ b → P (a.1, b.2))

theorem foldl_join_bounds (spans : List Span) (acc : Span) :
    (∃ a ∈ acc :: spans, ∃ b ∈ acc :: spans, spans.foldl Span.join acc = (a.1, b.2)) ∧
      ∀ span ∈ acc :: spans, (spans.foldl Span.join acc).1 ≤ span.1 ∧
        span.2 ≤ (spans.foldl Span.join acc).2 := by
  induction spans generalizing acc with
  | nil => simp
  | cons span rest ih =>
      obtain ⟨⟨a, inA, b, inB, same⟩, bound⟩ := ih (Span.join acc span)
      have least := bound (Span.join acc span) (by simp)
      refine ⟨?_, ?_⟩
      · have starts : ∃ a' ∈ acc :: span :: rest, a'.1 = a.1 := by
          rcases List.mem_cons.mp inA with rfl | inA
          · rcases Nat.le_total acc.1 span.1 with less | less
            · exact ⟨acc, by simp, by simp [Span.join, less]⟩
            · exact ⟨span, by simp, by simp [Span.join, less]⟩
          · exact ⟨a, by simp [inA], rfl⟩
        have stops : ∃ b' ∈ acc :: span :: rest, b'.2 = b.2 := by
          rcases List.mem_cons.mp inB with rfl | inB
          · rcases Nat.le_total acc.2 span.2 with less | less
            · exact ⟨span, by simp, by simp [Span.join, less]⟩
            · exact ⟨acc, by simp, by simp [Span.join, less]⟩
          · exact ⟨b, by simp [inB], rfl⟩
        obtain ⟨a', inA', sameA⟩ := starts
        obtain ⟨b', inB', sameB⟩ := stops
        exact ⟨a', inA', b', inB', by rw [List.foldl_cons, same, sameA, sameB]⟩
      · have left : (Span.join acc span).1 ≤ acc.1 ∧ acc.2 ≤ (Span.join acc span).2 :=
          ⟨Nat.min_le_left _ _, Nat.le_max_left _ _⟩
        have right : (Span.join acc span).1 ≤ span.1 ∧ span.2 ≤ (Span.join acc span).2 :=
          ⟨Nat.min_le_right _ _, Nat.le_max_right _ _⟩
        intro other member
        rw [List.foldl_cons]
        rcases List.mem_cons.mp member with rfl | member
        · exact ⟨by omega, by omega⟩
        · rcases List.mem_cons.mp member with rfl | member
          · exact ⟨by omega, by omega⟩
          · exact bound other (by simp [member])

include closed in
theorem groupHull_bounds (last : Span) (group : List Cell) (nonempty : group ≠ [])
    (aligned : Aligned P group) :
    P (groupHull last group) ∧
      (∃ first ∈ group, (groupHull last group).1 = first.span.1) ∧
      (∃ final ∈ group, (groupHull last group).2 = final.span.2) := by
  cases group with
  | nil => exact absurd rfl nonempty
  | cons cell rest =>
      obtain ⟨⟨a, inA, b, inB, same⟩, bound⟩ :=
        foldl_join_bounds (rest.map Cell.span) cell.span
      rw [← List.map_cons, List.mem_map] at inA inB
      obtain ⟨first, inA, rfl⟩ := inA
      obtain ⟨final, inB, rfl⟩ := inB
      have hullIs : groupHull last (cell :: rest) = (first.span.1, final.span.2) := same
      rw [same, ← List.map_cons] at bound
      have below : first.span ≤ final.span :=
        ⟨(bound final.span (List.mem_map_of_mem inB)).1,
          (bound first.span (List.mem_map_of_mem inA)).2⟩
      rw [hullIs]
      exact ⟨closed _ _ (aligned.each first inA) (aligned.each final inB) below,
        ⟨first, inA, rfl⟩, ⟨final, inB, rfl⟩⟩

include closed in
theorem Aligned.alignCells (out : List (Char × Int)) {cells : List Cell}
    (aligned : Aligned P cells) (last : Span) (above : ∀ cell ∈ cells, last ≤ cell.span)
    (enough : totalConsumed out ≤ cells.length)
    (start : P last ∨ ∀ head ∈ out.head?, 0 < consumed head.2) :
    Aligned P (alignCells last cells out) ∧
      ∀ cell ∈ Text.alignCells last cells out, last ≤ cell.span := by
  induction out generalizing cells last with
  | nil => exact ⟨aligned_nil P, by simp [Text.alignCells]⟩
  | cons head out ih =>
      obtain ⟨c, diff⟩ := head
      rw [totalConsumed_cons] at enough
      let group := cells.take (consumed diff)
      let rest := cells.drop (consumed diff)
      have whole : cells = group ++ rest := (List.take_append_drop _ _).symm
      have groupAligned : Aligned P group :=
        ⟨fun cell member => aligned.each cell (List.mem_of_mem_take member),
          aligned.ordered.sublist (List.take_sublist _ _)⟩
      have restAligned : Aligned P rest :=
        ⟨fun cell member => aligned.each cell (List.mem_of_mem_drop member),
          aligned.ordered.sublist (List.drop_sublist _ _)⟩
      -- The new span lies between the previous one and every span that is still to come.
      have spanned : P (groupHull last group) ∧ last ≤ groupHull last group ∧
          ∀ cell ∈ rest, groupHull last group ≤ cell.span := by
        by_cases empty : group = []
        · have none : consumed diff = 0 := by
            have := congrArg List.length empty
            simp only [group, List.length_take, List.length_nil] at this
            omega
          have := start.resolve_right fun leads => by simpa [none] using leads (c, diff) rfl
          rw [empty]
          exact ⟨this, le_refl _, fun cell member => above cell (List.mem_of_mem_drop member)⟩
        · obtain ⟨holds, ⟨first, inFirst, starts⟩, ⟨final, inFinal, stops⟩⟩ :=
            groupHull_bounds closed last group empty groupAligned
          have crossing := List.pairwise_append.mp (whole ▸ aligned.ordered)
          refine ⟨holds, ⟨?_, ?_⟩, fun cell member => ⟨?_, ?_⟩⟩
          · rw [starts]; exact (above first (List.mem_of_mem_take inFirst)).1
          · rw [stops]; exact (above final (List.mem_of_mem_take inFinal)).2
          · rw [starts]; exact (crossing.2.2 first inFirst cell member).1
          · rw [stops]; exact (crossing.2.2 final inFinal cell member).2
      obtain ⟨tail, bound⟩ := ih restAligned (groupHull last group) spanned.2.2
        (by simp only [rest, List.length_drop]; omega) (.inl spanned.1)
      refine ⟨aligned_cons.mpr ⟨spanned.1, bound, tail⟩, ?_⟩
      intro cell member
      rcases List.mem_cons.mp member with rfl | member
      · exact spanned.2.1
      · exact le_trans spanned.2.1 (bound cell member)

include closed in
theorem Aligned.prependBlank {span : Span} {cells : List Cell} (holds : P span)
    (above : ∀ cell ∈ cells, span ≤ cell.span) (aligned : Aligned P cells) :
    Aligned P (prependBlank span cells) ∧
      ∀ bound : Span, bound ≤ span → ∀ cell ∈ Text.prependBlank span cells, bound ≤ cell.span := by
  cases cells with
  | nil =>
      exact ⟨aligned_cons.mpr ⟨holds, by simp, aligned_nil P⟩,
        fun bound below cell member => by simp_all [Text.prependBlank]⟩
  | cons cell rest =>
      obtain ⟨head, bound, tail⟩ := aligned_cons.mp aligned
      have below := above cell (by simp)
      simp only [Text.prependBlank]
      split
      · have merged : max span.2 cell.span.2 = cell.span.2 := Nat.max_eq_right below.2
        rw [merged]
        refine ⟨aligned_cons.mpr ⟨closed _ _ holds head below, ?_, tail⟩, ?_⟩
        · intro next member
          exact ⟨(above next (by simp [member])).1, (bound next member).2⟩
        · intro lower le next member
          rcases List.mem_cons.mp member with rfl | member
          · exact ⟨le.1, le_trans le.2 below.2⟩
          · exact le_trans le (above next (by simp [member]))
      · refine ⟨aligned_cons.mpr ⟨holds, above, aligned⟩, ?_⟩
        intro lower le next member
        rcases List.mem_cons.mp member with rfl | member
        · exact le
        · exact le_trans le (above next member)

include closed in
theorem Aligned.collapseCells {cells : List Cell} (aligned : Aligned P cells) :
    Aligned P (collapseCells cells) ∧ ∀ bound : Span, (∀ cell ∈ cells, bound ≤ cell.span) →
      ∀ cell ∈ Text.collapseCells cells, bound ≤ cell.span := by
  induction cells with
  | nil => exact ⟨aligned_nil P, by simp [Text.collapseCells]⟩
  | cons cell rest ih =>
      obtain ⟨head, bound, tail⟩ := aligned_cons.mp aligned
      obtain ⟨collapsed, lower⟩ := ih tail
      unfold Text.collapseCells
      split
      · obtain ⟨merged, starts⟩ := Aligned.prependBlank closed head (lower _ bound) collapsed
        exact ⟨merged, fun low below => starts low (below cell (by simp))⟩
      · refine ⟨aligned_cons.mpr ⟨head, lower _ bound, collapsed⟩, ?_⟩
        intro low below next member
        rcases List.mem_cons.mp member with rfl | member
        · exact below next (by simp)
        · exact lower low (fun other inside => below other (by simp [inside])) next member

end Order

section Plain

-- The compatibility form of a text without composed characters.
def plainForm (text : Text) : List (Char × Int) := text.map fun c => (c, 0)

theorem plainForm_inOrder : InOrder plainForm := by
  intro text
  induction text with
  | nil => rfl
  | cons c rest ih =>
      have split : totalConsumed (plainForm (c :: rest)) = 1 + totalConsumed (plainForm rest) := rfl
      rw [split, ih, List.length_cons, Nat.add_comm]

end Plain

end Frona.Text
