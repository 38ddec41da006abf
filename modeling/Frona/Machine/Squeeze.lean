import Mathlib.Data.List.Induction
import Mathlib.Data.List.Infix

set_option autoImplicit false

namespace Squeeze

variable {α : Type} [DecidableEq α] (x : α)

/-- No run reaches the limit, when the list comes after `n` of them. -/
def RunsBelow (limit : Nat) : Nat → List α → Prop
  | _, [] => True
  | n, a :: rest =>
      if a = x then n + 1 < limit ∧ RunsBelow limit (n + 1) rest else RunsBelow limit 0 rest

/-- The list with no more than the first of each run, up to `keep` of them. -/
def squeeze (keep : Nat) : Nat → List α → List α
  | _, [] => []
  | n, a :: rest =>
      if a = x then
        if n < keep then a :: squeeze keep (n + 1) rest else squeeze keep (n + 1) rest
      else a :: squeeze keep 0 rest

def surplus (keep : Nat) : Nat → List α → Nat
  | _, [] => 0
  | n, a :: rest =>
      if a = x then (if n < keep then 0 else 1) + surplus keep (n + 1) rest
      else surplus keep 0 rest

def trailing : Nat → List α → Nat
  | n, [] => n
  | n, a :: rest => if a = x then trailing (n + 1) rest else trailing 0 rest

variable {x} {limit n keep : Nat}

-- A run cannot go on past another element.
omit [DecidableEq α] in
theorem replicate_infix_skip {a : α} (other : a ≠ x) (below : n < limit) (rest : List α) :
    List.replicate limit x <:+: List.replicate n x ++ a :: rest ↔
      List.replicate limit x <:+: rest := by
  have stops : ∀ m < limit, ¬ List.replicate limit x <+: List.replicate m x ++ a :: rest := by
    intro m under starts
    have here := starts.getElem (i := m) (by simpa using under)
    simp [Ne.symm other] at here
  induction n with
  | zero =>
      rw [List.replicate_zero, List.nil_append, List.infix_cons_iff]
      exact or_iff_right (stops 0 below)
  | succ n ih =>
      have first : ¬ List.replicate limit x <+: x :: (List.replicate n x ++ a :: rest) :=
        stops (n + 1) below
      rw [List.replicate_succ, List.cons_append, List.infix_cons_iff, or_iff_right first]
      exact ih (by omega)

theorem runsBelow_iff (below : n < limit) (l : List α) :
    RunsBelow x limit n l ↔ ¬ List.replicate limit x <:+: List.replicate n x ++ l := by
  induction l generalizing n with
  | nil =>
      have short : ¬ List.replicate limit x <:+: List.replicate n x := by
        intro inside
        have := inside.length_le
        simp at this
        omega
      simpa [RunsBelow] using short
  | cons a rest ih =>
      rw [RunsBelow]
      by_cases same : a = x
      · rw [if_pos same, same]
        have shift : List.replicate n x ++ x :: rest = List.replicate (n + 1) x ++ rest := by
          rw [List.replicate_succ', List.append_assoc, List.singleton_append]
        rw [shift]
        by_cases fits : n + 1 < limit
        · rw [ih fits]
          simp [fits]
        · have full : limit = n + 1 := by omega
          simp [full, List.prefix_append _ _ |>.isInfix]
      · rw [if_neg same, replicate_infix_skip same below, ih (by omega)]
        simp

theorem squeeze_runsBelow (keep n : Nat) (l : List α) :
    RunsBelow x (keep + 1) (min n keep) (squeeze x keep n l) := by
  induction l generalizing n with
  | nil => trivial
  | cons a rest ih =>
      rw [squeeze]
      split
      next same =>
        split
        next fits =>
          rw [RunsBelow, if_pos same, Nat.min_eq_left (by omega)]
          exact ⟨by omega, by simpa [Nat.min_eq_left fits] using ih (n + 1)⟩
        next full =>
          have := ih (n + 1)
          rwa [Nat.min_eq_right (by omega)] at this ⊢
      next other =>
        rw [RunsBelow, if_neg other]
        simpa using ih 0

theorem filter_squeeze (n : Nat) (l : List α) :
    (squeeze x keep n l).filter (· ≠ x) = l.filter (· ≠ x) := by
  induction l generalizing n with
  | nil => rfl
  | cons a rest ih =>
      rw [squeeze]
      split
      next same =>
        split
        next => rw [List.filter_cons_of_neg (by simp [same]),
          List.filter_cons_of_neg (by simp [same]), ih]
        next => rw [List.filter_cons_of_neg (by simp [same]), ih]
      next other => rw [List.filter_cons_of_pos (by simp [other]),
        List.filter_cons_of_pos (by simp [other]), ih]

theorem squeeze_append (n : Nat) (l m : List α) :
    squeeze x keep n (l ++ m) = squeeze x keep n l ++ squeeze x keep (trailing x n l) m := by
  induction l generalizing n with
  | nil => rfl
  | cons a rest ih =>
      simp only [List.cons_append, squeeze, trailing, ih]
      split
      · split <;> rfl
      · rfl

theorem trailing_append (n : Nat) (l m : List α) :
    trailing x n (l ++ m) = trailing x (trailing x n l) m := by
  induction l generalizing n with
  | nil => rfl
  | cons a rest ih =>
      simp only [List.cons_append, trailing, ih]
      split <;> rfl

theorem surplus_append (keep n : Nat) (l m : List α) :
    surplus x keep n (l ++ m) = surplus x keep n l + surplus x keep (trailing x n l) m := by
  induction l generalizing n with
  | nil => simp [surplus, trailing]
  | cons a rest ih =>
      simp only [List.cons_append, surplus, trailing, ih]
      split
      · omega
      · rfl

theorem squeeze_ne_nil {l : List α} (some_ : l ≠ []) (first : 0 < keep) :
    squeeze x keep 0 l ≠ [] := by
  cases l with
  | nil => exact absurd rfl some_
  | cons a rest =>
      rw [squeeze, if_pos first]
      split <;> exact List.cons_ne_nil _ _

theorem le_trailing_iff (k : Nat) (l : List α) :
    k ≤ trailing x 0 l ↔ List.replicate k x <:+ l := by
  induction l using List.reverseRecOn generalizing k with
  | nil => simp [trailing]
  | append_singleton l a ih =>
      cases k with
      | zero => simp
      | succ k =>
          rw [List.replicate_succ', List.suffix_concat_iff, trailing_append, trailing]
          by_cases same : a = x
          · simp [same, trailing, ih]
          · simp [same, trailing, Ne.symm same]

end Squeeze
