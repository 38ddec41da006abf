import Frona.Channel.SignalRanges

set_option autoImplicit false

namespace Frona.Channel

open Utf8 (Text)
open Squeeze (squeeze surplus trailing RunsBelow)

section Units

theorem lenUtf16_pos (c : Char) : 0 < lenUtf16 c := by
  unfold lenUtf16
  split <;> omega

@[simp] theorem lenUtf16_newline : lenUtf16 '\n' = 1 := rfl

@[simp] theorem units_nil : units [] = 0 := rfl

@[simp] theorem units_cons (c : Char) (rest : Text) : units (c :: rest) = lenUtf16 c + units rest := by
  simp [units]

@[simp] theorem units_append (a b : Text) : units (a ++ b) = units a + units b := by
  simp [units]

theorem units_pos {text : Text} (some_ : text ≠ []) : 0 < units text := by
  cases text with
  | nil => exact absurd rfl some_
  | cons c rest =>
      rw [units_cons]
      have := lenUtf16_pos c
      omega

theorem units_le {a b : Text} (start : a <+: b) : units a ≤ units b := by
  obtain ⟨rest, rfl⟩ := start
  simp

theorem units_squeeze (n : Nat) (text : Text) :
    units (squeeze '\n' 2 n text) + surplus '\n' 2 n text = units text := by
  induction text generalizing n with
  | nil => rfl
  | cons c rest ih =>
      rw [squeeze, surplus, units_cons]
      by_cases same : c = '\n'
      · have := ih (n + 1)
        by_cases kept : n < 2
        · simp only [same, kept, if_true, units_cons]
          omega
        · simp only [same, kept, if_true, if_false, lenUtf16_newline]
          omega
      · have := ih 0
        simp only [same, if_false, units_cons]
        omega

end Units

section Deltas

theorem deltasOf_cons (n : Nat) (delta : Int) (c : Char) (rest : Text) :
    deltasOf n delta (c :: rest) =
      List.replicate (lenUtf16 c) (delta - surplus '\n' 2 n [c]) ++
        deltasOf (trailing '\n' n [c]) (delta - surplus '\n' 2 n [c]) rest := by
  rw [deltasOf]
  by_cases same : c = '\n'
  · by_cases kept : n < 2
    · simp [same, kept, surplus, trailing]
    · simp [same, kept, surplus, trailing]
  · simp [same, surplus, trailing]

theorem deltasOf_append (n : Nat) (delta : Int) (a b : Text) :
    deltasOf n delta (a ++ b) = deltasOf n delta a ++
      deltasOf (trailing '\n' n a) (delta - surplus '\n' 2 n a) b := by
  induction a generalizing n delta with
  | nil => simp [deltasOf, trailing, surplus]
  | cons c rest ih =>
      have turn := Squeeze.trailing_append (x := '\n') n [c] rest
      have cut := Squeeze.surplus_append (x := '\n') 2 n [c] rest
      rw [List.singleton_append] at turn cut
      rw [List.cons_append, deltasOf_cons, ih, deltasOf_cons, turn, cut, List.append_assoc,
        Int.natCast_add, Int.sub_sub]

theorem length_deltasOf (n : Nat) (delta : Int) (text : Text) :
    (deltasOf n delta text).length = units text := by
  induction text generalizing n delta with
  | nil => rfl
  | cons c rest ih => rw [deltasOf_cons, List.length_append, List.length_replicate, ih, units_cons]

theorem deltasOf_at (before after : Text) (c : Char) (j : Nat) (inside : j < lenUtf16 c) :
    (deltasOf 0 0 (before ++ c :: after))[units before + j]? =
      some (-(surplus '\n' 2 0 (before ++ [c]) : Int)) := by
  rw [deltasOf_append, List.getElem?_append_right (by rw [length_deltasOf]; omega), length_deltasOf,
    deltasOf_cons, List.getElem?_append_left (by simpa using inside), Squeeze.surplus_append]
  simp [inside]
  omega

theorem deltasOf_beyond (text : Text) (n : Nat) (beyond : units text ≤ n) :
    (deltasOf 0 0 text)[n]? = none :=
  List.getElem?_eq_none (by rwa [length_deltasOf])

end Deltas

section Shifts

variable {text : Text} {c : SignalCollapsed}

theorem collapseSignal_eq (run : collapseSignal text = some c) :
    c.body = collapsed text ∧ c.deltas = deltasOf 0 0 text ∧
      c.runningDelta = -(surplus '\n' 2 0 text : Int) := by
  obtain ⟨fits, small⟩ := foldlM_collapseSignalChar_some (c := {}) (by decide) run
  rw [collapseSignal, foldlM_collapseSignalChar {} fits small] at run
  obtain rfl := Option.some.inj run
  simp [collapsed]

theorem deltasOf_between {n : Nat} {delta d : Int} (member : d ∈ deltasOf n delta text) :
    delta - surplus '\n' 2 n text ≤ d ∧ d ≤ delta := by
  induction text generalizing n delta with
  | nil => simp [deltasOf] at member
  | cons first rest ih =>
      have cut := Squeeze.surplus_append (x := '\n') 2 n [first] rest
      rw [List.singleton_append] at cut
      rw [deltasOf_cons, List.mem_append] at member
      rw [cut]
      cases member with
      | inl here =>
          have := List.eq_of_mem_replicate here
          omega
      | inr later =>
          have := ih later
          omega

theorem asI32_of_small {n : Int} (low : -2 ^ 31 ≤ n) (high : n < 2 ^ 31) : asI32 n = n :=
  Int.bmod_eq_of_le (by omega) (by omega)

theorem shift_eq (run : collapseSignal text = some c) (short : units text < 2 ^ 31)
    {r : SignalBodyRange} (fits : r.start + r.length < 2 ^ 31) :
    c.shift r =
      let newStart := (r.start + (c.deltas[r.start]?).getD 0 : Int).toNat
      let newEnd := min (↑(r.start + r.length) +
        (c.deltas[r.start + r.length - 1]?).getD c.runningDelta : Int).toNat (units c.body)
      if newStart < newEnd then some ⟨newStart, newEnd - newStart, r.style⟩ else none := by
  obtain ⟨body, deltas, running⟩ := collapseSignal_eq run
  have length := units_squeeze 0 text
  have least (i : Nat) (other : Int) (low : -2 ^ 31 ≤ other) (high : other ≤ 0) :
      -2 ^ 31 ≤ (c.deltas[i]?).getD other ∧ (c.deltas[i]?).getD other ≤ 0 := by
    cases there : c.deltas[i]? with
    | none => exact ⟨low, high⟩
    | some d =>
        rw [deltas] at there
        have := deltasOf_between (List.mem_of_getElem? there)
        simp only [Option.getD_some]
        omega
  have start := least r.start 0 (by omega) (by omega)
  have stop := least (r.start + r.length - 1) c.runningDelta (by omega) (by omega)
  have inBody : units c.body < 2 ^ 32 := by
    rw [body, collapsed]
    omega
  have endOld : min (r.start + r.length) (2 ^ 32 - 1) = r.start + r.length := by omega
  simp only [SignalCollapsed.shift, endOld, Nat.mod_eq_of_lt inBody]
  rw [asI32_of_small (n := r.start) (by omega) (by omega),
    asI32_of_small (n := ↑(r.start + r.length)) (by omega) (by omega),
    asI32_of_small (by omega) (by omega), asI32_of_small (by omega) (by omega)]

theorem units_collapsed (text : Text) :
    (units text : Int) - surplus '\n' 2 0 text = units (collapsed text) := by
  have := units_squeeze 0 text
  unfold collapsed
  omega

theorem collapsed_append (a b : Text) :
    collapsed (a ++ b) = collapsed a ++ squeeze '\n' 2 (trailing '\n' 0 a) b :=
  Squeeze.squeeze_append 0 a b

theorem collapsed_take (text : Text) (n : Nat) : collapsed (text.take n) <+: collapsed text := by
  conv_rhs => rw [← List.take_append_drop n text, collapsed_append]
  exact List.prefix_append _ _

theorem shift_end_inside (before after : Text) (last : Char)
    (run : collapseSignal (before ++ last :: after) = some c) :
    min (units (before ++ [last]) +
        (c.deltas[units (before ++ [last]) - 1]?).getD c.runningDelta : Int).toNat (units c.body) =
      units (collapsed (before ++ [last])) := by
  obtain ⟨body, deltas, -⟩ := collapseSignal_eq run
  have wide := lenUtf16_pos last
  have position : units (before ++ [last]) - 1 = units before + (lenUtf16 last - 1) := by
    simp only [units_append, units_cons, units_nil]
    omega
  have delta := deltasOf_at before after last (lenUtf16 last - 1) (by omega)
  have shifted := units_collapsed (before ++ [last])
  have least : units (collapsed (before ++ [last])) ≤ units (collapsed (before ++ last :: after)) := by
    rw [show before ++ last :: after = (before ++ [last]) ++ after by simp, collapsed_append (before ++ [last])]
    exact units_le (List.prefix_append _ _)
  rw [body, deltas, position, delta, Option.getD_some]
  omega

theorem shift_end_beyond (run : collapseSignal text = some c) {n : Nat} (beyond : units text < n) :
    min (n + (c.deltas[n - 1]?).getD c.runningDelta : Int).toNat (units c.body) =
      units (collapsed text) := by
  obtain ⟨body, deltas, running⟩ := collapseSignal_eq run
  have shifted := units_collapsed text
  rw [body, deltas, running, deltasOf_beyond text _ (by omega), Option.getD_none]
  omega

theorem shift_end (run : collapseSignal text = some c) {upTo blanks : Text} (some_ : upTo ≠ [])
    (within : upTo <+: text ++ blanks) :
    min (units upTo + (c.deltas[units upTo - 1]?).getD c.runningDelta : Int).toNat (units c.body) =
      units (collapsed (text.take upTo.length)) := by
  by_cases fits : upTo.length ≤ text.length
  · obtain ⟨after, rfl⟩ :=
      List.prefix_of_prefix_length_le within (List.prefix_append text blanks) fits
    obtain ⟨before, last, rfl⟩ := (List.eq_nil_or_concat upTo).resolve_left some_
    rw [List.concat_eq_append] at run ⊢
    rw [List.take_left]
    exact shift_end_inside before after last (by simpa using run)
  · rw [List.take_of_length_le (by omega)]
    apply shift_end_beyond run
    obtain ⟨more, rfl⟩ :=
      List.prefix_of_prefix_length_le (List.prefix_append text blanks) within (by omega)
    have longer : more ≠ [] := by
      rintro rfl
      simp at fits
    have := units_pos longer
    rw [units_append]
    omega

theorem shift_start (before after : Text) (first : Char)
    (run : collapseSignal (before ++ first :: after) = some c) :
    (units before + (c.deltas[units before]?).getD 0 : Int).toNat =
      units (collapsed before) - surplus '\n' 2 (trailing '\n' 0 before) [first] := by
  obtain ⟨-, deltas, -⟩ := collapseSignal_eq run
  have delta := deltasOf_at before after first 0 (lenUtf16_pos first)
  rw [Nat.add_zero] at delta
  have cut := Squeeze.surplus_append (x := '\n') 2 0 before [first]
  have shifted := units_collapsed before
  rw [deltas, delta, Option.getD_some, cut]
  omega

theorem shift_start_beyond (run : collapseSignal text = some c) {n : Nat} (beyond : units text ≤ n) :
    units c.body ≤ (n + (c.deltas[n]?).getD 0 : Int).toNat := by
  obtain ⟨body, deltas, -⟩ := collapseSignal_eq run
  have shifted := units_collapsed text
  rw [body, deltas, deltasOf_beyond text n beyond, Option.getD_none]
  omega

end Shifts

section Dropped

variable (before : Text) (first : Char)

def IsDropped : Prop := first = '\n' ∧ ['\n', '\n'] <:+ before

instance : Decidable (IsDropped before first) :=
  inferInstanceAs (Decidable (first = '\n' ∧ ['\n', '\n'] <:+ before))

theorem surplus_first :
    surplus '\n' 2 (trailing '\n' 0 before) [first] = if IsDropped before first then 1 else 0 := by
  have ends := Squeeze.le_trailing_iff (x := '\n') 2 before
  have two : List.replicate 2 '\n' = ['\n', '\n'] := rfl
  rw [two] at ends
  by_cases same : first = '\n'
  · by_cases full : 2 ≤ trailing '\n' 0 before
    · have dropped : IsDropped before first := ⟨same, ends.mp full⟩
      have : ¬ trailing '\n' 0 before < 2 := by omega
      simp [surplus, same, this, same ▸ dropped]
    · have stays : ¬ IsDropped before first := fun dropped => full (ends.mpr dropped.2)
      have : trailing '\n' 0 before < 2 := by omega
      simp [surplus, same, this, same ▸ stays]
  · have stays : ¬ IsDropped before first := fun dropped => same dropped.1
    simp [surplus, same, stays]

variable {before first}

theorem collapsed_kept (stays : ¬ IsDropped before first) (after : Text) :
    ∃ rest, collapsed (before ++ first :: after) = collapsed before ++ first :: rest := by
  rw [collapsed_append]
  by_cases same : first = '\n'
  · have few : trailing '\n' 0 before < 2 := by
      by_contra many
      exact stays ⟨same, (Squeeze.le_trailing_iff 2 before).mp (by omega)⟩
    rw [squeeze, if_pos same, if_pos few]
    exact ⟨_, rfl⟩
  · rw [squeeze, if_neg same]
    exact ⟨_, rfl⟩

end Dropped

end Frona.Channel
