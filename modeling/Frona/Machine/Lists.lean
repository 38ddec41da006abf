import Mathlib.Data.List.Nodup

set_option autoImplicit false

namespace Machine

section Keys

variable {A K : Type} [DecidableEq K] (key : A → K) {items : List A}

theorem find_key (distinct : (items.map key).Nodup) (item : A) (member : item ∈ items) :
    items.find? (fun other => key other = key item) = some item := by
  cases found : items.find? (fun other => key other = key item) with
  | none =>
      rw [List.find?_eq_none] at found
      simpa using found item member
  | some other =>
      have same : key other = key item := by simpa using List.find?_some found
      rw [List.inj_on_of_nodup_map distinct (List.mem_of_find?_eq_some found) member same]

theorem find_key_eq_some (distinct : (items.map key).Nodup) (k : K) (item : A) :
    items.find? (fun other => key other = k) = some item ↔ item ∈ items ∧ key item = k := by
  constructor
  · intro found
    exact ⟨List.mem_of_find?_eq_some found, by simpa using List.find?_some found⟩
  · rintro ⟨member, rfl⟩
    exact find_key key distinct item member

end Keys

section Splits

theorem split_concat {A : Type} {items before after : List A} {last item : A}
    (whole : items ++ [last] = before ++ item :: after) :
    (before = items ∧ item = last ∧ after = []) ∨
      ∃ rest, after = rest ++ [last] ∧ items = before ++ item :: rest := by
  rcases List.eq_nil_or_concat after with rfl | ⟨rest, final, rfl⟩
  · obtain ⟨rfl, same⟩ := List.append_inj' whole rfl
    exact .inl ⟨rfl, (List.cons.inj same).1.symm, rfl⟩
  · rw [List.concat_eq_append, ← List.cons_append, ← List.append_assoc] at whole
    obtain ⟨rfl, same⟩ := List.append_inj' whole rfl
    obtain rfl := (List.cons.inj same).1
    exact .inr ⟨rest, List.concat_eq_append, rfl⟩

theorem nodup_snoc {A : Type} {items : List A} {item : A} :
    (items ++ [item]).Nodup ↔ items.Nodup ∧ item ∉ items := by
  rw [← List.concat_eq_append, List.nodup_concat, and_comm]

end Splits

section SwapRemove

variable {A : Type} {items : List A}

def swapRemove (items : List A) (index : Nat) : List A :=
  match items.getLast? with
  | none => items
  | some last => if index < items.length then (items.set index last).dropLast else items

def swapRemoveAll (indices : List Nat) (items : List A) : List A :=
  indices.foldr (fun index rest => swapRemove rest index) items

theorem swapRemove_middle (before after : List A) (item : A) :
    (before ++ item :: after).Perm
      (item :: swapRemove (before ++ item :: after) before.length) := by
  rcases List.eq_nil_or_concat after with rfl | ⟨middle, last, rfl⟩
  · have removed : swapRemove (before ++ [item]) before.length = before := by
      simp [swapRemove]
    rw [removed]
    exact List.perm_append_singleton item before
  · have removed : swapRemove (before ++ item :: (middle ++ [last])) before.length =
        before ++ last :: middle := by
      have split : before ++ item :: (middle ++ [last]) =
          (before ++ item :: middle) ++ [last] := by simp
      have placed : (before ++ last :: middle) ++ [last] =
          before ++ last :: (middle ++ [last]) := by simp
      have set : (before ++ item :: (middle ++ [last])).set before.length last =
          before ++ last :: (middle ++ [last]) := by simp
      rw [swapRemove, split, List.getLast?_concat, ← split]
      simp only [set]
      rw [if_pos (by simp), ← placed, List.dropLast_concat]
    rw [List.concat_eq_append, removed]
    have moved : (before ++ item :: (middle ++ [last])).Perm
        (item :: (before ++ (middle ++ [last]))) := List.perm_middle
    refine moved.trans (List.Perm.cons item ?_)
    exact (List.perm_append_singleton last middle).append_left before

theorem swapRemove_perm {index : Nat} (inside : index < items.length) :
    items.Perm (items[index] :: swapRemove items index) := by
  have length : (items.take index).length = index := by simp; omega
  have decomposed : items = items.take index ++ items[index] :: items.drop (index + 1) := by simp
  have perm := swapRemove_middle (items.take index) (items.drop (index + 1)) items[index]
  rwa [← decomposed, length] at perm

theorem swapRemove_of_length_le {index : Nat} (outside : items.length ≤ index) :
    swapRemove items index = items := by
  unfold swapRemove
  split
  next => rfl
  next => rw [if_neg (by omega)]

theorem swapRemove_getElem? {index before : Nat} (earlier : before < index) :
    (swapRemove items index)[before]? = items[before]? := by
  unfold swapRemove
  split
  next => rfl
  next last _ =>
    split
    next inside =>
      rw [List.getElem?_dropLast, List.length_set, if_pos (by omega),
        List.getElem?_set_ne (by omega)]
    next => rfl

theorem mem_swapRemove (nodup : items.Nodup) (index : Nat) (item : A) :
    item ∈ swapRemove items index ↔ item ∈ items ∧ items[index]? ≠ some item := by
  by_cases inside : index < items.length
  next =>
    have perm := swapRemove_perm inside
    have apart := perm.nodup_iff.mp nodup
    rw [List.nodup_cons] at apart
    rw [perm.mem_iff, List.getElem?_eq_getElem inside, List.mem_cons]
    constructor
    next =>
      intro member
      refine ⟨Or.inr member, fun same => ?_⟩
      exact apart.1 (Option.some.inj same ▸ member)
    next =>
      rintro ⟨rfl | member, different⟩
      · exact absurd rfl different
      · exact member
  next =>
    rw [swapRemove_of_length_le (by omega), List.getElem?_eq_none (by omega)]
    simp

theorem nodup_swapRemove (nodup : items.Nodup) (index : Nat) : (swapRemove items index).Nodup := by
  by_cases inside : index < items.length
  next =>
    exact (List.nodup_cons.mp ((swapRemove_perm inside).nodup_iff.mp nodup)).2
  next =>
    rw [swapRemove_of_length_le (by omega)]
    exact nodup

theorem swapRemoveAll_getElem? {indices : List Nat} {before : Nat}
    (earlier : ∀ index ∈ indices, before < index) :
    (swapRemoveAll indices items)[before]? = items[before]? := by
  induction indices with
  | nil => rfl
  | cons index rest ih =>
      have step := ih fun other member => earlier other (by simp [member])
      rw [← step]
      exact swapRemove_getElem? (earlier index (by simp))

theorem swapRemoveAll_spec {indices : List Nat} (nodup : items.Nodup)
    (ascending : indices.Pairwise (· < ·)) :
    (swapRemoveAll indices items).Nodup ∧ ∀ item, item ∈ swapRemoveAll indices items ↔
      item ∈ items ∧ ∀ index ∈ indices, items[index]? ≠ some item := by
  induction indices with
  | nil => exact ⟨nodup, by simp [swapRemoveAll]⟩
  | cons index rest ih =>
      obtain ⟨first, later⟩ := List.pairwise_cons.mp ascending
      obtain ⟨distinct, members⟩ := ih later
      refine ⟨nodup_swapRemove distinct index, fun item => ?_⟩
      have removed := mem_swapRemove distinct index item
      rw [swapRemoveAll_getElem? first, members] at removed
      simp only [List.forall_mem_cons]
      exact removed.trans (by tauto)

end SwapRemove

end Machine
