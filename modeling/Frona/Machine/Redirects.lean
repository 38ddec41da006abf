import Mathlib.Data.List.AList
import Mathlib.Logic.Relation
import Mathlib.Order.Basic

set_option autoImplicit false

namespace Redirects

variable {K : Type}

/-- Following the redirects from the key ends at the root. -/
def Resolves (next : K → Option K) (key root : K) : Prop :=
  Relation.ReflTransGen (fun earlier later => next earlier = some later) key root ∧ next root = none

def Forest (next : K → Option K) : Prop :=
  ∃ rank : K → Nat, ∀ earlier later, next earlier = some later → rank later < rank earlier

section Resolves

variable {next : K → Option K} {key root other later : K}

theorem Resolves.here (stays : next key = none) : Resolves next key key :=
  ⟨Relation.ReflTransGen.refl, stays⟩

theorem Resolves.step (goes : next key = some later) (ends : Resolves next later root) :
    Resolves next key root :=
  ⟨ends.1.head goes, ends.2⟩

theorem Resolves.of_step (goes : next key = some later) (ends : Resolves next key root) :
    Resolves next later root := by
  cases ends.1.cases_head with
  | inl same =>
      subst same
      simp [ends.2] at goes
  | inr moved =>
      obtain ⟨between, first, rest⟩ := moved
      obtain rfl : later = between := Option.some.inj (goes.symm.trans first)
      exact ⟨rest, ends.2⟩

theorem Resolves.unique (ends : Resolves next key root) (ends' : Resolves next key other) :
    root = other := by
  obtain ⟨path, stays⟩ := ends
  induction path using Relation.ReflTransGen.head_induction_on with
  | refl =>
      cases ends'.1.cases_head with
      | inl same => exact same
      | inr moved =>
          obtain ⟨between, first, _⟩ := moved
          simp [stays] at first
  | head first _ ih => exact ih (ends'.of_step first)

theorem Forest.resolves (forest : Forest next) (key : K) : ∃ root, Resolves next key root := by
  obtain ⟨rank, down⟩ := forest
  induction steps : rank key using Nat.strong_induction_on generalizing key with
  | _ steps ih =>
      cases goes : next key with
      | none => exact ⟨key, Resolves.here goes⟩
      | some later =>
          have lower := down key later goes
          obtain ⟨root, ends⟩ := ih (rank later) (steps ▸ lower) later rfl
          exact ⟨root, ends.step goes⟩

end Resolves

structure Merges (next next' : K → Option K) (lost kept : K) : Prop where
  lostRoot : next lost = none
  keptRoot : next kept = none
  apart : lost ≠ kept
  moved : next' lost = some kept
  others : ∀ key, key ≠ lost →
    next' key = next key ∨ (next key = some lost ∧ next' key = some kept)

namespace Merges

variable {next next' : K → Option K} {lost kept key root : K}

theorem keptStays (merges : Merges next next' lost kept) : next' kept = none := by
  cases merges.others kept merges.apart.symm with
  | inl same => rw [same, merges.keptRoot]
  | inr shortened => simp [merges.keptRoot] at shortened

theorem forest (merges : Merges next next' lost kept) (forest : Forest next) : Forest next' := by
  classical
  obtain ⟨rank, down⟩ := forest
  -- The one that is kept goes below all the others.
  refine ⟨fun key => if key = kept then 0 else rank key + 1, ?_⟩
  intro earlier later goes
  have moving : earlier ≠ kept := by
    rintro rfl
    simp [merges.keptStays] at goes
  by_cases arrives : later = kept
  · simp [arrives, moving]
  · have before : next earlier = some later := by
      by_cases here : earlier = lost
      · subst here
        rw [merges.moved] at goes
        exact absurd (Option.some.inj goes).symm arrives
      · cases merges.others earlier here with
        | inl same => rwa [← same]
        | inr shortened =>
            rw [shortened.2] at goes
            exact absurd (Option.some.inj goes).symm arrives
    simpa [moving, arrives] using down earlier later before

variable [DecidableEq K]

theorem resolves (merges : Merges next next' lost kept) (ends : Resolves next key root) :
    Resolves next' key (if root = lost then kept else root) := by
  have stays := Resolves.here merges.keptStays
  have atRoot : Resolves next' root (if root = lost then kept else root) := by
    split
    next same => exact stays.step (same ▸ merges.moved)
    next apart =>
      cases merges.others root apart with
      | inl same => exact Resolves.here (same.trans ends.2)
      | inr shortened => simp [ends.2] at shortened
  obtain ⟨path, stop⟩ := ends
  induction path using Relation.ReflTransGen.head_induction_on with
  | refl => exact atRoot
  | @head earlier later first rest ih =>
      have away : earlier ≠ lost := by
        rintro rfl
        simp [merges.lostRoot] at first
      cases merges.others earlier away with
      | inl same => exact ih.step (same.trans first)
      | inr shortened =>
          -- The redirect went to the lost root, which is where following ended.
          obtain rfl : later = lost := Option.some.inj (first.symm.trans shortened.1)
          have ended : later = root := Resolves.unique (Resolves.here merges.lostRoot) ⟨rest, stop⟩
          rw [if_pos ended.symm]
          exact stays.step shortened.2

end Merges

end Redirects
