import Mathlib.Logic.Relation
import Mathlib.Data.Set.Basic

set_option autoImplicit false

namespace Machine

section Traps

variable {V : Type} {next : V → V → Prop} {inside : Set V}

structure Trap (next : V → V → Prop) (trap : Set V) : Prop where
  nonempty : trap.Nonempty
  closed : ∀ a ∈ trap, ∀ b, next a b → b ∈ trap

theorem Trap.transGen {trap : Set V} (held : Trap next trap) {a b : V} (member : a ∈ trap)
    (path : Relation.TransGen next a b) : b ∈ trap := by
  induction path with
  | single step => exact held.closed a member _ step
  | tail _ step ih => exact held.closed _ ih _ step

theorem trap_reflTransGen (a : V) : Trap next {b | Relation.ReflTransGen next a b} where
  nonempty := ⟨a, .refl⟩
  closed _ path _ step := path.tail step

theorem leads_out_iff (next : V → V → Prop) (inside : Set V) :
    (∀ a ∈ inside, ∃ b, b ∉ inside ∧ Relation.TransGen next a b) ↔
      ∀ trap ⊆ inside, ¬ Trap next trap := by
  constructor
  · intro leads trap within held
    obtain ⟨a, member⟩ := held.nonempty
    obtain ⟨b, outside, path⟩ := leads a (within member)
    exact outside (within (held.transGen member path))
  · intro free a member
    by_contra stuck
    refine free _ ?_ (trap_reflTransGen a)
    intro b path
    by_contra outside
    -- a point outside is not the start, so a step was taken to reach it
    obtain same | steps := Relation.reflTransGen_iff_eq_or_transGen.mp path
    · exact outside (same ▸ member)
    · exact stuck ⟨b, outside, steps⟩

end Traps

end Machine
