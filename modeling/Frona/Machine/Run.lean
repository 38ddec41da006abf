import Mathlib.Data.List.Basic
import Mathlib.Logic.Function.Basic

set_option autoImplicit false

namespace Machine

section Run

variable {W A : Type} (step : A → W → Option W) (allowed : A → W → Prop) (inv : W → Prop)

def run : List A → W → Option W
  | [], world => some world
  | action :: rest, world =>
      match step action world with
      | none => none
      | some next => run rest next

/-- Each action of the list is allowed in the state in which it is taken. -/
def Guarded : List A → W → Prop
  | [], _ => True
  | action :: rest, world => allowed action world ∧
      match step action world with
      | none => True
      | some next => Guarded rest next

instance decidableGuarded [∀ action world, Decidable (allowed action world)] :
    (actions : List A) → (world : W) → Decidable (Guarded step allowed actions world)
  | [], _ => isTrue trivial
  | action :: rest, world =>
      match taken : step action world with
      | none => decidable_of_iff (allowed action world) (by simp [Guarded, taken])
      | some next =>
          have := decidableGuarded rest next
          decidable_of_iff (allowed action world ∧ Guarded step allowed rest next)
            (by simp [Guarded, taken])

variable {step} in
theorem Guarded.mono {allowed wider : A → W → Prop}
    (weaker : ∀ action world, allowed action world → wider action world) {actions : List A}
    {world : W} (guarded : Guarded step allowed actions world) :
    Guarded step wider actions world := by
  induction actions generalizing world with
  | nil => trivial
  | cons action rest ih =>
      refine ⟨weaker action world guarded.1, ?_⟩
      cases taken : step action world with
      | none => trivial
      | some next =>
          have later := guarded.2
          simp only [taken] at later
          exact ih later

theorem run_append (before after : List A) (world : W) :
    run step (before ++ after) world = (run step before world).bind (run step after) := by
  induction before generalizing world with
  | nil => rfl
  | cons action rest ih =>
      rw [List.cons_append, run, run]
      cases step action world with
      | none => rfl
      | some next => exact ih next

variable {step allowed} in
theorem Guarded.cons {action : A} {rest : List A} {world next : W} (here : allowed action world)
    (taken : step action world = some next) (later : Guarded step allowed rest next) :
    Guarded step allowed (action :: rest) world := by
  refine ⟨here, ?_⟩
  simpa [taken] using later

variable {step allowed} in
theorem Guarded.append {before after : List A} {world between : W}
    (guarded : Guarded step allowed (before ++ after) world)
    (reached : run step before world = some between) :
    Guarded step allowed before world ∧ Guarded step allowed after between := by
  induction before generalizing world with
  | nil =>
      cases reached
      exact ⟨trivial, guarded⟩
  | cons action rest ih =>
      cases taken : step action world with
      | none => simp [run, taken] at reached
      | some next =>
          simp only [run, taken] at reached
          simp only [List.cons_append, Guarded, taken] at guarded
          obtain ⟨first, second⟩ := ih guarded.2 reached
          exact ⟨Guarded.cons guarded.1 taken first, second⟩

theorem invariant_run
    (preserved : ∀ action world next, inv world → allowed action world →
      step action world = some next → inv next)
    (actions : List A) (world last : W) (start : inv world)
    (guarded : Guarded step allowed actions world) (reached : run step actions world = some last) :
    inv last := by
  induction actions generalizing world with
  | nil =>
      cases reached
      exact start
  | cons action rest ih =>
      cases taken : step action world with
      | none => simp [run, taken] at reached
      | some next =>
          simp only [run, taken] at reached
          simp only [Guarded, taken] at guarded
          exact ih next (preserved action world next start guarded.1 taken) guarded.2 reached

theorem invariant_every_run
    (preserved : ∀ action world next, inv world → step action world = some next → inv next)
    (actions : List A) (world last : W) (start : inv world)
    (reached : run step actions world = some last) : inv last := by
  induction actions generalizing world with
  | nil =>
      cases reached
      exact start
  | cons action rest ih =>
      cases taken : step action world with
      | none => simp [run, taken] at reached
      | some next =>
          simp only [run, taken] at reached
          exact ih next (preserved action world next start taken) reached

/-- What holds in each state of a run. -/
def Always : List A → W → Prop
  | [], world => inv world
  | action :: rest, world => inv world ∧
      match step action world with
      | none => True
      | some next => Always rest next

variable {step allowed inv} in
theorem always_iff_guarded_of {sound : W → Prop} (enough : ∀ world, inv world → sound world)
    (kept : ∀ action world next, inv world → step action world = some next →
      allowed action world → inv next)
    (needed : ∀ action world next, inv world → step action world = some next →
      sound next → allowed action world)
    (actions : List A) (world last : W) (start : inv world)
    (reached : run step actions world = some last) :
    Always step sound actions world ↔ Guarded step allowed actions world := by
  induction actions generalizing world with
  | nil => simpa [Always, Guarded] using enough world start
  | cons action rest ih =>
      cases taken : step action world with
      | none => simp [run, taken] at reached
      | some next =>
          simp only [run, taken] at reached
          simp only [Always, Guarded, taken]
          constructor
          next =>
            intro holds
            have begins : sound next := by
              cases rest with
              | nil => exact holds.2
              | cons second more => exact holds.2.1
            have here := needed action world next start taken begins
            exact ⟨here, (ih next (kept action world next start taken here) reached).mp holds.2⟩
          next =>
            intro guarded
            have later := kept action world next start taken guarded.1
            exact ⟨enough world start, (ih next later reached).mpr guarded.2⟩

theorem always_iff_guarded
    (exact : ∀ action world next, inv world → step action world = some next →
      (inv next ↔ allowed action world))
    (actions : List A) (world last : W) (start : inv world)
    (reached : run step actions world = some last) :
    Always step inv actions world ↔ Guarded step allowed actions world :=
  always_iff_guarded_of (fun _ holds => holds)
    (fun action world next holds taken => (exact action world next holds taken).mpr)
    (fun action world next holds taken => (exact action world next holds taken).mp)
    actions world last start reached

end Run

section Calls

variable {C : Type} {calls : Nat → C} {id : Nat} {call : C}

theorem forall_update {holds : Nat → C → Prop} (every : ∀ other, holds other (calls other))
    (new : holds id call) : ∀ other, holds other (Function.update calls id call other) := by
  intro other
  by_cases same : other = id
  · subst same
    simpa using new
  · simpa [same] using every other

theorem exists_update (kind : C → Prop) (found : ∃ other, kind (calls other))
    (kept : kind (calls id) → kind call) : ∃ other, kind (Function.update calls id call other) := by
  obtain ⟨other, held⟩ := found
  by_cases same : other = id
  · subst same
    exact ⟨other, by simpa using kept held⟩
  · exact ⟨other, by simpa [same] using held⟩

end Calls

end Machine
