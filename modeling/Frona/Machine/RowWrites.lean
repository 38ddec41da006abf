import Frona.Machine.Run

set_option autoImplicit false

namespace Machine

section RowWrites

structure RowCalls (R C I : Type) (V : I → Type) where
  change : C → R → Option R
  field : (i : I) → R → V i
  sets : C → R → I → Bool
  keeps : ∀ call seen new i, change call seen = some new → sets call seen i = false →
    field i new = field i seen

structure SharedRow (R C I : Type) (V : I → Type) where
  row : R
  reads : Nat → Option (C × R)
  written : List C
  lastSet : (i : I) → V i

inductive RowEvent (C : Type) where
  | read (id : Nat) (call : C)
  | write (id : Nat)
  | abandon (id : Nat)

variable {R C I : Type} {V : I → Type} (calls : RowCalls R C I V)

def SharedRow.new (row : R) : SharedRow R C I V :=
  ⟨row, fun _ => none, [], fun i => calls.field i row⟩

namespace RowCalls

def write (shared : SharedRow R C I V) (call : C) (seen : R) : SharedRow R C I V :=
  match calls.change call seen with
  | none => shared
  | some new =>
      { shared with
        row := new
        written := call :: shared.written
        lastSet := fun i => if calls.sets call seen i then calls.field i new else shared.lastSet i }

def step : RowEvent C → SharedRow R C I V → Option (SharedRow R C I V)
  | .read id call, shared =>
      match shared.reads id with
      | some _ => none
      | none => some { shared with
          reads := Function.update shared.reads id (some (call, shared.row)) }
  | .write id, shared =>
      match shared.reads id with
      | none => none
      | some (call, seen) =>
          some (calls.write { shared with reads := Function.update shared.reads id none } call seen)
  | .abandon id, shared =>
      match shared.reads id with
      | none => none
      | some _ => some { shared with reads := Function.update shared.reads id none }

/-- A field holds what it was last set to. -/
def Kept (i : I) (shared : SharedRow R C I V) : Prop := calls.field i shared.row = shared.lastSet i

def OnWrite (holds : SharedRow R C I V → C → R → Prop) (event : RowEvent C)
    (shared : SharedRow R C I V) : Prop :=
  match event with
  | .read .. | .abandon _ => True
  | .write id =>
      match shared.reads id with
      | none => True
      | some (call, seen) => (calls.change call seen).isSome = true → holds shared call seen

instance (holds : SharedRow R C I V → C → R → Prop)
    [∀ shared call seen, Decidable (holds shared call seen)] (event : RowEvent C)
    (shared : SharedRow R C I V) : Decidable (calls.OnWrite holds event shared) := by
  unfold OnWrite
  split
  · infer_instance
  · infer_instance
  · split <;> infer_instance

/-- The call sets the field, or has read it as it is. -/
def Current (i : I) (shared : SharedRow R C I V) (call : C) (seen : R) : Prop :=
  calls.sets call seen i = true ∨ calls.field i seen = calls.field i shared.row

instance (i : I) [DecidableEq (V i)] (shared : SharedRow R C I V) (call : C) (seen : R) :
    Decidable (calls.Current i shared call seen) :=
  inferInstanceAs (Decidable (_ ∨ _))

variable {calls} {i : I}

theorem kept_write (shared : SharedRow R C I V) (kept : calls.Kept i shared) (call : C) (seen : R) :
    calls.Kept i (calls.write shared call seen) ↔
      ((calls.change call seen).isSome = true → calls.Current i shared call seen) := by
  unfold write
  cases changed : calls.change call seen with
  | none => simpa using kept
  | some new =>
      have same : calls.field i shared.row = shared.lastSet i := kept
      simp only [Kept, Option.isSome_some, forall_const, Current]
      cases set : calls.sets call seen i with
      | true => simp
      | false => simp [calls.keeps call seen new i changed set, same]

theorem kept_iff_current (i : I) (events : List (RowEvent C)) (shared last : SharedRow R C I V)
    (start : calls.Kept i shared) (reached : run calls.step events shared = some last) :
    Always calls.step (calls.Kept i) events shared ↔
      Guarded calls.step (calls.OnWrite (calls.Current i)) events shared := by
  refine always_iff_guarded _ _ _ ?_ events shared last start reached
  intro event world next kept taken
  cases event with
  | read id call =>
      simp only [step] at taken
      split at taken <;> cases taken
      exact iff_of_true kept trivial
  | abandon id =>
      simp only [step] at taken
      split at taken <;> cases taken
      exact iff_of_true kept trivial
  | write id =>
      cases held : world.reads id with
      | none => simp [step, held] at taken
      | some pair =>
          obtain ⟨call, seen⟩ := pair
          simp only [step, held, Option.some.injEq] at taken
          subst taken
          simp only [OnWrite, held]
          let left : SharedRow R C I V :=
            { world with reads := Function.update world.reads id none }
          exact kept_write left kept call seen

section Taking

variable {H : Type}

structure Taking (calls : RowCalls R C I V) (H : Type) where
  holder : R → Option H
  takes : C → Option H
  takesFree : ∀ call seen new h, calls.change call seen = some new → takes call = some h →
    holder seen = none ∧ holder new = some h
  leaves : ∀ call seen new, calls.change call seen = some new → takes call = none →
    holder new = holder seen

variable (taking : Taking calls H)

/-- The row was taken at most once, and the holder is the one it was taken for. -/
def Taking.Once (shared : SharedRow R C I V) : Prop :=
  shared.written.filterMap taking.takes = (taking.holder shared.row).toList

/-- A holder that was read is the holder still. -/
def Taking.Sound (shared : SharedRow R C I V) : Prop :=
  taking.Once shared ∧ ∀ id call seen h, shared.reads id = some (call, seen) →
    taking.holder seen = some h → taking.holder shared.row = some h

def Taking.Open (shared : SharedRow R C I V) (_ : C) (seen : R) : Prop :=
  taking.holder seen = none → taking.holder shared.row = none

instance [DecidableEq H] (shared : SharedRow R C I V) (call : C) (seen : R) :
    Decidable (taking.Open shared call seen) :=
  inferInstanceAs (Decidable (_ → _))

variable {taking}

theorem Taking.once_write (shared : SharedRow R C I V) (once : taking.Once shared) (call : C)
    {seen : R} (read : ∀ h, taking.holder seen = some h → taking.holder shared.row = some h) :
    taking.Once (calls.write shared call seen) ↔
      ((calls.change call seen).isSome = true → taking.Open shared call seen) := by
  unfold write
  cases changed : calls.change call seen with
  | none => simpa using once
  | some new =>
      have sofar : shared.written.filterMap taking.takes = (taking.holder shared.row).toList := once
      simp only [Taking.Once, Taking.Open, Option.isSome_some, forall_const]
      cases takes : taking.takes call with
      | some h =>
          have law := taking.takesFree call seen new h changed takes
          rw [List.filterMap_cons_some takes, sofar, law.2]
          cases now : taking.holder shared.row <;> simp [law.1]
      | none =>
          have law := taking.leaves call seen new changed takes
          rw [List.filterMap_cons_none takes, sofar, law]
          cases was : taking.holder seen with
          | none => cases now : taking.holder shared.row <;> simp
          | some h => simp [read h was]

theorem reads_of_update {reads : Nat → Option (C × R)} {id other : Nat} {pair : C × R}
    (held : Function.update reads id none other = some pair) : reads other = some pair := by
  by_cases same : other = id
  · simp [same] at held
  · simpa [same] using held

theorem Taking.sound_without {shared : SharedRow R C I V} (sound : taking.Sound shared) (id : Nat) :
    taking.Sound { shared with reads := Function.update shared.reads id none } :=
  ⟨sound.1, fun other call seen h held => sound.2 other call seen h (reads_of_update held)⟩

theorem Taking.holder_write {shared : SharedRow R C I V} {call : C} {seen : R} {h : H}
    (opened : (calls.change call seen).isSome = true → taking.Open shared call seen)
    (read : ∀ h, taking.holder seen = some h → taking.holder shared.row = some h)
    (held : taking.holder shared.row = some h) :
    taking.holder (calls.write shared call seen).row = some h := by
  unfold write
  cases changed : calls.change call seen with
  | none => exact held
  | some new =>
      have free := opened (by simp [changed])
      simp only [Taking.Open] at free
      cases was : taking.holder seen with
      | none => simp [free was] at held
      | some other =>
          have same := held.symm.trans (read other was)
          cases takes : taking.takes call with
          | some taker => simp [(taking.takesFree call seen new taker changed takes).1] at was
          | none => rw [taking.leaves call seen new changed takes, was, same]

theorem reads_write (shared : SharedRow R C I V) (call : C) (seen : R) :
    (calls.write shared call seen).reads = shared.reads := by
  unfold write
  split <;> rfl

theorem Taking.sound_step {event : RowEvent C} {world next : SharedRow R C I V}
    (sound : taking.Sound world) (taken : calls.step event world = some next) :
    (taking.Once next ↔ calls.OnWrite taking.Open event world) ∧
      (taking.Once next → taking.Sound next) := by
  cases event with
  | read id call =>
      simp only [step] at taken
      split at taken <;> cases taken
      refine ⟨iff_of_true sound.1 trivial, fun once => ⟨once, ?_⟩⟩
      intro other reader seen h held holds
      by_cases same : other = id
      · subst same
        simp only [Function.update_self, Option.some.injEq, Prod.mk.injEq] at held
        exact held.2 ▸ holds
      · exact sound.2 other reader seen h (by simpa [same] using held) holds
  | abandon id =>
      simp only [step] at taken
      split at taken <;> cases taken
      exact ⟨iff_of_true sound.1 trivial, fun _ => Taking.sound_without sound id⟩
  | write id =>
      cases held : world.reads id with
      | none => simp [step, held] at taken
      | some pair =>
          obtain ⟨call, seen⟩ := pair
          simp only [step, held, Option.some.injEq] at taken
          subst taken
          have left := Taking.sound_without sound id
          have read := fun h => sound.2 id call seen h held
          have exact := Taking.once_write _ left.1 call read
          simp only [OnWrite, held]
          refine ⟨exact, fun once => ⟨once, ?_⟩⟩
          intro other reader later h reading holds
          rw [reads_write] at reading
          exact Taking.holder_write (exact.mp once) read (left.2 other reader later h reading holds)

theorem taken_once_iff (events : List (RowEvent C)) (row : R) (last : SharedRow R C I V)
    (free : taking.holder row = none)
    (reached : run calls.step events (.new calls row) = some last) :
    Always calls.step taking.Once events (.new calls row) ↔
      Guarded calls.step (calls.OnWrite taking.Open) events (.new calls row) := by
  refine @always_iff_guarded_of _ _ _ _ taking.Sound _ (fun _ sound => sound.1) ?_ ?_ events _
    last ?_ reached
  next =>
    intro event world next sound taken allowed
    exact (Taking.sound_step sound taken).2 ((Taking.sound_step sound taken).1.mpr allowed)
  next =>
    intro event world next sound taken once
    exact (Taking.sound_step sound taken).1.mp once
  next =>
    refine ⟨?_, fun id call seen h held => by simp [SharedRow.new] at held⟩
    simp [Taking.Once, SharedRow.new, free]

end Taking

end RowCalls

end RowWrites

end Machine
