import Frona.Task.Signals

set_option autoImplicit false

namespace Frona.Task.Signals

open Utf8 (Text)

section Budget

variable (watch : Watch)

def Unchanged (task : SignalTask) (count : Nat) (status : TaskStatus) : Prop :=
  task.evaluationCount = count ∧ (task.row.status.isTerminal = true → status.isTerminal = true)

instance (task : SignalTask) (count : Nat) (status : TaskStatus) :
    Decidable (Unchanged task count status) :=
  inferInstanceAs (Decidable (_ ∧ _))

/-- A write finds the task as it was read: no other write has come between. -/
def Process.Calm (task : SignalTask) : Process → Prop
  | saving copy _ =>
      task.evaluationCount + 1 = copy.evaluationCount ∧ task.row.status.isTerminal = false
  | opening copy => copy.row.chatId = none →
      Unchanged task copy.evaluationCount copy.row.status
  | writing mark copy _ => Unchanged task copy.evaluationCount mark.status
  | idle | firing _ | running | marking _ _ => True

def Calm : Event → World → Prop
  | .go call _ _, world => (world.processes call).Calm world.task
  | .evaluate _, _ | .cancel _, _ | .fail _, _ => True

instance (task : SignalTask) : DecidablePred (Process.Calm task)
  | .saving _ _ => inferInstanceAs (Decidable (_ ∧ _))
  | .opening copy => inferInstanceAs (Decidable (copy.row.chatId = none →
      Unchanged task copy.evaluationCount copy.row.status))
  | .writing mark copy _ =>
      inferInstanceAs (Decidable (Unchanged task copy.evaluationCount mark.status))
  | .idle | .firing _ | .running | .marking _ _ => isTrue trivial

instance : DecidableRel Calm
  | .go call _ _, world => inferInstanceAs (Decidable ((world.processes call).Calm world.task))
  | .evaluate _, _ | .cancel _, _ | .fail _, _ => isTrue trivial

def Process.Held (ended : Bool) : Process → Prop
  | firing late => late = true → ended = true
  | saving copy late => late = false ∧ copy.evaluationCount ≤ watch.budget
  | idle | opening _ | running | marking _ _ | writing _ _ _ => True

structure World.Consistent (world : World) : Prop where
  sound : world.Sound watch
  ended : world.ended = true → world.task.row.status.isTerminal = true
  held : ∀ call, (world.processes call).Held watch world.ended

variable {watch} {world next : World}

theorem held_mono {process : Process} {ended later : Bool} (held : process.Held watch ended)
    (kept : ended = true → later = true) : process.Held watch later := by
  cases process with
  | firing late => exact fun begun => kept (held begun)
  | saving copy late => exact held
  | _ => trivial

theorem consistent_put (consistent : world.Consistent watch) (call : Nat) (process : Process)
    (held : process.Held watch world.ended) : (world.put call process).Consistent watch where
  sound := ⟨consistent.sound.budget, consistent.sound.counted, consistent.sound.timely,
    consistent.sound.final⟩
  ended := consistent.ended
  held := @Machine.forall_update _ _ _ _ (fun _ => Process.Held watch world.ended) consistent.held held

theorem consistent_watched (consistent : world.Consistent watch) (watched : Bool) :
    { world with watched := watched }.Consistent watch where
  sound := ⟨consistent.sound.budget, consistent.sound.counted, consistent.sound.timely,
    consistent.sound.final⟩
  ended := consistent.ended
  held := consistent.held

theorem consistent_update (consistent : world.Consistent watch) (task : SignalTask)
    (unchanged : Unchanged world.task task.evaluationCount task.row.status) :
    (world.update task).Consistent watch where
  sound := ⟨consistent.sound.budget, unchanged.1 ▸ consistent.sound.counted,
    consistent.sound.timely, consistent.sound.final⟩
  ended := by
    simp only [World.update, Bool.or_eq_true]
    rintro (before | now)
    · exact unchanged.2 (consistent.ended before)
    · exact now
  held := fun call => held_mono (consistent.held call) (by simp [World.update]; tauto)

theorem consistent_fire (consistent : world.Consistent watch) {call : Nat} {late : Bool}
    (firing : world.processes call = .firing late) :
    (world.fire watch call late).Consistent watch := by
  have held := consistent.held call
  rw [firing] at held
  unfold World.fire
  split
  next => exact consistent_watched (consistent_put consistent call .idle trivial) false
  next live =>
    dsimp only
    split
    next => exact consistent_put consistent call _ trivial
    next within =>
      refine consistent_put consistent call _ ⟨?_, by omega⟩
      -- The task is not terminal now, so it was not when the evaluation began.
      by_contra begun
      exact live (consistent.ended (held (by simpa using begun)))

theorem consistent_save (consistent : world.Consistent watch) {call : Nat} {copy : SignalTask}
    {late : Bool} (saving : world.processes call = .saving copy late)
    (calm : (Process.saving copy late).Calm world.task) :
    (world.save call copy late).Consistent watch := by
  obtain ⟨counted, live⟩ := calm
  have held := consistent.held call
  rw [saving] at held
  obtain ⟨timely, within⟩ := held
  have before : world.ended = false := by
    by_contra ended
    simp [consistent.ended (by simpa using ended)] at live
  have count := consistent.sound.counted
  refine ⟨⟨?_, ?_, ?_, ?_⟩, ?_, ?_⟩
  · simp only [World.save, List.length_cons]
    omega
  · simp only [World.save, World.update, World.put, List.length_cons]
    omega
  · simpa [World.save, timely] using consistent.sound.timely
  · simpa [World.save, live] using consistent.sound.final
  · simp [World.save, World.update, World.put, before]
  · intro other
    have updated := @Machine.forall_update _ _ call (Process.opening copy)
      (fun _ => Process.Held watch world.ended) consistent.held trivial
    exact held_mono (updated other) (by simp [before])

theorem consistent_open (consistent : world.Consistent watch) {call : Nat} {copy : SignalTask}
    {chat : Text} (calm : (Process.opening copy).Calm world.task) :
    (world.open call copy chat).Consistent watch := by
  unfold World.open
  split
  next fresh =>
    have updated := consistent_update consistent { copy with row.chatId := some chat } (calm fresh)
    exact consistent_put updated call .running trivial
  next => exact consistent_put consistent call .running trivial

theorem runEnd_held (runEnd : RunEnd) (ended : Bool) : runEnd.process.Held watch ended := by
  cases runEnd <;> trivial

theorem consistent_step {event : Event} (consistent : world.Consistent watch)
    (calm : Calm event world) (taken : step watch event world = some next) :
    next.Consistent watch := by
  cases event with
  | evaluate call =>
      simp only [step] at taken
      split at taken
      next =>
        obtain rfl := Option.some.inj taken
        split
        next => exact consistent_put consistent call (.firing world.ended) (fun begun => begun)
        next => exact consistent
      next => cases taken
  | cancel call =>
      simp only [step] at taken
      split at taken
      next =>
        obtain rfl := Option.some.inj taken
        exact consistent_put consistent call _ trivial
      next => cases taken
  | fail call =>
      obtain rfl := Option.some.inj taken
      exact consistent_put consistent call .idle trivial
  | go call runEnd chat =>
      simp only [step, World.go] at taken
      simp only [Calm] at calm
      split at taken
      next => cases taken
      next late firing =>
        obtain rfl := Option.some.inj taken
        exact consistent_fire consistent firing
      next copy late saving =>
        obtain rfl := Option.some.inj taken
        exact consistent_save consistent saving (saving ▸ calm)
      next copy opening =>
        obtain rfl := Option.some.inj taken
        exact consistent_open consistent (opening ▸ calm)
      next =>
        obtain rfl := Option.some.inj taken
        exact consistent_put consistent call _ (runEnd_held runEnd world.ended)
      next mark drops marking =>
        obtain rfl := Option.some.inj taken
        exact consistent_put consistent call _ trivial
      next mark copy drops writing =>
        obtain rfl := Option.some.inj taken
        rw [writing] at calm
        have updated := consistent_update consistent (copy.mark mark)
          (by simpa [SignalTask.mark, Process.Calm] using calm)
        exact consistent_watched (consistent_put updated call .idle trivial) _

theorem consistent_start (sourceChatId : Text) (resumeParent : Bool) :
    (World.start sourceChatId resumeParent).Consistent watch where
  sound := ⟨Nat.zero_le _, rfl, by simp [World.start], by simp [World.start]⟩
  ended := by simp [World.start]
  held := fun _ => trivial

/-- In a run whose writes find the task as it was read, a signal starts no more runs than its
budget, counts each of them, and starts none when it has ended. -/
theorem evaluation_budget_kept (watch : Watch) (sourceChatId : Text) (resumeParent : Bool)
    (events : List Event) (last : World)
    (calm : Machine.Guarded (step watch) Calm events (World.start sourceChatId resumeParent))
    (reached : Machine.run (step watch) events (World.start sourceChatId resumeParent) =
      some last) : last.Sound watch := by
  have consistent := Machine.invariant_run (step watch) Calm (World.Consistent watch)
    (fun _ _ _ consistent calm taken => consistent_step consistent calm taken) events _ last
    (consistent_start sourceChatId resumeParent) calm reached
  exact consistent.sound

-- Two events match, the second one after the run of the first has confirmed it.
def confirmed : List Event :=
  .evaluate 0 :: List.replicate 6 (.go 0 (.completed none) ['k']) ++
    [.evaluate 1, .go 1 .nothing []]

theorem confirmed_within_budget : ∃ last,
    Machine.run (step ⟨.once, 3⟩) confirmed (World.start ['c'] true) = some last ∧
      last.task.evaluationCount = 1 ∧ last.watched = false ∧ last.Sound ⟨.once, 3⟩ := by
  refine ⟨_, rfl, rfl, rfl, ?_⟩
  exact evaluation_budget_kept ⟨.once, 3⟩ ['c'] true confirmed _ (by decide) rfl

-- Two events match, and both read the task before either saves it.
def overlapping : List Event :=
  [.evaluate 0, .evaluate 1, .go 0 .nothing [], .go 1 .nothing [], .go 0 .nothing [],
    .go 1 .nothing []]

theorem overlapping_over_budget :
    ¬ ∀ (watch : Watch) (sourceChatId : Text) (resumeParent : Bool) (events : List Event)
      (last : World),
      Machine.run (step watch) events (World.start sourceChatId resumeParent) = some last →
      last.Sound watch := by
  intro claimed
  have sound := claimed ⟨.once, 1⟩ ['c'] true overlapping _ rfl
  exact absurd sound.budget (by decide)

end Budget

end Frona.Task.Signals
