import Frona.Task.Lifecycle

set_option autoImplicit false

namespace Frona.Task

open Utf8 (Text)

section Final

/-- A mark reads a row that is not terminal, or in the state it writes, and finds the status that
it read when it writes. -/
def Process.Calm (row : Row) : Process → Prop
  | marking mark _ => row.status.isTerminal = true → row.status = mark.status
  | writing _ copy _ => copy.status = row.status
  | _ => True

def Calm : Event → World → Prop
  | .go call _ _ _, world => (world.processes call).Calm world.row
  | _, _ => True

instance (row : Row) : DecidablePred (Process.Calm row)
  | .marking mark _ =>
      inferInstanceAs (Decidable (row.status.isTerminal = true → row.status = mark.status))
  | .writing _ copy _ => inferInstanceAs (Decidable (copy.status = row.status))
  | .idle | .looking _ | .turning _ | .released | .sweeping | .resuming => isTrue trivial

instance : DecidableRel Calm
  | .go call _ _ _, world =>
      inferInstanceAs (Decidable ((world.processes call).Calm world.row))
  | .run .., _ | .cancel _, _ | .fail _, _ | .crash, _ | .resumeAll _, _ => isTrue trivial

/-- No write that is under way would change a terminal status. -/
def World.Sound (world : World) : Prop :=
  ∀ call mark copy after, world.processes call = .writing mark copy after →
    copy.status.isTerminal = true → copy.status = mark.status

/-- A terminal status stays. -/
def World.Keeps (world next : World) : Prop :=
  world.row.status.isTerminal = true → next.row.status = world.row.status

variable {world next : World}

theorem sound_put {call : Nat} {process : Process} (sound : world.Sound)
    (fits : ∀ mark copy after, process = .writing mark copy after →
      copy.status.isTerminal = true → copy.status = mark.status) :
    (world.put call process).Sound := by
  intro other mark copy after writes
  by_cases same : other = call
  · subst same
    exact fits mark copy after (by simpa [World.put] using writes)
  · exact sound other mark copy after (by simpa [World.put, same] using writes)

theorem sound_enter (call : Nat) (chat : Text) (admitted : Bool) (sound : world.Sound) :
    (world.enter call chat admitted).Sound := by
  unfold World.enter
  split
  next => exact sound_put sound (by simp)
  next => exact sound_put sound (by simp)

theorem row_enter (call : Nat) (chat : Text) (admitted : Bool) :
    (world.enter call chat admitted).row = world.row := by
  unfold World.enter
  split <;> rfl

theorem next_not_writing (after : After) (mark : Mark) (copy : Row) (rest : After) :
    after.next ≠ .writing mark copy rest := by
  cases after <;> simp [After.next]

theorem failed_not_writing (process : Process) (mark : Mark) (copy : Row) (rest : After) :
    process.failed ≠ .writing mark copy rest := by
  cases process with
  | marking mark after => cases after <;> simp [Process.failed, After.next]
  | writing mark copy after => cases after <;> simp [Process.failed, After.next]
  | _ => simp [Process.failed]

theorem turnMark_not_writing (turn : Nat) (turnEnd : TurnEnd) (mark : Mark) (copy : Row)
    (rest : After) : turnMark turn turnEnd ≠ .writing mark copy rest := by
  cases turnEnd <;> simp [turnMark]

theorem sound_go {call : Nat} {turnEnd : TurnEnd} {chat : Text} {due : Bool}
    (sound : world.Sound) (calm : Calm (.go call turnEnd chat due) world)
    (goes : world.go call turnEnd chat due = some next) : next.Sound ∧ world.Keeps next := by
  unfold World.go at goes
  simp only [Calm] at calm
  split at goes
  next => cases goes
  next =>
    obtain rfl := Option.some.inj goes
    exact ⟨sound_put sound (by split <;> simp), fun _ => rfl⟩
  next mark after marking =>
    obtain rfl := Option.some.inj goes
    simp only [marking, Process.Calm] at calm
    refine ⟨sound_put sound fun other copy rest writes => ?_, fun _ => rfl⟩
    obtain ⟨rfl, rfl, rfl⟩ := Process.writing.inj writes
    exact calm
  next mark copy after writing =>
    obtain rfl := Option.some.inj goes
    simp only [writing, Process.Calm] at calm
    refine ⟨?_, fun terminal => ?_⟩
    · have puts := @sound_put world call after.next sound fun other copy rest writes =>
        absurd writes (next_not_writing after other copy rest)
      exact puts
    · have read := sound call mark copy after writing (calm ▸ terminal)
      rw [Mark.apply_status, ← read, calm]
  next turn turning =>
    obtain rfl := Option.some.inj goes
    refine ⟨sound_put sound fun mark copy rest writes => ?_, fun _ => rfl⟩
    split at writes
    next => cases writes
    next => exact absurd writes (turnMark_not_writing turn turnEnd mark copy rest)
  next =>
    obtain rfl := Option.some.inj goes
    have puts := @sound_put world call .idle sound (by simp)
    exact ⟨puts, fun _ => rfl⟩
  next =>
    obtain rfl := Option.some.inj goes
    exact ⟨sound_put sound (by split <;> simp), fun _ => rfl⟩
  next =>
    obtain rfl := Option.some.inj goes
    split
    next => exact ⟨sound_enter call chat true sound, fun _ => by rw [row_enter]⟩
    next => exact ⟨sound_put sound (by simp), fun _ => rfl⟩

theorem sound_step {event : Event} (sound : world.Sound) (calm : Calm event world)
    (taken : step event world = some next) : next.Sound ∧ world.Keeps next := by
  cases event with
  | run call chat admitted =>
      simp only [step] at taken
      split at taken
      next =>
        obtain rfl := Option.some.inj taken
        exact ⟨sound_enter call chat admitted sound, fun _ => by rw [row_enter]⟩
      next => cases taken
  | cancel call =>
      simp only [step] at taken
      split at taken
      next =>
        obtain rfl := Option.some.inj taken
        exact ⟨sound_put sound (by simp), fun _ => rfl⟩
      next => cases taken
  | go call turnEnd chat due => exact sound_go sound calm taken
  | fail call =>
      simp only [step] at taken
      split at taken
      next => cases taken
      next =>
        split at taken
        next => cases taken
        next =>
          obtain rfl := Option.some.inj taken
          exact ⟨sound_put sound fun mark copy rest writes =>
            absurd writes (failed_not_writing _ mark copy rest), fun _ => rfl⟩
  | crash =>
      obtain rfl := Option.some.inj taken
      exact ⟨fun _ _ _ _ writes => by simp at writes, fun _ => rfl⟩
  | resumeAll call =>
      simp only [step] at taken
      split at taken
      next =>
        obtain rfl := Option.some.inj taken
        exact ⟨sound_put sound (by simp), fun _ => rfl⟩
      next => cases taken

theorem keeps_run {events : List Event} {last : World} (sound : world.Sound)
    (calm : Machine.Guarded step Calm events world)
    (reached : Machine.run step events world = some last) : world.Keeps last := by
  induction events generalizing world with
  | nil =>
      obtain rfl := Option.some.inj reached
      exact fun _ => rfl
  | cons event rest ih =>
      cases taken : step event world with
      | none => simp [Machine.run, taken] at reached
      | some next =>
          simp only [Machine.run, taken] at reached
          simp only [Machine.Guarded, taken] at calm
          obtain ⟨sound', keeps⟩ := sound_step sound calm.1 taken
          intro terminal
          have same := keeps terminal
          exact (ih sound' calm.2 reached (same ▸ terminal)).trans same

theorem sound_start (row : Row) : (World.start row).Sound := by
  intro call mark copy after writes
  cases writes

/-- In a run whose marks meet the condition, a status that is terminal is the last one. -/
theorem terminal_status_final (row : Row) (before after : List Event) (between last : World)
    (calm : Machine.Guarded step Calm (before ++ after) (World.start row))
    (reached : Machine.run step before (World.start row) = some between)
    (later : Machine.run step after between = some last)
    (terminal : between.row.status.isTerminal = true) :
    last.row.status = between.row.status := by
  obtain ⟨first, second⟩ := calm.append reached
  have sound : between.Sound := by
    refine Machine.invariant_run step Calm World.Sound ?_ before _ between (sound_start row) first
      reached
    intro event world next sound calm taken
    exact (sound_step sound calm taken).1
  exact keeps_run sound second later terminal

def errand : Row := Row.created (.delegation ['c'] true) none

def completes : List Event :=
  .run 0 ['t'] true :: List.replicate 6 (.go 0 (.completed none) [] true)

def restarts : List Event :=
  [.crash, .resumeAll 1, .go 1 .unfinished [] true, .go 1 .unfinished [] true]

theorem completed_stays_completed :
    ∃ between last, Machine.run step completes (World.start errand) = some between ∧
      Machine.run step restarts between = some last ∧
      between.row.status = .completed ∧ last.row.status = between.row.status := by
  refine ⟨_, _, rfl, rfl, rfl, ?_⟩
  exact terminal_status_final errand completes restarts _ _ (by decide) rfl rfl rfl

/-- `cancel_task` on the completed task. -/
def cancels : List Event := .cancel 1 :: List.replicate 2 (.go 1 .unfinished [] true)

theorem completed_then_cancelled :
    ¬ ∀ (row : Row) (before after : List Event) (between last : World),
      Machine.run step before (World.start row) = some between →
      Machine.run step after between = some last → between.row.status.isTerminal = true →
      last.row.status = between.row.status := by
  intro claimed
  have kept := claimed errand completes cancels _ _ rfl rfl rfl
  exact absurd kept (by decide)

end Final

end Frona.Task
