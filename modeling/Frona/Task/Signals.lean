import Frona.Machine.Run
import Frona.Task.Rows

set_option autoImplicit false

namespace Frona.Task

open Utf8 (Text)

inductive SignalMode where
  | once
  | continuous

structure Watch where
  mode : SignalMode
  maxEvaluations : Nat

-- The row of a Signal task, with the count of its kind.
structure SignalTask where
  row : Row
  evaluationCount : Nat
deriving DecidableEq

def u32Max : Nat := 2 ^ 32 - 1

def SignalTask.bumpEvaluationCount (task : SignalTask) : SignalTask :=
  { task with evaluationCount := min (task.evaluationCount + 1) u32Max }

def SignalTask.mark (task : SignalTask) (mark : Mark) : SignalTask :=
  { task with row := mark.apply task.row }

/-- `create_signal`. -/
def createdSignal (sourceChatId : Text) (resumeParent : Bool) : SignalTask where
  row := Row.created (.signal sourceChatId resumeParent) none
  evaluationCount := 0

def Watch.budget (watch : Watch) : Nat := max watch.maxEvaluations 1

def Watch.exhausted (watch : Watch) : Mark :=
  match watch.mode with
  | .continuous => .completed (some "max matches reached".toList)
  | .once => .failed "exceeded evaluation budget".toList

namespace Signals

inductive Process where
  | idle
  -- `fire_signal`, before it reads the task; the task was terminal when the evaluation began
  | firing (late : Bool)
  -- The copy with its count bumped, before it is saved.
  | saving (copy : SignalTask) (late : Bool)
  -- `run_with_injected_message`, before it makes a chat
  | opening (copy : SignalTask)
  | running
  -- A mark, before its read and before its write; the watch is dropped after it.
  | marking (mark : Mark) (drops : Bool)
  | writing (mark : Mark) (copy : SignalTask) (drops : Bool)
deriving DecidableEq

inductive RunEnd where
  | completed (summary : Option Text)
  | failed (summary : Option Text)
  | deferred (runAt : Nat)
  -- No lifecycle event, an event with another status, or an error.
  | nothing

/-- A run that `fire_signal` has started. -/
structure Start where
  late : Bool
  -- The save before it turned a terminal status into another one.
  revived : Bool

structure World where
  task : SignalTask
  -- The index has the watch.
  watched : Bool
  -- The task has been terminal.
  ended : Bool
  started : List Start
  processes : Nat → Process

inductive Event where
  | evaluate (call : Nat)
  | cancel (call : Nat)
  -- The next repository call of a process. It may fail.
  | go (call : Nat) (runEnd : RunEnd) (chat : Text)
  | fail (call : Nat)

def World.put (world : World) (call : Nat) (process : Process) : World :=
  { world with processes := Function.update world.processes call process }

/-- `repo.update` writes every field of the row. -/
def World.update (world : World) (task : SignalTask) : World :=
  { world with task := task, ended := world.ended || task.row.status.isTerminal }

def RunEnd.process : RunEnd → Process
  | completed summary => .marking (.completed summary) false
  | failed summary => .marking (.failed (summary.getD [])) false
  | deferred runAt => .marking (.deferred runAt) false
  | nothing => .idle

/-- `fire_signal`, from its read of the task to its save. -/
def World.fire (world : World) (watch : Watch) (call : Nat) (late : Bool) : World :=
  if world.task.row.status.isTerminal then { world.put call .idle with watched := false }
  else
    let copy := world.task.bumpEvaluationCount
    if copy.evaluationCount > watch.budget then world.put call (.marking watch.exhausted true)
    else world.put call (.saving copy late)

/-- The save of `fire_signal`, and the run that it spawns. -/
def World.save (world : World) (call : Nat) (copy : SignalTask) (late : Bool) : World :=
  let revived := world.task.row.status.isTerminal && !copy.row.status.isTerminal
  { (world.update copy).put call (.opening copy) with
    started := { late, revived } :: world.started }

def World.open (world : World) (call : Nat) (copy : SignalTask) (chat : Text) : World :=
  match copy.row.chatId with
  | none => (world.update { copy with row.chatId := some chat }).put call .running
  | some _ => world.put call .running

def World.go (world : World) (watch : Watch) (call : Nat) (runEnd : RunEnd) (chat : Text) :
    Option World :=
  match world.processes call with
  | .idle => none
  | .firing late => some (world.fire watch call late)
  | .saving copy late => some (world.save call copy late)
  | .opening copy => some (world.open call copy chat)
  | .running => some (world.put call runEnd.process)
  | .marking mark drops => some (world.put call (.writing mark world.task drops))
  | .writing mark copy drops =>
      some { (world.update (copy.mark mark)).put call .idle with
        watched := world.watched && !drops }

def step (watch : Watch) : Event → World → Option World
  | .evaluate call, world =>
      if world.processes call = .idle then
        some (if world.watched then world.put call (.firing world.ended) else world)
      else none
  | .cancel call, world =>
      if world.processes call = .idle then some (world.put call (.marking .cancelled false))
      else none
  | .go call runEnd chat, world => world.go watch call runEnd chat
  | .fail call, world => some (world.put call .idle)

def World.start (sourceChatId : Text) (resumeParent : Bool) : World where
  task := createdSignal sourceChatId resumeParent
  watched := true
  ended := false
  started := []
  processes := fun _ => .idle

/-- What a signal with a budget of evaluations is promised. -/
structure World.Sound (watch : Watch) (world : World) : Prop where
  budget : world.started.length ≤ watch.budget
  counted : world.task.evaluationCount = world.started.length
  timely : ∀ start ∈ world.started, start.late = false
  final : ∀ start ∈ world.started, start.revived = false

end Signals

end Frona.Task
