import Frona.Machine.Run
import Frona.Task.Rows
import Mathlib.Logic.Function.Basic

set_option autoImplicit false

namespace Frona.Task

open Utf8 (Text)

inductive After where
  | turns
  | release
  | resume
  | nothing
deriving DecidableEq

inductive Process where
  | idle
  -- `execute_task`, before it reads the status
  | looking (chat : Text)
  -- A mark, before its read and before its write.
  | marking (mark : Mark) (after : After)
  | writing (mark : Mark) (copy : Row) (after : After)
  -- The loop of the task, with the turns taken so far.
  | turning (turn : Nat)
  -- `ActiveGuard::drop` has spawned the removal.
  | released
  -- `resume_in_flight_crons`, and then `find_resumable`
  | sweeping
  | resuming
deriving DecidableEq

inductive TurnEnd where
  | completed (summary : Option Text)
  | failed (summary : Option Text)
  -- A completion with another status.
  | ignored
  | deferred (runAt : Nat)
  | paused
  | cancelled
  | error (text : Text)
  -- No lifecycle event: another turn.
  | unfinished

structure World where
  row : Row
  -- `active_tasks` has the key of the task.
  active : Bool
  processes : Nat → Process

inductive Event where
  -- `run_task`, with the chat of the task; the limits and the shutdown may refuse it
  | run (call : Nat) (chat : Text) (admitted : Bool)
  | cancel (call : Nat)
  -- The next repository call of a process. It may fail. `due` says that `run_at` has passed.
  | go (call : Nat) (turn : TurnEnd) (chat : Text) (due : Bool)
  | fail (call : Nat)
  | crash
  | resumeAll (call : Nat)

def maxTaskRetries : Nat := 10

def autoCompleted : Text := "Task auto-completed after max retries".toList

def restarted : Text := "Server restarted while CronRun was in flight".toList

def World.put (world : World) (call : Nat) (process : Process) : World :=
  { world with processes := Function.update world.processes call process }

/-- The lock section of `run_task`. -/
def World.enter (world : World) (call : Nat) (chat : Text) (admitted : Bool) : World :=
  if world.active || !admitted then world.put call .idle
  else { world.put call (.looking chat) with active := true }

def After.next : After → Process
  | turns => .turning 0
  | release => .released
  | resume => .resuming
  | nothing => .idle

def Process.failed : Process → Process
  | marking _ after | writing _ _ after =>
      match after with
      | .turns => .released
      | after => after.next
  | looking _ | turning _ => .released
  | sweeping => .resuming
  | _ => .idle

def turnMark (turn : Nat) : TurnEnd → Process
  | .completed summary => .marking (.completed summary) .release
  | .failed summary => .marking (.failed (summary.getD [])) .release
  | .deferred runAt => .marking (.deferred runAt) .release
  | .cancelled => .marking .cancelled .release
  | .error text => .marking (.failed ("Task execution error: ".toList ++ text)) .release
  | .ignored | .paused => .released
  | .unfinished => .turning (turn + 1)

/-- The status is one that `find_resumable` looks for. -/
def Row.isResumable (row : Row) (due : Bool) : Bool :=
  !row.status.isTerminal && !row.kind.isCron && (row.runAt.isNone || due)

def World.go (world : World) (call : Nat) (turnEnd : TurnEnd) (chat : Text) (due : Bool) :
    Option World :=
  match world.processes call with
  | .idle => none
  | .looking chat =>
      some (world.put call (if world.row.status = .cancelled then .released
        else .marking (.inProgress (some chat)) .turns))
  | .marking mark after => some (world.put call (.writing mark world.row after))
  | .writing mark copy after => some { world.put call after.next with row := mark.apply copy }
  | .turning turn =>
      some (world.put call (if turn = maxTaskRetries then
        .marking (.completed (some autoCompleted)) .release else turnMark turn turnEnd))
  | .released => some { world.put call .idle with active := false }
  | .sweeping =>
      some (world.put call (if world.row.kind.isCronRun && world.row.status == .inProgress then
        .marking (.failed restarted) .resume else .resuming))
  | .resuming =>
      some (if world.row.isResumable due then world.enter call chat true
        else world.put call .idle)

def step : Event → World → Option World
  | .run call chat admitted, world =>
      if world.processes call = .idle then some (world.enter call chat admitted) else none
  | .cancel call, world =>
      if world.processes call = .idle then some (world.put call (.marking .cancelled .nothing))
      else none
  | .go call turnEnd chat due, world => world.go call turnEnd chat due
  | .fail call, world =>
      if world.processes call = .idle then none
      else if world.processes call = .released then none
      else some (world.put call (world.processes call).failed)
  | .crash, world => some { world with active := false, processes := fun _ => .idle }
  | .resumeAll call, world =>
      if world.processes call = .idle then some (world.put call .sweeping) else none

def World.start (row : Row) : World where
  row := row
  active := false
  processes := fun _ => .idle

end Frona.Task
