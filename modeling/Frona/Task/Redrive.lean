import Frona.Task.Lifecycle
import Frona.Task.Siblings

set_option autoImplicit false

namespace Frona.Task.Redrive

open Utf8 (Text)

/-- The kinds that execute through `run_task`. -/
def ordinary : TaskKind → Bool
  | .direct _ | .delegation .. | .cronRun .. => true
  | .cron .. | .signal .. => false

section Queries

variable (tasks : Tasks) (now : Nat)

/-- `find_orphaned_cron_runs`, for one row. -/
def orphaned (row : Row) : Bool := row.kind.isCronRun ∧ row.status = .inProgress

def findResumable : List Text :=
  (tasks.filter fun entry =>
    (entry.2.status = .pending ∨ entry.2.status = .inProgress) ∧ entry.2.kind.isCron = false ∧
      entry.2.runAt.all (· ≤ now)).map Prod.fst

def findDeferredDue : List Text :=
  (tasks.filter fun entry =>
    entry.2.runAt.any (· ≤ now) ∧ entry.2.status = .pending ∧
      entry.2.kind.isCron = false).map Prod.fst

def findPendingImmediate : List Text :=
  (tasks.filter fun entry =>
    entry.2.status = .pending ∧ entry.2.runAt = none ∧ ordinary entry.2.kind).map Prod.fst

end Queries

structure World where
  tasks : Tasks
  -- The tasks with a human prompt that is not resolved.
  paused : List Text
  -- The calls of `run_task` before the lock.
  asked : List Text
  -- Those that were admitted, those that have seen that their task is not cancelled, those that have
  -- marked it, and those that are over and still have their key in the map.
  entered : List Text
  checked : List Text
  running : List Text
  closing : List Text
  -- The tasks that have finished and have not asked for their parents yet.
  ending : List Text
  active : ActiveTasks
  now : Nat

inductive Outcome where
  | completed (summary : Option Text)
  | failed (error : Text)
  | cancelled
  | deferred (runAt : Nat)
  | paused
  -- A completion with another status.
  | ignored

inductive Event where
  | ask (id : Text)
  -- The agent is the one that the call has read.
  | enter (id : Text) (agent : Option Agent)
  | check (id : Text)
  | begin (id : Text)
  | stop (id : Text) (outcome : Outcome)
  -- A `mark_*` outside `run_task`: a cancellation by the user or by a run that replaces this one, or
  -- what a signal is marked with, as when it is past its time or its budget.
  | write (id : Text) (mark : Mark)
  -- An end outside `run_task`: that of a signal, or of a call.
  | finish (id : Text) (mark : Mark)
  -- `resume_parent_if_requested`
  | query (id : Text)
  | drop (id : Text)
  | resolve (id : Text)
  | poll
  | create (id : Text) (kind : TaskKind) (runAt : Option Nat)
  | tick (seconds : Nat)

def sweepRow (row : Row) : Row :=
  if orphaned row then (Mark.failed restarted).apply row else row

/-- `resume_in_flight_crons`. -/
def sweep (tasks : Tasks) : Tasks := tasks.map fun entry => (entry.1, sweepRow entry.2)

/-- `resume_all`, up to the calls that it spawns. -/
def restart (tasks : Tasks) (paused : List Text) (now : Nat) : World where
  tasks := sweep tasks
  paused := paused
  asked := findResumable (sweep tasks) now
  entered := []
  checked := []
  running := []
  closing := []
  ending := []
  active := []
  now := now

section Steps

-- The agent in a task's row and the task in a chat's row: no update changes them.
variable (agentOf : Text → Text) (chatTask : Text → Option Text) (maxConcurrentTasks : Nat)

def key (id : Text) : Text := activeKey (agentOf id) id

def parentOf (kind : TaskKind) : Option Text := kind.sourceChatId.bind chatTask

def waiting (tasks : Tasks) (id : Text) : Bool :=
  tasks.any fun entry =>
    !entry.2.status.isTerminal && !entry.2.kind.isCron && parentOf chatTask entry.2.kind = some id

def asksFor (tasks : Tasks) (id : Text) : Option Text :=
  match tasks.get id with
  | none => none
  | some row => if tasks.requestsResume row.kind then parentOf chatTask row.kind else none

/-- The parent that `resume_parent_if_requested` runs at the end of a task. -/
def resumed (tasks : Tasks) (id : Text) : Option Text :=
  match tasks.get id with
  | none => none
  | some row =>
      if ∀ entry ∈ tasks, entry.2.kind.sourceChatId = row.kind.sourceChatId →
          entry.2.status.isTerminal = true then
        (asksFor chatTask tasks id).filter (· ∈ tasks.ids)
      else none

def World.stop (world : World) (id : Text) (outcome : Outcome) : World :=
  let closed := { world with running := world.running.erase id, closing := id :: world.closing }
  let marked (mark : Mark) := { closed with tasks := world.tasks.mark id mark }
  let ended (mark : Mark) := { marked mark with ending := id :: world.ending }
  match outcome with
  | .completed summary => ended (.completed summary)
  | .failed error => ended (.failed error)
  | .cancelled => marked .cancelled
  | .deferred runAt => marked (.deferred runAt)
  | .paused => { closed with paused := id :: world.paused }
  | .ignored => closed

def World.enter (world : World) (id : Text) (agent : Option Agent) : World :=
  let left := { world with asked := world.asked.erase id }
  match admission maxConcurrentTasks (agentMax agent) (agentOf id) id world.active with
  | .admitted =>
      { left with
        entered := id :: world.entered
        active := world.active.insert (key agentOf id) 0 }
  | .alreadyRunning | .globalLimit | .agentLimit => left

def World.check (world : World) (id : Text) : World :=
  let left := { world with entered := world.entered.erase id }
  if (world.tasks.get id).any (·.status = .cancelled) then
    { left with closing := id :: world.closing }
  else
    { left with checked := id :: world.checked }

-- A cancellation since the check is written over.
def World.begin (world : World) (id : Text) : World :=
  { world with
    tasks := world.tasks.mark id (.inProgress none)
    checked := world.checked.erase id
    running := id :: world.running }

def mayWrite (tasks : Tasks) (id : Text) (mark : Mark) : Bool :=
  (tasks.get id).any fun row => mark.status = .cancelled || row.kind.isSignal

def step (event : Event) (world : World) : Option World :=
  match event with
  | .ask id => if id ∈ world.tasks.ids then some { world with asked := id :: world.asked } else none
  | .enter id agent =>
      if id ∈ world.asked then some (world.enter agentOf maxConcurrentTasks id agent) else none
  | .check id => if id ∈ world.entered then some (world.check id) else none
  | .begin id => if id ∈ world.checked then some (world.begin id) else none
  | .stop id outcome => if id ∈ world.running then some (world.stop id outcome) else none
  | .write id mark =>
      if mayWrite world.tasks id mark then some { world with tasks := world.tasks.mark id mark } else none
  | .finish id mark =>
      if id ∈ world.tasks.ids ∧ mark.status.isFinished = true then
        some { world with tasks := world.tasks.mark id mark, ending := id :: world.ending }
      else none
  | .query id =>
      if id ∈ world.ending then
        some { world with
          ending := world.ending.erase id
          asked := (resumed chatTask world.tasks id).toList ++ world.asked }
      else none
  | .drop id =>
      if id ∈ world.closing then
        some { world with
          closing := world.closing.erase id
          active := world.active.remove (key agentOf id) }
      else none
  | .resolve id =>
      if id ∈ world.paused then
        some { world with paused := world.paused.erase id, asked := id :: world.asked }
      else none
  | .poll =>
      some { world with
        asked := findDeferredDue world.tasks world.now ++
          (findPendingImmediate world.tasks ++ world.asked) }
  | .create id kind runAt =>
      if id ∉ world.tasks.ids then
        some { world with tasks := world.tasks ++ [(id, Row.created kind runAt)] }
      else none
  | .tick seconds => some { world with now := world.now + seconds }

def Selected (world : World) (id : Text) : Prop :=
  ∃ later ≥ world.now, id ∈ findPendingImmediate world.tasks ∨ id ∈ findDeferredDue world.tasks later

/-- A child that has finished and is still to ask for the task. -/
def due (world : World) (id : Text) : Bool :=
  world.ending.any fun child => asksFor chatTask world.tasks child = some id

/-- No task is stranded. A call of `run_task` that is on its way to the map counts for its task, and so
does the end of a child that is to ask for it. -/
def World.Sound (world : World) : Prop :=
  ∀ entry ∈ world.tasks, ordinary entry.2.kind → entry.2.status.isTerminal = false →
    key agentOf entry.1 ∈ world.active.keys ∨ entry.1 ∈ world.paused ∨
      waiting chatTask world.tasks entry.1 ∨ Selected world entry.1 ∨ entry.1 ∈ world.asked ∨
        due chatTask world entry.1

def World.busy (world : World) : List Text := world.entered ++ world.checked ++ world.running

def attended (world : World) (id : Text) : Bool :=
  id ∈ world.asked || id ∈ world.busy || id ∈ world.paused || waiting chatTask world.tasks id ||
    due chatTask world id

def loose (world : World) (id : Text) : Bool :=
  (world.tasks.get id).any (fun row => ordinary row.kind && row.status = .inProgress) &&
    !attended chatTask world id

/-- A stored task that is in progress is due, or something is waited for that is no template and no
run of one that the restart ends. -/
def Restartable (tasks : Tasks) (paused : List Text) (now : Nat) : Prop :=
  ∀ entry ∈ tasks, ordinary entry.2.kind → entry.2.status = .inProgress →
    orphaned entry.2 ∨ entry.2.runAt.all (· ≤ now) ∨ entry.1 ∈ paused ∨
      ∃ child ∈ tasks, child.2.status.isTerminal = false ∧ child.2.kind.isCron = false ∧
        orphaned child.2 = false ∧ parentOf chatTask child.2.kind = some entry.1

def sparesParent (world : World) (id : Text) : Bool :=
  match world.tasks.get id with
  | none => true
  | some row =>
      (parentOf chatTask row.kind).all fun parent =>
        parent = id || !loose chatTask { world with tasks := world.tasks.mark id .cancelled } parent

def templatesOver (tasks : Tasks) (id : Text) : Bool :=
  (tasks.get id).all fun row => tasks.all fun entry =>
    !entry.2.kind.isCron || !decide (entry.2.kind.sourceChatId = row.kind.sourceChatId) ||
      entry.2.status.isTerminal

def sparesAsked (world : World) (id : Text) : Bool :=
  (asksFor chatTask world.tasks id).all fun parent =>
    !loose chatTask { world with ending := world.ending.erase id } parent

/-- No call for a task in progress is refused unless the task is attended to otherwise, and the last
child of a task in progress that is attended to by no call asks for it. -/
def Event.calm (event : Event) (world : World) : Bool :=
  match event with
  | .enter id agent =>
      admission maxConcurrentTasks (agentMax agent) (agentOf id) id world.active = .admitted ||
        !loose chatTask { world with asked := world.asked.erase id } id
  | .stop id (.completed _) | .stop id (.failed _) | .finish id _ =>
      world.tasks.resumes id || sparesParent chatTask world id
  | .stop id .cancelled => sparesParent chatTask world id
  | .write id mark => !mark.status.isTerminal || sparesParent chatTask world id
  | .query id => templatesOver world.tasks id || sparesAsked chatTask world id
  | .stop id .ignored => !loose chatTask { world with running := world.running.erase id } id
  | _ => true

end Steps

end Frona.Task.Redrive
