import Frona.Machine.Run
import Frona.Task.Active
import Frona.Task.Rows

set_option autoImplicit false

namespace Frona.Task

open Utf8 (Text)

def TaskStatus.isFinished : TaskStatus → Bool
  | completed | failed => true
  | pending | inProgress | cancelled => false

def TaskKind.template : TaskKind → Option Text
  | cronRun sourceCronId _ => some sourceCronId
  | direct _ | delegation .. | cron .. | signal .. => none

/-- The tasks of one chat by id, as `find_by_source_chat_id` returns them. -/
abbrev Tasks := List (Text × Row)

namespace Tasks

variable (tasks : Tasks)

def ids : List Text := tasks.map Prod.fst

def get (id : Text) : Option Row := (tasks.find? (fun entry => entry.1 = id)).map Prod.snd

def mark (id : Text) (mark : Mark) : Tasks :=
  tasks.map (fun entry => (entry.1, if entry.1 = id then mark.apply entry.2 else entry.2))

def requestsResume : TaskKind → Bool
  | .delegation _ resumeParent | .signal _ resumeParent => resumeParent
  | .cronRun sourceCronId (some _) =>
      match (tasks.get sourceCronId).map Row.kind with
      | some (.cron _ processResult) => processResult
      | _ => false
  | .cronRun _ none | .direct _ | .cron .. => false

def resumes (id : Text) : Bool :=
  match tasks.get id with
  | none => false
  | some row => tasks.requestsResume row.kind

def allDone : Bool := tasks.all (fun entry => entry.2.status.isTerminal)

def finished : List Text :=
  (tasks.filter (fun entry => entry.2.status.isFinished)).map Prod.fst

end Tasks

inductive Parent where
  | userChat
  | taskChat (agentId taskId : Text)

inductive Finishing where
  | delivering (id : Text)
  | checking (id : Text)
  | querying (id : Text)
  | resuming (id : Text)
deriving DecidableEq

def Finishing.id : Finishing → Text
  | delivering id | checking id | querying id | resuming id => id

structure Resume where
  finished : List Text
  undelivered : List Text
deriving DecidableEq

structure Siblings where
  tasks : Tasks
  endings : List Finishing
  delivered : List Text
  -- Those that were marked and have nothing to deliver.
  stopped : List Text
  /-- The last one first. -/
  resumed : List Resume
deriving DecidableEq

namespace Siblings

inductive Event where
  | delegate (id : Text) (kind : TaskKind)
  -- A `mark_*` of the service; a completion or a failure begins the child's end.
  | write (id : Text) (mark : Mark)
  -- A `mark_*` and nothing else: a signal that is past its time or its budget, or a run that a restart
  -- has interrupted.
  | stop (id : Text) (mark : Mark)
  -- The ends that are on their way are lost.
  | restart
  | deliver (index : Nat)
  | check (index : Nat)
  | query (index : Nat)
  -- The parent's agent and the active tasks are those of the moment.
  | resume (index : Nat) (agent : Option Agent) (active : ActiveTasks)

def start : Siblings :=
  { tasks := [], endings := [], delivered := [], stopped := [], resumed := [] }

section Siblings

variable (chat : Text) (parent : Parent) (maxConcurrentTasks : Nat)

-- A run of a cron task is made from its template.
def mayDelegate (siblings : Siblings) (id : Text) (kind : TaskKind) : Prop :=
  kind.sourceChatId = some chat ∧ id ∉ siblings.tasks.ids ∧
    ∀ template ∈ kind.template, template ∈ siblings.tasks.ids

instance (siblings : Siblings) (id : Text) (kind : TaskKind) :
    Decidable (mayDelegate chat siblings id kind) :=
  inferInstanceAs (Decidable (kind.sourceChatId = some chat ∧ id ∉ siblings.tasks.ids ∧
    ∀ template ∈ kind.template, template ∈ siblings.tasks.ids))

-- Only signals and runs of cron tasks are stopped without an end.
def mayStop (siblings : Siblings) (id : Text) (mark : Mark) : Prop :=
  mark.status.isFinished = true ∧
    (siblings.tasks.get id).any (fun row => row.kind.isSignal || row.kind.isCronRun) = true

instance (siblings : Siblings) (id : Text) (mark : Mark) : Decidable (mayStop siblings id mark) :=
  inferInstanceAs (Decidable (_ ∧ _))

/-- A user's chat always goes on; a task has to be admitted by `run_task`. -/
def admitted (agent : Option Agent) (active : ActiveTasks) : Bool :=
  match parent with
  | .userChat => true
  | .taskChat agentId taskId =>
      admission maxConcurrentTasks (agentMax agent) agentId taskId active = .admitted

def write (id : Text) (mark : Mark) (siblings : Siblings) : Siblings :=
  { siblings with
    tasks := siblings.tasks.mark id mark
    endings :=
      if mark.status.isFinished then siblings.endings ++ [.delivering id] else siblings.endings }

def stop (id : Text) (mark : Mark) (siblings : Siblings) : Siblings :=
  { siblings with tasks := siblings.tasks.mark id mark, stopped := id :: siblings.stopped }

def record (siblings : Siblings) : Resume :=
  { finished := siblings.tasks.finished
    undelivered := siblings.tasks.finished.filter fun id =>
      id ∉ siblings.delivered ∧ id ∉ siblings.stopped }

def step : Event → Siblings → Option Siblings
  | .delegate id kind, siblings =>
      if mayDelegate chat siblings id kind then
        some { siblings with tasks := siblings.tasks ++ [(id, Row.created kind none)] }
      else none
  | .write id mark, siblings =>
      if id ∈ siblings.tasks.ids then some (siblings.write id mark) else none
  | .stop id mark, siblings =>
      if mayStop siblings id mark then some (siblings.stop id mark) else none
  | .restart, siblings => some { siblings with endings := [] }
  | .deliver index, siblings =>
      match siblings.endings[index]? with
      | some (.delivering id) =>
          some { siblings with
            endings := siblings.endings.set index (.checking id)
            delivered := id :: siblings.delivered }
      | _ => none
  -- `resume_parent_if_requested`
  | .check index, siblings =>
      match siblings.endings[index]? with
      | some (.checking id) =>
          some { siblings with
            endings :=
              if siblings.tasks.resumes id then siblings.endings.set index (.querying id)
              else siblings.endings.eraseIdx index }
      | _ => none
  -- `check_and_resume_parent`
  | .query index, siblings =>
      match siblings.endings[index]? with
      | some (.querying id) =>
          some { siblings with
            endings :=
              if siblings.tasks.allDone then siblings.endings.set index (.resuming id)
              else siblings.endings.eraseIdx index }
      | _ => none
  | .resume index agent active, siblings =>
      match siblings.endings[index]? with
      | some (.resuming _) =>
          some { siblings with
            endings := siblings.endings.eraseIdx index
            resumed :=
              if admitted parent maxConcurrentTasks agent active then
                siblings.record :: siblings.resumed
              else siblings.resumed }
      | _ => none

end Siblings

def Settled (tasks : Tasks) : Prop :=
  ∀ entry ∈ tasks, entry.2.kind.isCron = false → entry.2.status.isTerminal = true

def Covered (siblings : Siblings) : Prop :=
  ∀ entry ∈ siblings.tasks, siblings.tasks.requestsResume entry.2.kind = true →
    entry.2.status.isFinished = true →
      ∃ resume ∈ siblings.resumed, entry.1 ∈ resume.finished

/-- What a parent that waits for its children is promised. -/
structure Sound (siblings : Siblings) : Prop where
  resumed : siblings.endings = [] → Settled siblings.tasks → siblings.Covered
  delivered : ∀ resume ∈ siblings.resumed, resume.undelivered = []
  once : siblings.resumed.Pairwise (fun later earlier =>
    ¬ ∀ id, id ∈ later.finished ↔ id ∈ earlier.finished)

instance (tasks : Tasks) : Decidable (Settled tasks) :=
  inferInstanceAs (Decidable (∀ entry ∈ tasks, entry.2.kind.isCron = false →
    entry.2.status.isTerminal = true))

instance (siblings : Siblings) : Decidable siblings.Covered :=
  inferInstanceAs (Decidable (∀ entry ∈ siblings.tasks,
    siblings.tasks.requestsResume entry.2.kind = true → entry.2.status.isFinished = true →
      ∃ resume ∈ siblings.resumed, entry.1 ∈ resume.finished))

end Siblings

def Finishing.Silent (tasks : Tasks) : Finishing → Prop
  | .checking id => tasks.resumes id = false
  | .delivering _ | .querying _ | .resuming _ => False

instance (tasks : Tasks) : DecidablePred (Finishing.Silent tasks)
  | .checking id => inferInstanceAs (Decidable (tasks.resumes id = false))
  | .delivering _ | .querying _ | .resuming _ => inferInstanceAs (Decidable False)

end Frona.Task
