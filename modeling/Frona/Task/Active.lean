import Frona.Machine.Run
import Frona.Text.Utf8

set_option autoImplicit false

namespace Frona.Task

open Utf8 (Text)

def activeKey (agentId taskId : Text) : Text := agentId ++ ':' :: taskId

/-- The entries of `active_tasks`: a key and its cancellation token. -/
abbrev ActiveTasks := List (Text × Nat)

def ActiveTasks.keys (active : ActiveTasks) : List Text := active.map Prod.fst

def ActiveTasks.get (active : ActiveTasks) (key : Text) : Option Nat :=
  (active.find? (fun entry => entry.1 = key)).map Prod.snd

def ActiveTasks.remove (active : ActiveTasks) (key : Text) : ActiveTasks :=
  active.filter (fun entry => entry.1 ≠ key)

def ActiveTasks.insert (active : ActiveTasks) (key : Text) (token : Nat) : ActiveTasks :=
  (key, token) :: active.remove key

def ActiveTasks.ofAgent (active : ActiveTasks) (agentId : Text) : List Text :=
  active.keys.filter (fun key => (agentId ++ [':']).isPrefixOf key)

structure Agent where
  maxConcurrentTasks : Option Nat

-- A read that fails counts as an agent that does not exist.
def agentMax (agent : Option Agent) : Nat :=
  (agent.bind Agent.maxConcurrentTasks).getD 3

inductive Admission where
  | alreadyRunning
  | globalLimit
  | agentLimit
  | admitted
deriving DecidableEq

/-- The checks of `run_task` under the lock. -/
def admission (maxConcurrentTasks agentMax : Nat) (agentId taskId : Text)
    (active : ActiveTasks) : Admission :=
  if activeKey agentId taskId ∈ active.keys then .alreadyRunning
  else if active.length ≥ maxConcurrentTasks then .globalLimit
  else if (active.ofAgent agentId).length ≥ agentMax then .agentLimit
  else .admitted

/-- A call of `run_task`, with the maximum that it has read and the token that it has made. -/
structure Turn where
  taskId : Text
  agentMax : Nat
  token : Nat
deriving DecidableEq

structure Executor where
  /-- The calls before the lock. -/
  asked : List Turn
  /-- The calls in `execute_task`, the last one to enter first. -/
  executing : List Turn
  /-- The keys whose guard is dropped and whose removal has not run. -/
  dropped : List Text
  /-- The tasks of the turns of `run_with_injected_message`. -/
  injected : List Text
  active : ActiveTasks
  /-- The keys of `register_cancellation` that are not unregistered. -/
  registered : List Text
  /-- The number of tokens made. -/
  tokens : Nat
deriving DecidableEq

inductive ExecutorEvent where
  | ask (taskId : Text) (agent : Option Agent)
  | enter (token : Nat)
  | finish (token : Nat)
  | remove (key : Text)
  | register (agentId taskId : Text) (token : Nat)
  | unregister (agentId taskId : Text)
  | inject (taskId : Text)
  | settle (taskId : Text)

namespace Executor

section Executor

-- The agent in a task's row: no update changes it.
variable (agentOf : Text → Text) (maxConcurrentTasks : Nat)

def turnKey (turn : Turn) : Text := activeKey (agentOf turn.taskId) turn.taskId

def start : Executor :=
  { asked := [], executing := [], dropped := [], injected := [], active := [], registered := []
    tokens := 0 }

def enter (turn : Turn) (executor : Executor) : Executor :=
  let rest := { executor with asked := executor.asked.erase turn }
  match admission maxConcurrentTasks turn.agentMax (agentOf turn.taskId) turn.taskId
      executor.active with
  | .admitted =>
      { rest with
        executing := turn :: executor.executing
        active := executor.active.insert (turnKey agentOf turn) turn.token }
  | .alreadyRunning | .globalLimit | .agentLimit => rest

def step : ExecutorEvent → Executor → Option Executor
  | .ask taskId agent, executor =>
      some { executor with
        asked := { taskId, agentMax := agentMax agent, token := executor.tokens } :: executor.asked
        tokens := executor.tokens + 1 }
  | .enter token, executor =>
      match executor.asked.find? (fun turn => turn.token = token) with
      | none => none
      | some turn => some (enter agentOf maxConcurrentTasks turn executor)
  | .finish token, executor =>
      match executor.executing.find? (fun turn => turn.token = token) with
      | none => none
      | some turn => some { executor with
          executing := executor.executing.erase turn
          dropped := turnKey agentOf turn :: executor.dropped }
  | .remove key, executor =>
      if key ∈ executor.dropped then
        some { executor with
          dropped := executor.dropped.erase key
          active := executor.active.remove key }
      else none
  | .register agentId taskId token, executor =>
      some { executor with
        active := executor.active.insert (activeKey agentId taskId) token
        registered := activeKey agentId taskId :: executor.registered }
  | .unregister agentId taskId, executor =>
      some { executor with
        active := executor.active.remove (activeKey agentId taskId)
        registered := executor.registered.filter (· ≠ activeKey agentId taskId) }
  | .inject taskId, executor => some { executor with injected := taskId :: executor.injected }
  | .settle taskId, executor =>
      if taskId ∈ executor.injected then
        some { executor with injected := executor.injected.erase taskId }
      else none

end Executor

end Executor

section Map

variable (active : ActiveTasks) (key other : Text) (token : Nat)

@[simp] theorem ActiveTasks.mem_remove (entry : Text × Nat) :
    entry ∈ active.remove key ↔ entry ∈ active ∧ entry.1 ≠ key := by
  simp [ActiveTasks.remove]

@[simp] theorem ActiveTasks.keys_remove :
    (active.remove key).keys = active.keys.filter (· ≠ key) := by
  induction active with
  | nil => rfl
  | cons entry rest ih =>
      simp only [ActiveTasks.keys, ActiveTasks.remove] at ih ⊢
      by_cases same : entry.1 = key
      next => simpa [same] using ih
      next => simpa [same] using ih

@[simp] theorem ActiveTasks.keys_insert :
    (active.insert key token).keys = key :: active.keys.filter (· ≠ key) := by
  rw [← ActiveTasks.keys_remove]
  rfl

@[simp] theorem ActiveTasks.mem_insert (entry : Text × Nat) :
    entry ∈ active.insert key token ↔
      entry = (key, token) ∨ (entry ∈ active ∧ entry.1 ≠ key) := by
  simp [ActiveTasks.insert]

theorem ActiveTasks.mem_ofAgent (agentId taskId : Text)
    (present : activeKey agentId taskId ∈ active.keys) :
    activeKey agentId taskId ∈ active.ofAgent agentId := by
  rw [ActiveTasks.ofAgent, List.mem_filter, List.isPrefixOf_iff_prefix]
  exact ⟨present, taskId, by simp [activeKey]⟩

end Map

theorem admission_admitted {maxConcurrentTasks agentMax : Nat} {agentId taskId : Text}
    {active : ActiveTasks}
    (passes : admission maxConcurrentTasks agentMax agentId taskId active = .admitted) :
    activeKey agentId taskId ∉ active.keys ∧ active.length < maxConcurrentTasks ∧
      (active.ofAgent agentId).length < agentMax := by
  unfold admission at passes
  split at passes
  next => cases passes
  next absent =>
    split at passes
    next => cases passes
    next few =>
      split at passes
      next => cases passes
      next fewer => exact ⟨absent, by omega, by omega⟩

end Frona.Task
