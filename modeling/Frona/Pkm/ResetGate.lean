import Frona.Machine.Run
import Frona.Text.Utf8
import Mathlib.Logic.Function.Basic

set_option autoImplicit false

namespace Frona.Pkm

open Utf8 (Text)

inductive PkmResetState where
  | pending | running | failed
  deriving DecidableEq

structure PkmResetStatus where
  requestId : Nat
  state : PkmResetState
  requestedAt : Nat
  startedAt : Option Nat
  error : Option Text
  deriving DecidableEq

section Store

-- The row of the user, if there is one.
variable (row : Option PkmResetStatus)

def newRequest (requestId now : Nat) : PkmResetStatus where
  requestId := requestId
  state := .pending
  requestedAt := now
  startedAt := none
  error := none

def joined : Option PkmResetStatus := row.filter fun status => status.state ≠ .failed

def named (requestId : Nat) : Option PkmResetStatus :=
  row.filter fun status => status.requestId = requestId

def claim (requestId now : Nat) : Option PkmResetStatus :=
  ((named row requestId).filter fun status => status.state = .pending).map fun status =>
    { status with state := .running, startedAt := some now, error := none }

def failed (requestId : Nat) (error : Text) : Option PkmResetStatus :=
  (named row requestId).map fun status => { status with state := .failed, error := some error }

def completes (requestId : Nat) : Bool :=
  ((named row requestId).filter fun status => status.state = .running).isSome

def requeued (status : PkmResetStatus) : Option PkmResetStatus :=
  if status.state = .running ∧ row = some status then
    some { status with state := .pending, startedAt := none, error := none }
  else none

end Store

inductive ResetCall where
  | idle
  | requesting
  | requested (status : PkmResetStatus)
  | accepted (status : PkmResetStatus)
  | listing
  | listed (status : PkmResetStatus)
  | rescheduling (status : PkmResetStatus)
  | recovering
  | recovered (status : PkmResetStatus)
  | resuming (status : PkmResetStatus)
  | claiming (requestId : Nat)
  | claimed (requestId : Nat)
  | blocking (requestId : Nat)
  | waiting (requestId : Nat)
  | holding (requestId : Nat)
  | wiped (requestId : Nat)
  | completing (requestId : Nat)
  | completed
  | failing (requestId : Nat) (error : Text)
  | dropping
  | writing (began : Nat)
  deriving DecidableEq

/--
`reset_barrier` is a fair lock: it has readers or one writer, and no reader gets in once a writer
waits. `wipes` counts the resets of the tables, and `commits` pairs the count at which a write
operation began with the one at which it committed something.
-/
structure ResetWorld where
  row : Option PkmResetStatus
  nextId : Nat
  blocked : Bool
  consolidation : Option Nat
  readers : List Nat
  queue : List Nat
  resetter : Option Nat
  wipes : Nat
  commits : List (Nat × Nat)
  spawned : List Nat
  calls : Nat → ResetCall

namespace ResetWorld

variable (world : ResetWorld) (id : Nat)

def goOn (call : ResetCall) : ResetWorld :=
  { world with calls := Function.update world.calls id call }

def finish : ResetWorld :=
  { world with
    calls := Function.update world.calls id .idle
    consolidation := if world.consolidation = some id then none else world.consolidation
    readers := world.readers.filter fun reader => reader ≠ id
    resetter := if world.resetter = some id then none else world.resetter }

def markResetPending : ResetWorld := { world with blocked := true }

def clearReset : ResetWorld := { world with blocked := false }

/-- `reset_blocked`, or `try_read_owned` fails. -/
def refusesWrites : Bool :=
  world.blocked || (world.resetter.isSome || !world.queue.isEmpty)

/-- `try_begin_write`. -/
def tryBeginWrite : Option ResetWorld :=
  if world.refusesWrites then none
  else some { world.goOn id (.writing world.wipes) with readers := id :: world.readers }

/-- `try_begin_consolidation`: the same gate, and a lock of its own. -/
def tryBeginConsolidation : Option ResetWorld :=
  if world.consolidation.isSome then none
  else (world.tryBeginWrite id).map fun next => { next with consolidation := some id }

/-- `write_owned` has to wait for every reader, and for its turn. -/
def acquire (requestId : Nat) : Option ResetWorld :=
  if world.readers = [] ∧ world.resetter = none ∧ world.queue.head? = some id then
    some { world.goOn id (.holding requestId) with
      queue := world.queue.filter fun waiter => waiter ≠ id
      resetter := some id }
  else none

def spawnReset (requestId : Nat) : ResetWorld :=
  { world with spawned := world.spawned ++ [requestId] }

def waitFailed : Text := "Timed out while waiting for active PKM work to stop".toList

def timeOut (requestId : Nat) : ResetWorld :=
  { world.goOn id (.failing requestId waitFailed) with
    queue := world.queue.filter fun waiter => waiter ≠ id }

/-- `request_reset`, step by step; the route spawns the reset when it returns. -/
def requestStep (now : Nat) : ResetWorld :=
  match joined world.row with
  | some status => world.goOn id (.requested status)
  | none =>
      let status := newRequest world.nextId now
      { world.goOn id (.requested status) with row := some status, nextId := world.nextId + 1 }

def claimStep (requestId now : Nat) : ResetWorld :=
  match claim world.row requestId now with
  | none => world.finish id
  | some running => { world.goOn id (.claimed requestId) with row := some running }

def completeStep (requestId : Nat) : ResetWorld :=
  if completes world.row requestId then { world.goOn id .completed with row := none }
  else world.goOn id .dropping

def failStep (requestId : Nat) (error : Text) : ResetWorld :=
  match failed world.row requestId error with
  | none => world.goOn id .dropping
  | some status => { world.goOn id .dropping with row := some status }

-- Only a request that was running is written back.
def resumeStep (status : PkmResetStatus) (outcome : Except Text Unit) : ResetWorld :=
  match status.state, outcome with
  | .failed, _ | .running, .error _ => world.finish id
  | .pending, _ => (world.finish id).spawnReset status.requestId
  | .running, .ok _ =>
      match requeued world.row status with
      | none => world.finish id
      | some pending =>
          { (world.finish id).spawnReset status.requestId with row := some pending }

def listStep (next : PkmResetStatus → ResetCall) : ResetWorld :=
  match world.row with
  | none => world.finish id
  | some status => world.goOn id (next status)

def turn (now : Nat) (outcome : Except Text Unit) : Option ResetWorld :=
  match world.calls id, outcome with
  | .idle, _ | .writing _, _ => none
  | .requesting, .ok _ => some (world.requestStep id now)
  | .requesting, .error _ => some (world.finish id)
  | .requested status, _ => some (world.markResetPending.goOn id (.accepted status))
  | .accepted status, _ => some ((world.finish id).spawnReset status.requestId)
  | .listing, .ok _ => some (world.listStep id .listed)
  | .listing, .error _ => some (world.finish id)
  | .listed status, _ => some (world.markResetPending.goOn id (.rescheduling status))
  | .rescheduling status, _ =>
      if status.state = .pending then some ((world.finish id).spawnReset status.requestId)
      else some (world.finish id)
  | .recovering, .ok _ => some (world.listStep id .recovered)
  | .recovering, .error _ => some (world.finish id)
  | .recovered status, _ => some (world.markResetPending.goOn id (.resuming status))
  | .resuming status, _ => some (world.resumeStep id status outcome)
  | .claiming requestId, .ok _ => some (world.claimStep id requestId now)
  | .claiming _, .error _ => some (world.finish id)
  | .claimed requestId, _ => some (world.markResetPending.goOn id (.blocking requestId))
  | .blocking requestId, _ =>
      some { world.markResetPending.goOn id (.waiting requestId) with
        queue := world.queue ++ [id] }
  | .waiting requestId, .ok _ => world.acquire id requestId
  | .waiting requestId, .error _ => some (world.timeOut id requestId)
  | .holding requestId, .ok _ =>
      some { world.goOn id (.wiped requestId) with wipes := world.wipes + 1 }
  | .holding requestId, .error text => some (world.goOn id (.failing requestId text))
  | .wiped requestId, .ok _ => some (world.goOn id (.completing requestId))
  | .wiped requestId, .error text => some (world.goOn id (.failing requestId text))
  | .completing requestId, .ok _ => some (world.completeStep id requestId)
  | .completing _, .error _ => some (world.goOn id .dropping)
  | .completed, _ => some (world.clearReset.goOn id .dropping)
  | .failing requestId text, .ok _ => some (world.failStep id requestId text)
  | .failing _ _, .error _ => some (world.goOn id .dropping)
  | .dropping, _ => some (world.finish id)

def begin (call : ResetCall) : Option ResetWorld :=
  if world.calls id = .idle then some (world.goOn id call) else none

end ResetWorld

inductive ResetAction where
  | requestReset (id : Nat)
  | spawnPending (id : Nat)
  | recover (id : Nat)
  | process (id requestId : Nat)
  | turn (id now : Nat) (outcome : Except Text Unit)
  | write (id : Nat)
  | consolidate (id : Nat)
  | commit (id : Nat)
  | returns (id : Nat)

def resetStep (action : ResetAction) (world : ResetWorld) : Option ResetWorld :=
  match action with
  | .requestReset id => world.begin id .requesting
  | .spawnPending id => world.begin id .listing
  | .recover id => world.begin id .recovering
  | .process id requestId =>
      if requestId ∈ world.spawned then
        ({ world with spawned := world.spawned.erase requestId }).begin id (.claiming requestId)
      else none
  | .turn id now outcome => world.turn id now outcome
  | .write id => if world.calls id = .idle then world.tryBeginWrite id else none
  | .consolidate id => if world.calls id = .idle then world.tryBeginConsolidation id else none
  | .commit id =>
      match world.calls id with
      | .writing began => some { world with commits := world.commits ++ [(began, world.wipes)] }
      | _ => none
  | .returns id =>
      match world.calls id with
      | .writing _ => some (world.finish id)
      | _ => none

end Frona.Pkm
