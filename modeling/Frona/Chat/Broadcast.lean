import Mathlib.Logic.Function.Basic
import Frona.Machine.Lists
import Frona.Machine.Run

set_option autoImplicit false

namespace Frona.Broadcast

/-- An event of the user, numbered in the order in which the dispatcher receives it. -/
structure Event where
  number : Nat
  isGlobal : Bool
deriving DecidableEq

/-- How far `register_session` is for a sender. -/
inductive Stage where
  | absent
  /-- The buffer, if there was one, is out of the cache. -/
  | holding (buffer : Option Nat)
  | draining (rest : List Event)
  /-- In the queue for the write lock. -/
  | locking
  | added
deriving DecidableEq

inductive Phase where
  | idle
  | received (event : Event)
  | sending (event : Event) (rest : List Nat) (index : Nat) (dead : List Nat)
  | removing (event : Event) (dead : List Nat)
  /-- Before the second read of the registry, with the first guard still held or dropped. -/
  | checking (event : Event) (guarded : Bool)
  | buffering (event : Event)
  /-- The registry has no entry of the user. -/
  | looking (event : Event)
  | pushing (event : Event) (buffer : Nat) (guarded : Bool)
deriving DecidableEq

/-- The dispatcher holds a read guard of the registry. -/
def Phase.guarded : Phase → Bool
  | sending .. | looking _ => true
  | checking _ guarded | pushing _ _ guarded => guarded
  | idle | received _ | removing .. | buffering _ => false

structure Hub where
  registry : Option (List Nat)
  pending : Option Nat
  contents : Nat → List Event
  buffers : Nat
  stage : Nat → Stage
  closed : Nat → Bool
  sent : Nat → List Event
  joined : Nat
  phase : Phase
  count : Nat

inductive Action where
  | receive (isGlobal : Bool)
  /-- The next step of the dispatcher. -/
  | go
  | take
  | drain (sender : Nat)
  | feed (sender : Nat)
  | lock (sender : Nat)
  | add (sender : Nat)
  | close (sender : Nat)

namespace Hub

def start : Hub :=
  { registry := none, pending := none, contents := fun _ => [], buffers := 0
    stage := fun _ => .absent, closed := fun _ => false, sent := fun _ => [], joined := 0
    phase := .idle, count := 0 }

def Blocked (hub : Hub) : Prop := ∃ sender < hub.joined, hub.stage sender = .locking

/-- No registration is in progress. -/
def Quiet (hub : Hub) : Prop := ∀ sender < hub.joined, hub.stage sender = .added

instance (hub : Hub) : Decidable hub.Blocked :=
  inferInstanceAs (Decidable (∃ sender < hub.joined, hub.stage sender = .locking))

instance (hub : Hub) : Decidable hub.Quiet :=
  inferInstanceAs (Decidable (∀ sender < hub.joined, hub.stage sender = .added))

def buffered (hub : Hub) : List Event :=
  match hub.pending with
  | none => []
  | some buffer => hub.contents buffer

def hasLive (hub : Hub) : Bool :=
  match hub.registry with
  | none => false
  | some senders => !senders.isEmpty

def send (sender : Nat) (event : Event) (hub : Hub) : Hub :=
  { hub with
    sent := Function.update hub.sent sender
      (if hub.closed sender then hub.sent sender else hub.sent sender ++ [event]) }

def readRegistry (event : Event) (hub : Hub) : Hub :=
  match hub.registry with
  | some senders => { hub with phase := .sending event senders 0 [] }
  | none => { hub with phase := if event.isGlobal then .idle else .looking event }

def sendNext (event : Event) (sender : Nat) (rest : List Nat) (index : Nat) (dead : List Nat)
    (hub : Hub) : Hub :=
  { hub.send sender event with
    phase := .sending event rest (index + 1)
      (if hub.closed sender then dead ++ [index] else dead) }

-- Failed sends of a global event are ignored.
def finishSends (event : Event) (dead : List Nat) (hub : Hub) : Hub :=
  { hub with
    phase :=
      if event.isGlobal then .idle
      else if dead = [] then .checking event true
      else .removing event dead }

def removeDead (event : Event) (dead : List Nat) (hub : Hub) : Hub :=
  { hub with
    phase := .checking event false
    registry :=
      match hub.registry with
      | none => none
      | some senders =>
          match Machine.swapRemoveAll dead senders with
          | [] => none
          | rest => some rest }

def checkLive (event : Event) (hub : Hub) : Hub :=
  { hub with phase := if hub.hasLive then .idle else .buffering event }

def getBuffer (event : Event) (hub : Hub) : Hub :=
  match hub.pending with
  | some buffer => { hub with phase := .pushing event buffer false }
  | none =>
      { hub with
        pending := some hub.buffers
        contents := Function.update hub.contents hub.buffers []
        buffers := hub.buffers + 1
        phase := .pushing event hub.buffers false }

def lookForBuffer (event : Event) (hub : Hub) : Hub :=
  match hub.pending with
  | some buffer => { hub with phase := .pushing event buffer true }
  | none => { hub with phase := .idle }

def push (event : Event) (buffer : Nat) (hub : Hub) : Hub :=
  { hub with
    contents := Function.update hub.contents buffer (hub.contents buffer ++ [event])
    phase := .idle }

/-- One step of `run_dispatcher`. -/
def go (hub : Hub) : Option Hub :=
  match hub.phase with
  | .idle => none
  | .received event => if hub.Blocked then none else some (hub.readRegistry event)
  | .sending event (sender :: rest) index dead => some (hub.sendNext event sender rest index dead)
  | .sending event [] _ dead => some (hub.finishSends event dead)
  | .removing event dead => some (hub.removeDead event dead)
  | .checking event _ => if hub.Blocked then none else some (hub.checkLive event)
  | .buffering event => some (hub.getBuffer event)
  | .looking event => some (hub.lookForBuffer event)
  | .pushing event buffer _ => some (hub.push event buffer)

def move (sender : Nat) (stage : Stage) (hub : Hub) : Hub :=
  { hub with stage := Function.update hub.stage sender stage }

def drain (sender : Nat) (hub : Hub) : Option Hub :=
  match hub.stage sender with
  | .holding (some buffer) =>
      some { hub.move sender (.draining (hub.contents buffer)) with
        contents := Function.update hub.contents buffer [] }
  | _ => none

def feed (sender : Nat) (hub : Hub) : Option Hub :=
  match hub.stage sender with
  | .draining (event :: rest) => some ((hub.send sender event).move sender (.draining rest))
  | _ => none

def lock (sender : Nat) (hub : Hub) : Option Hub :=
  match hub.stage sender with
  | .holding none | .draining [] => some (hub.move sender .locking)
  | _ => none

def add (sender : Nat) (hub : Hub) : Option Hub :=
  if hub.stage sender = .locking ∧ hub.phase.guarded = false then
    some { hub.move sender .added with registry := some (hub.registry.getD [] ++ [sender]) }
  else none

def step (action : Action) (hub : Hub) : Option Hub :=
  match action with
  | .receive isGlobal =>
      if hub.phase = .idle then
        some { hub with
          phase := .received { number := hub.count, isGlobal }
          count := hub.count + 1 }
      else none
  | .go => hub.go
  | .take =>
      some { hub.move hub.joined (.holding hub.pending) with
        pending := none
        joined := hub.joined + 1 }
  | .drain sender => hub.drain sender
  | .feed sender => hub.feed sender
  | .lock sender => hub.lock sender
  | .add sender => hub.add sender
  | .close sender => some { hub with closed := Function.update hub.closed sender true }

end Hub

structure Ledger where
  expected : Nat → List Event
  /-- The undelivered events, for the next sender to register. -/
  waiting : List Event
  /-- An undelivered event has been buffered. -/
  armed : Bool
  /-- The waiting event that the dispatcher has not stored yet. -/
  loose : Option Event

namespace Ledger

def start : Ledger := { expected := fun _ => [], waiting := [], armed := false, loose := none }

def announce (event : Event) (hub : Hub) (ledger : Ledger) : Ledger :=
  { ledger with
    expected := fun sender =>
      if hub.stage sender = .added then ledger.expected sender ++ [event]
      else ledger.expected sender }

def wait (event : Event) (ledger : Ledger) : Ledger :=
  { ledger with waiting := ledger.waiting ++ [event], armed := true, loose := some event }

def noteGo (hub : Hub) (ledger : Ledger) : Ledger :=
  match hub.phase with
  | .received event =>
      if hub.registry = none ∧ event.isGlobal = false ∧ ledger.armed = true then
        (ledger.announce event hub).wait event
      else ledger.announce event hub
  | .sending event [] index dead =>
      if event.isGlobal = false ∧ dead.length = index then ledger.wait event else ledger
  | .pushing .. => { ledger with loose := none }
  | _ => ledger

def note (action : Action) (hub : Hub) (ledger : Ledger) : Ledger :=
  match action with
  | .go => ledger.noteGo hub
  | .take =>
      { ledger with
        expected := Function.update ledger.expected hub.joined ledger.waiting
        waiting := [] }
  | _ => ledger

end Ledger

structure World where
  hub : Hub
  ledger : Ledger

def World.start : World := { hub := .start, ledger := .start }

def step (action : Action) (world : World) : Option World :=
  match world.hub.step action with
  | none => none
  | some hub => some { hub, ledger := world.ledger.note action world.hub }

def Ascending (events : List Event) : Prop :=
  events.Pairwise (fun earlier later => earlier.number < later.number)

/-- What the streams are to keep in every state. -/
structure World.Sound (world : World) : Prop where
  running : ∀ event, world.hub.phase = .checking event true → ¬ world.hub.Blocked
  order : ∀ sender, Ascending (world.hub.sent sender)
  delivered : world.hub.phase = .idle → ∀ sender, world.hub.stage sender = .added →
    world.hub.closed sender = false → world.hub.sent sender = world.ledger.expected sender
  drained : ∀ sender, world.hub.stage sender = .locking →
    world.hub.sent sender = world.ledger.expected sender
  buffered : world.hub.phase = .idle → world.hub.buffered = world.ledger.waiting

def World.CalmGo (world : World) : Prop :=
  match world.hub.phase with
  | .received event =>
      world.hub.registry = none → event.isGlobal = false → world.ledger.armed = true →
        world.hub.Quiet
  | .sending event [] index dead =>
      event.isGlobal = false →
        (dead.length = index → world.hub.Quiet) ∧ (dead = [] → ¬ world.hub.Blocked)
  | _ => True

def World.CalmFeed (world : World) (sender : Nat) : Prop :=
  match world.hub.stage sender with
  | .draining (_ :: _) => world.hub.closed sender = false
  | _ => True

def World.CalmLock (world : World) : Prop :=
  match world.hub.phase with
  | .checking _ true => False
  | _ => True

def Calm (action : Action) (world : World) : Prop :=
  match action with
  | .go => world.CalmGo
  | .take => world.ledger.loose = none
  | .feed sender => world.CalmFeed sender
  | .lock _ => world.CalmLock
  | _ => True

instance (world : World) : Decidable world.CalmGo := by
  unfold World.CalmGo
  split <;> infer_instance

instance (world : World) (sender : Nat) : Decidable (world.CalmFeed sender) := by
  unfold World.CalmFeed
  split <;> infer_instance

instance (world : World) : Decidable world.CalmLock := by
  unfold World.CalmLock
  split <;> infer_instance

instance : DecidableRel Calm
  | .go, world => inferInstanceAs (Decidable world.CalmGo)
  | .take, world => inferInstanceAs (Decidable (world.ledger.loose = none))
  | .feed sender, world => inferInstanceAs (Decidable (world.CalmFeed sender))
  | .lock _, world => inferInstanceAs (Decidable world.CalmLock)
  | .receive _, _ | .drain _, _ | .add _, _ | .close _, _ => isTrue trivial

end Frona.Broadcast
