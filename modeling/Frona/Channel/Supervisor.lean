import Frona.Channel.Rows
import Frona.Machine.Run
import Mathlib.Logic.Function.Basic

set_option autoImplicit false

namespace Frona.ChannelSupervisor

open Utf8 (Text)
open Frona.ChannelService (Channel ChannelCall SetupConfig)

section Manager

inductive FailureKind where
  | transient
  | terminal
  deriving DecidableEq

inductive ChannelSignal where
  | setupReady (config : SetupConfig)
  | linked
  | connected
  | disconnected (kind : FailureKind) (reason : Text)
  deriving DecidableEq

/-- Where `run` is: at what it awaits next. -/
inductive Phase where
  /-- `find_by_id`, at the head of the loop. -/
  | opening
  | marking
  | building
  /-- `on_connect`, with the adapter published. -/
  | connecting
  | waiting
  | connected
  /-- What follows `Connected`: the setup is cleared, and the deliveries are resumed. -/
  | clearing
  | maintaining
  | tearing (kind : FailureKind) (reason : Text)
  | failing (reason : Text)
  | retrying (reason : Text)
  | pausing
  /-- The teardown of a manager that was cancelled, and `finish_stopped`. -/
  | stopping
  | disconnecting
  /-- The last `clear_setup`. -/
  | finishing
  /-- Whether `run` got as far as its last write. -/
  | ended (settled : Bool)
  deriving DecidableEq

def Phase.isEnded : Phase → Bool
  | .ended _ => true
  | _ => false

inductive Input where
  | done (now : Int)
  | error (reason : Text)
  | signal (signal : ChannelSignal) (now : Int) (written : Bool)
  | closed
  | deadline
  | cancelled
  deriving DecidableEq

structure ChannelManager where
  channelId : Text
  phase : Phase
  attempt : Nat
  live : Bool
  /-- `stop` has taken it out of the map. -/
  stopped : Bool
  cancelled : Bool
  /-- The task of its slot guard has run. -/
  released : Bool
  /-- The row as the write that comes next has read it. -/
  seen : Option Channel

namespace ChannelManager

def new (channelId : Text) : ChannelManager :=
  ⟨channelId, .opening, 0, false, false, false, false, none⟩

variable (manager : ChannelManager)

def goTo (phase : Phase) : ChannelManager := { manager with phase }

/-- A signal before `Connected`, or after it: what it writes and where it leads. -/
def onSignal (signal : ChannelSignal) (now : Int) (written : Bool) :
    ChannelManager × Option ChannelCall :=
  match signal with
  | .setupReady config => (manager, if written then some (.setSetup config now) else none)
  | .linked => (manager, if written then some (.clearSetup now) else none)
  | .connected =>
      (if manager.phase = .waiting then manager.goTo .connected else manager, none)
  | .disconnected kind reason => (manager.goTo (.tearing kind reason), none)

/-- The next step of `run`, with the write that it makes on the row, if that succeeds. -/
def advance (shutdown : Bool) (input : Input) : Option (ChannelManager × Option ChannelCall) :=
  match manager.phase, input with
  | .opening, .done _ => some (manager.goTo .marking, none)
  | .opening, .error _ => some (manager.goTo (.ended false), none)
  | .marking, .done now => some (manager.goTo .building, some (.markStatus .connecting none now))
  | .marking, .error _ => some (manager.goTo .building, none)
  | .building, .done _ => some ({ manager with phase := .connecting, live := true }, none)
  | .building, .error reason => some (manager.goTo (.failing reason), none)
  | .connecting, .done _ => some (manager.goTo .waiting, none)
  | .connecting, .error reason =>
      some (manager.goTo (.tearing .terminal ("on_connect: ".toList ++ reason)), none)
  | .waiting, .signal signal now written | .maintaining, .signal signal now written =>
      some (manager.onSignal signal now written)
  | .waiting, .closed | .maintaining, .closed =>
      some (manager.goTo (.tearing .transient "signal channel closed".toList), none)
  | .waiting, .deadline => some (manager.goTo (.tearing .transient "ready timeout".toList), none)
  | .waiting, .cancelled | .maintaining, .cancelled =>
      if manager.cancelled || shutdown then some (manager.goTo .stopping, none) else none
  | .connected, .done now => some (manager.goTo .clearing, some (.markStatus .connected none now))
  | .connected, .error _ => some (manager.goTo .clearing, none)
  | .clearing, .done now =>
      some ({ manager with phase := .maintaining, attempt := 0 }, some (.clearSetup now))
  | .clearing, .error _ => some ({ manager with phase := .maintaining, attempt := 0 }, none)
  | .tearing kind reason, .done _ =>
      some ({ manager with
        phase := if kind = .terminal then .failing reason else .retrying reason
        live := false }, none)
  | .failing reason, .done now =>
      some (manager.goTo .finishing, some (.markStatus .failed (some reason) now))
  | .failing _, .error _ => some (manager.goTo .finishing, none)
  | .retrying reason, .done now =>
      some ({ manager with phase := .pausing, attempt := min (manager.attempt + 1) (2 ^ 32 - 1) },
        some (.markStatus .reconnecting (some reason) now))
  | .retrying _, .error _ =>
      some ({ manager with phase := .pausing, attempt := min (manager.attempt + 1) (2 ^ 32 - 1) },
        none)
  | .pausing, .done _ => some (manager.goTo .opening, none)
  | .pausing, .cancelled =>
      if manager.cancelled || shutdown then some (manager.goTo .disconnecting, none) else none
  | .stopping, .done _ => some (manager.goTo .disconnecting, none)
  | .disconnecting, .done now =>
      if shutdown then some (manager.goTo (.ended false), none)
      else some (manager.goTo .finishing, some (.markStatus .disconnected none now))
  | .disconnecting, .error _ =>
      some (manager.goTo (if shutdown then .ended false else .finishing), none)
  | .finishing, .done now => some (manager.goTo (.ended true), some (.clearSetup now))
  | .finishing, .error _ => some (manager.goTo (.ended true), none)
  | _, _ => none

end ChannelManager

end Manager

section Supervisor

structure World where
  /-- The map: the number of a channel's manager. -/
  channels : Text → Option Nat
  managers : Nat → Option ChannelManager
  rows : List (Text × Channel)
  /-- The calls of the service that have read a row and have not written it. -/
  calls : Nat → Option (Text × ChannelCall × Channel)
  shutdown : Bool

def World.new (rows : List (Text × Channel)) : World :=
  ⟨fun _ => none, fun _ => none, rows, fun _ => none, false⟩

def findById (id : Text) (rows : List (Text × Channel)) : Option Channel :=
  (rows.find? fun row => row.1 = id).map Prod.snd

def writeRow (id : Text) (call : ChannelCall) (seen : Channel) (rows : List (Text × Channel)) :
    List (Text × Channel) :=
  rows.map fun row => if row.1 = id then (id, (call.change seen).getD row.2) else row

inductive Event where
  /-- The task that a `start` has spawned gets the lock. -/
  | start (id : Text) (manager : Nat)
  | stop (id : Text)
  /-- The end of a `stop`, once the lock is released. -/
  | cancel (manager : Nat)
  /-- The read of a write that the manager is about to make. -/
  | look (manager : Nat)
  | advance (manager : Nat) (input : Input)
  | panic (manager : Nat)
  /-- The task that a slot guard has spawned gets the lock. -/
  | release (manager : Nat)
  | shutdown
  /-- A call of the service reads the row. -/
  | read (number : Nat) (id : Text) (call : ChannelCall)
  | write (number : Nat)
  | create (id : Text) (row : Channel)
  | delete (id : Text)

namespace World

variable (world : World)

def setManager (n : Nat) (manager : ChannelManager) : World :=
  { world with managers := Function.update world.managers n (some manager) }

def step (event : Event) (world : World) : Option World :=
  match event with
  | .start id n =>
      if (world.managers n).isSome then none
      else if (world.channels id).isSome then some world
      else some { world.setManager n (.new id) with
        channels := Function.update world.channels id (some n) }
  | .stop id =>
      match world.channels id with
      | none => some world
      | some n =>
          some { world with
            channels := Function.update world.channels id none
            managers := Function.update world.managers n
              ((world.managers n).map fun manager => { manager with stopped := true }) }
  | .cancel n =>
      match world.managers n with
      | none => none
      | some manager =>
          if manager.stopped then some (world.setManager n { manager with cancelled := true })
          else none
  | .advance n input =>
      match world.managers n with
      | none => none
      | some manager =>
          match manager.advance world.shutdown input, manager.seen with
          | none, _ | some (_, some _), none => none
          | some (next, none), _ => some (world.setManager n { next with seen := none })
          | some (next, some call), some seen =>
              some { world.setManager n { next with seen := none } with
                rows := writeRow manager.channelId call seen world.rows }
  | .look n =>
      match world.managers n with
      | none => none
      | some manager =>
          some (world.setManager n
            { manager with seen := findById manager.channelId world.rows })
  | .panic n =>
      match world.managers n with
      | none => none
      | some manager =>
          if manager.phase.isEnded then none
          else some (world.setManager n (manager.goTo (.ended false)))
  | .release n =>
      match world.managers n with
      | none => none
      | some manager =>
          if manager.phase.isEnded ∧ manager.released = false then
            some { world.setManager n { manager with released := true } with
              channels :=
                if world.channels manager.channelId = some n then
                  Function.update world.channels manager.channelId none
                else world.channels }
          else none
  | .shutdown => some { world with shutdown := true }
  | .read number id call =>
      match world.calls number, findById id world.rows with
      | none, some row =>
          some { world with
            calls := Function.update world.calls number (some (id, call, row)) }
      | _, _ => none
  | .write number =>
      match world.calls number with
      | none => none
      | some (id, call, seen) =>
          some { world with
            rows := writeRow id call seen world.rows
            calls := Function.update world.calls number none }
  | .create id row =>
      if id ∈ world.rows.map Prod.fst then none
      else some { world with rows := world.rows ++ [(id, row)] }
  | .delete id => some { world with rows := world.rows.filter fun row => decide (row.1 ≠ id) }

def findActive : List Text :=
  (world.rows.filter fun row => row.2.enabled && decide (row.2.status ≠ .failed)).map Prod.fst

/-- The rest of `find_dead`, once it has the lock: which of the channels that were found have no
manager in the map. -/
def findDead (active : List Text) : List Text :=
  active.filter fun id => (world.channels id).isNone

end World

end Supervisor

section Entries

def ChannelManager.isHeld (manager : ChannelManager) : Bool := !manager.stopped && !manager.released

structure Entered (world : World) : Prop where
  entries : ∀ id n, world.channels id = some n ↔
    ∃ manager, world.managers n = some manager ∧ manager.channelId = id ∧ manager.isHeld = true
  ended : ∀ n manager, world.managers n = some manager → manager.released = true →
    manager.phase.isEnded = true

namespace ChannelManager

variable {manager : ChannelManager}

@[simp] theorem goTo_channelId (phase : Phase) :
    (manager.goTo phase).channelId = manager.channelId := rfl

@[simp] theorem goTo_stopped (phase : Phase) : (manager.goTo phase).stopped = manager.stopped := rfl

@[simp] theorem goTo_released (phase : Phase) :
    (manager.goTo phase).released = manager.released := rfl

@[simp] theorem onSignal_channelId (signal : ChannelSignal) (now : Int) (written : Bool) :
    (manager.onSignal signal now written).1.channelId = manager.channelId := by
  cases signal <;> simp only [onSignal]
  case connected => split <;> rfl
  all_goals rfl

@[simp] theorem onSignal_stopped (signal : ChannelSignal) (now : Int) (written : Bool) :
    (manager.onSignal signal now written).1.stopped = manager.stopped := by
  cases signal <;> simp only [onSignal]
  case connected => split <;> rfl
  all_goals rfl

@[simp] theorem onSignal_released (signal : ChannelSignal) (now : Int) (written : Bool) :
    (manager.onSignal signal now written).1.released = manager.released := by
  cases signal <;> simp only [onSignal]
  case connected => split <;> rfl
  all_goals rfl

theorem advance_running {shutdown : Bool} {input : Input} {went : ChannelManager × _}
    (goes : manager.advance shutdown input = some went) : manager.phase.isEnded = false := by
  cases phase : manager.phase with
  | ended settled => simp [advance, phase] at goes
  | _ => rfl

theorem advance_frame {shutdown : Bool} {input : Input} {went : ChannelManager × _}
    (goes : manager.advance shutdown input = some went) :
    went.1.channelId = manager.channelId ∧ went.1.stopped = manager.stopped ∧
      went.1.released = manager.released := by
  unfold advance at goes
  split at goes
  all_goals try split at goes
  all_goals cases goes
  all_goals simp

end ChannelManager

namespace Entered

variable {world : World}

theorem new (rows : List (Text × Channel)) : Entered (.new rows) where
  entries id n := by simp [World.new]
  ended n manager held := by cases held

theorem setManager (entered : Entered world) {n : Nat} {manager next : ChannelManager}
    (held : world.managers n = some manager) (channel : next.channelId = manager.channelId)
    (same : next.isHeld = manager.isHeld)
    (ended : next.released = true → next.phase.isEnded = true) :
    Entered (world.setManager n next) := by
  constructor
  next =>
    intro id m
    refine (entered.entries id m).trans ?_
    by_cases this : m = n
    next =>
      subst this
      simp [World.setManager, held, channel, same]
    next => simp [World.setManager, this]
  next =>
    intro m other found
    by_cases this : m = n
    next =>
      subst this
      simp only [World.setManager, Function.update_self, Option.some.injEq] at found
      exact found ▸ ended
    next => exact entered.ended m other (by simpa [World.setManager, this] using found)

theorem of_frame (entered : Entered world) {next : World}
    (channels : next.channels = world.channels) (managers : next.managers = world.managers) :
    Entered next := by
  constructor
  next =>
    rw [channels, managers]
    exact entered.entries
  next =>
    rw [managers]
    exact entered.ended

theorem start (entered : Entered world) {id : Text} {n : Nat} (unused : world.managers n = none)
    (absent : world.channels id = none) :
    Entered { world.setManager n (.new id) with
      channels := Function.update world.channels id (some n) } := by
  have free : ∀ other, world.channels other ≠ some n := by
    intro other entry
    obtain ⟨manager, held, -⟩ := (entered.entries other n).mp entry
    simp [unused] at held
  have outside : ∀ m manager, world.managers m = some manager → manager.channelId = id →
      manager.isHeld = false := by
    intro m manager held channel
    by_contra kept
    have entry := (entered.entries id m).mpr ⟨manager, held, channel, by simpa using kept⟩
    simp [absent] at entry
  constructor
  next =>
    intro other m
    by_cases this : m = n
    next =>
      subst this
      by_cases same : other = id
      next => simp [same, World.setManager, ChannelManager.new, ChannelManager.isHeld]
      next => simp [same, World.setManager, ChannelManager.new, free other, Ne.symm same]
    next =>
      by_cases same : other = id
      next =>
        subst same
        simp only [Function.update_self, Option.some.injEq, World.setManager, ne_eq, this,
          not_false_eq_true, Function.update_of_ne]
        refine iff_of_false (Ne.symm this) ?_
        rintro ⟨manager, held, channel, kept⟩
        simp [outside m manager held channel] at kept
      next => simpa [same, World.setManager, this] using entered.entries other m
  next =>
    intro m manager held released
    by_cases this : m = n
    next =>
      subst this
      simp only [World.setManager, Function.update_self, Option.some.injEq] at held
      subst held
      cases released
    next => exact entered.ended m manager (by simpa [World.setManager, this] using held) released

theorem remove (entered : Entered world) {id : Text} {n : Nat} {manager next : ChannelManager}
    (entry : world.channels id = some n) (held : world.managers n = some manager)
    (outside : next.isHeld = false)
    (ended : next.released = true → next.phase.isEnded = true) :
    Entered { world.setManager n next with
      channels := Function.update world.channels id none } := by
  have known : manager.channelId = id := by
    obtain ⟨other, found, same, -⟩ := (entered.entries id n).mp entry
    simpa [Option.some.inj (held.symm.trans found)] using same
  constructor
  next =>
    intro other m
    by_cases this : m = n
    next =>
      subst this
      have apart : ∀ key, key ≠ id → world.channels key ≠ some m := by
        intro key differs there
        obtain ⟨_, found, same, -⟩ := (entered.entries key m).mp there
        rw [Option.some.inj (found.symm.trans held)] at same
        exact differs (same.symm.trans known)
      by_cases same : other = id
      next => simp [same, World.setManager, outside]
      next => simp [same, World.setManager, outside, apart other same]
    next =>
      have kept := entered.entries other m
      by_cases same : other = id
      next =>
        subst same
        rw [entry] at kept
        simpa [World.setManager, this, Ne.symm this] using kept
      next => simpa [same, World.setManager, this] using kept
  next =>
    intro m found there released
    by_cases this : m = n
    next =>
      subst this
      simp only [World.setManager, Function.update_self, Option.some.injEq] at there
      subst there
      exact ended released
    next => exact entered.ended m found (by simpa [World.setManager, this] using there) released

theorem step (entered : Entered world) {event : Event} {next : World}
    (taken : World.step event world = some next) : Entered next := by
  cases event with
  | start id n =>
      simp only [World.step] at taken
      split at taken
      next => cases taken
      next unused =>
        split at taken <;> cases taken
        next => exact entered
        next absent => exact entered.start (by simpa using unused) (by simpa using absent)
  | stop id =>
      simp only [World.step] at taken
      split at taken <;> cases taken
      next => exact entered
      next n entry =>
        obtain ⟨manager, held, -, kept⟩ := (entered.entries id n).mp entry
        have running : manager.released = false := by
          simp only [ChannelManager.isHeld, Bool.and_eq_true, Bool.not_eq_true'] at kept
          exact kept.2
        have stopped := @remove world entered id n manager { manager with stopped := true } entry
          held (by simp [ChannelManager.isHeld]) (by simp [running])
        simpa [World.setManager, held] using stopped
  | cancel n =>
      simp only [World.step] at taken
      split at taken
      next => cases taken
      next manager held =>
        split at taken <;> cases taken
        exact entered.setManager held rfl rfl (entered.ended n manager held)
  | advance n input =>
      simp only [World.step] at taken
      split at taken
      next => cases taken
      next manager held =>
        have kept : ∀ went write, manager.advance world.shutdown input = some (went, write) →
            Entered (world.setManager n { went with seen := none }) := by
          intro went write goes
          obtain ⟨channel, stopped, released⟩ := ChannelManager.advance_frame goes
          dsimp only at channel stopped released
          refine entered.setManager held channel
            (by simp [ChannelManager.isHeld, stopped, released]) fun done => ?_
          have finished := entered.ended n manager held (released ▸ done)
          simp [ChannelManager.advance_running goes] at finished
        split at taken <;> cases taken
        next went goes => exact kept went none goes
        next went call seen goes _ => exact (kept went (some call) goes).of_frame rfl rfl
  | look n =>
      simp only [World.step] at taken
      split at taken
      next => cases taken
      next manager held =>
        cases taken
        exact entered.setManager held rfl rfl (entered.ended n manager held)
  | panic n =>
      simp only [World.step] at taken
      split at taken
      next => cases taken
      next manager held =>
        split at taken <;> cases taken
        exact entered.setManager held rfl rfl fun _ => rfl
  | release n =>
      simp only [World.step] at taken
      split at taken
      next => cases taken
      next manager held =>
        split at taken <;> cases taken
        next finished =>
          by_cases entry : world.channels manager.channelId = some n
          next =>
            simp only [entry, if_true]
            exact entered.remove entry held (by simp [ChannelManager.isHeld]) fun _ => finished.1
          next =>
            simp only [entry, if_false]
            have outside : manager.isHeld = false := by
              by_contra kept
              exact entry ((entered.entries _ n).mpr ⟨manager, held, rfl, by simpa using kept⟩)
            exact entered.setManager held rfl
              (by simp [ChannelManager.isHeld] at outside ⊢; exact outside) fun _ => finished.1
  | shutdown =>
      cases taken
      exact entered.of_frame rfl rfl
  | read number id call =>
      simp only [World.step] at taken
      split at taken <;> cases taken
      exact entered.of_frame rfl rfl
  | write number =>
      simp only [World.step] at taken
      split at taken <;> cases taken
      exact entered.of_frame rfl rfl
  | create id row =>
      simp only [World.step] at taken
      split at taken <;> cases taken
      exact entered.of_frame rfl rfl
  | delete id =>
      cases taken
      exact entered.of_frame rfl rfl

end Entered

end Entries

section Runs

variable {rows : List (Text × Channel)} {events : List Event} {world : World}

/-- In any run, the map of the supervisor holds for a channel just its manager that no stop has
taken out and whose slot guard has not run, if there is one; so there is never a second one, and
the guard of a manager that was replaced removes nothing. -/
theorem map_entries (reached : Machine.run World.step events (.new rows) = some world) (id : Text)
    (n : Nat) :
    world.channels id = some n ↔ ∃ manager, world.managers n = some manager ∧
      manager.channelId = id ∧ manager.stopped = false ∧ manager.released = false := by
  have entered := Machine.invariant_every_run World.step Entered
    (fun event world next entered taken => entered.step taken) events _ world (.new rows) reached
  simpa [ChannelManager.isHeld] using entered.entries id n

def restarted : List Event :=
  [.start ['a'] 0, .stop ['a'], .cancel 0, .start ['a'] 1, .panic 0, .release 0]

theorem map_entries_restarted : ∃ world,
    Machine.run World.step restarted (.new []) = some world ∧ world.channels ['a'] = some 1 :=
  ⟨_, rfl, (@map_entries [] restarted _ rfl ['a'] 1).mpr ⟨_, rfl, rfl, rfl, rfl⟩⟩

/-- A reconciliation reports a channel as dead just when it was enabled and had not failed as the
active ones were read, and each of its managers was stopped or has ended as the map was locked; but
for those that have ended and wait for their slot guard. -/
theorem findDead_iff {read : World}
    (before : Machine.run World.step events (.new rows) = some read) (between : List Event)
    (locked : Machine.run World.step between read = some world) (id : Text)
    (swept : ∀ n manager, world.managers n = some manager → manager.channelId = id →
      manager.phase.isEnded = true → manager.stopped = true ∨ manager.released = true) :
    id ∈ world.findDead read.findActive ↔
      (∃ row, (id, row) ∈ read.rows ∧ row.enabled = true ∧ row.status ≠ .failed) ∧
        ∀ n manager, world.managers n = some manager → manager.channelId = id →
          manager.stopped = true ∨ manager.phase.isEnded = true := by
  have entered : Entered world := by
    have kept := Machine.invariant_every_run World.step Entered
      (fun event world next entered taken => entered.step taken)
    exact kept between read world (kept events (.new rows) read (.new rows) before) locked
  have active : id ∈ read.findActive ↔
      ∃ row, (id, row) ∈ read.rows ∧ row.enabled = true ∧ row.status ≠ .failed := by
    simp [World.findActive]
  have absent : world.channels id = none ↔ ∀ n manager, world.managers n = some manager →
      manager.channelId = id → manager.stopped = true ∨ manager.phase.isEnded = true := by
    constructor
    next =>
      intro none n manager held channel
      by_contra running
      simp only [not_or, Bool.not_eq_true] at running
      have kept : manager.released = false := by
        by_contra done
        have finished := entered.ended n manager held (by simpa using done)
        simp [running.2] at finished
      have entry := (entered.entries id n).mpr
        ⟨manager, held, channel, by simp [ChannelManager.isHeld, running.1, kept]⟩
      simp [none] at entry
    next =>
      intro finished
      cases entry : world.channels id with
      | none => rfl
      | some n =>
          obtain ⟨manager, held, channel, kept⟩ := (entered.entries id n).mp entry
          simp only [ChannelManager.isHeld, Bool.and_eq_true, Bool.not_eq_true'] at kept
          cases finished n manager held channel with
          | inl stopped => simp [kept.1] at stopped
          | inr ended =>
              have out := swept n manager held channel ended
              simp [kept.1, kept.2] at out
  rw [← active, ← absent]
  simp [World.findDead]

def online : Channel where
  userId := ['u']
  agentId := ['a']
  config := []
  status := .connected
  enabled := true
  errorMessage := none
  lastStartedAt := some 0
  userAddress := none
  setup := none
  updatedAt := 0

theorem findDead_iff_panicked : ∃ read world,
    Machine.run World.step [.start ['a'] 0] (.new [(['a'], online)]) = some read ∧
      Machine.run World.step [.panic 0, .release 0] read = some world ∧
        ['a'] ∈ world.findDead read.findActive := by
  refine ⟨_, _, rfl, rfl, (@findDead_iff _ [.start ['a'] 0] _ _ rfl [.panic 0, .release 0] rfl ['a']
    ?_).mpr ⟨⟨_, .head _, rfl, by decide⟩, ?_⟩⟩
  next =>
    intro n manager held _ _
    by_cases first : n = 0
    next =>
      subst first
      cases held
      exact .inr rfl
    next => simp [first, World.setManager, World.new] at held
  next =>
    intro n manager held _
    by_cases first : n = 0
    next =>
      subst first
      cases held
      exact .inr rfl
    next => simp [first, World.setManager, World.new] at held

end Runs

end Frona.ChannelSupervisor
