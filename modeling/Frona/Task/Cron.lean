import Frona.Machine.Run
import Frona.Task.Rows

set_option autoImplicit false

namespace Frona.Task.Cron

inductive CronConcurrency where
  | allow
  | forbid
  | replace
deriving DecidableEq

structure Template where
  status : TaskStatus
  nextRunAt : Int

structure Run where
  sequenceNum : Nat
  status : TaskStatus
  -- No step reads what follows: the due time that the run is for, whether each earlier run was over
  -- when it was spawned, and whether the template was cancelled by then.
  due : Int
  alone : Bool
  late : Bool

def Run.active (run : Run) : Bool := !run.status.isTerminal

/-- Where the task that a poll spawned for the template is in `execute_cron` and after it. -/
inductive Stage where
  | looking
  -- `cancel_task` for each of the runs that were active.
  | replacing (runs : List Nat)
  | counting
  | spawning (sequenceNum : Nat)
  | reading
  -- `advance_cron_template` has read the row that it is about to write.
  | advancing (copy : Template) (next : Int)

structure Fire where
  due : Int
  stage : Stage

/-- Where a call of `cancel` for the template is. -/
inductive Cancel where
  | looking
  | listing
  | marking (runs : List Nat)
  | reading
  | writing (copy : Template)

structure Store where
  template : Template
  -- The runs in the order in which they were created. A run is named by its place.
  runs : List Run
  now : Int
  -- Whether some call has cancelled the template. No step reads it.
  cancelled : Bool

structure World where
  store : Store
  fires : List Fire
  cancels : List Cancel

inductive Event where
  | poll
  -- The next repository call of a fire, or of a cancellation, which may fail.
  | fire (index : Nat) (fails : Bool)
  | cancel
  -- `cancel_task`, which does not look at the row before it marks it.
  | cancelTask
  | goCancel (index : Nat) (fails : Bool)
  -- A write of the executor to one of the runs.
  | mark (run : Nat) (write : Mark)
  | tick (seconds : Nat)

/-- The template as `create_cron_template` stores it. -/
def start (nextRunAt now : Int) : World where
  store :=
    { template := { status := .pending, nextRunAt := nextRunAt }
      runs := []
      now := now
      cancelled := false }
  fires := []
  cancels := []

def setStatus (runs : List Run) (run : Nat) (status : TaskStatus) : List Run :=
  runs.modify run fun row => { row with status := status }

def findActiveRunsByCron (runs : List Run) : List Nat :=
  (List.range runs.length).filter fun run => (runs[run]?).any Run.active

/-- `find_due_cron_templates`, for the one template. -/
def Store.due (store : Store) : Bool :=
  store.template.status = .pending ∧ store.template.nextRunAt ≤ store.now

def Store.mark (store : Store) (run : Nat) (status : TaskStatus) : Store :=
  { store with runs := setStatus store.runs run status }

section Steps

variable (concurrency : CronConcurrency) (nextOccurrence : Int → Option Int)

def Store.spawn (store : Store) (due : Int) (sequenceNum : Nat) : Store :=
  { store with
    runs := store.runs ++
      [{ sequenceNum := sequenceNum
         status := .pending
         due := due
         alone := store.runs.all (!·.active)
         late := store.cancelled }] }

def Store.cancelRun (store : Store) (fails : Bool) (run : Nat) : Store :=
  if fails then store else store.mark run .cancelled

def Fire.go (fails : Bool) (store : Store) (fire : Fire) : Store × Option Stage :=
  match fire.stage with
  | .looking =>
      -- `unwrap_or_default`
      match if fails then [] else findActiveRunsByCron store.runs, concurrency with
      | [], _ | _, .allow => (store, some .counting)
      -- The previous run is still active: this time is skipped.
      | _, .forbid => (store, some .reading)
      | runs, .replace => (store, some (.replacing runs))
  | .replacing [] => (store, some .counting)
  | .replacing (run :: rest) =>
      (store.cancelRun fails run, some (if rest.isEmpty then .counting else .replacing rest))
  | .counting => (store, some (.spawning (if fails then 1 else store.runs.length + 1)))
  | .spawning sequenceNum =>
      (if fails then store else store.spawn fire.due sequenceNum, some .reading)
  | .reading =>
      match nextOccurrence store.now, fails with
      | some next, false => (store, some (.advancing store.template next))
      | none, _ | _, true => (store, none)
  | .advancing copy next =>
      (if fails then store else { store with template := { copy with nextRunAt := next } }, none)

/-- One call of `cancel`, and what is left of it. -/
def Cancel.go (fails : Bool) (store : Store) : Cancel → Store × Option Cancel
  | .looking =>
      (store, if fails ∨ store.template.status.isTerminal = true then none else some .listing)
  | .listing =>
      match if fails then [] else findActiveRunsByCron store.runs with
      | [] => (store, some .reading)
      | runs => (store, some (.marking runs))
  | .marking [] => (store, some .reading)
  | .marking (run :: rest) =>
      (store.cancelRun fails run, some (if rest.isEmpty then .reading else .marking rest))
  | .reading => (store, if fails then none else some (.writing store.template))
  | .writing copy =>
      (if fails then store
        else { store with template := { copy with status := .cancelled }, cancelled := true }, none)

def advance {P : Type} (processes : List P) (index : Nat) : Option P → List P
  | some process => processes.set index process
  | none => processes.eraseIdx index

def step (event : Event) (world : World) : Option World :=
  match event with
  | .poll =>
      some (if world.store.due then
        { world with fires := world.fires ++ [⟨world.store.template.nextRunAt, .looking⟩] }
      else world)
  | .fire index fails =>
      match world.fires[index]? with
      | none => none
      | some fire =>
          let (store, stage) := fire.go concurrency nextOccurrence fails world.store
          some { world with
            store := store
            fires := advance world.fires index (stage.map fun stage => ⟨fire.due, stage⟩) }
  | .cancel => some { world with cancels := world.cancels ++ [.looking] }
  | .cancelTask => some { world with cancels := world.cancels ++ [.reading] }
  | .goCancel index fails =>
      match world.cancels[index]? with
      | none => none
      | some cancel =>
          let (store, rest) := cancel.go fails world.store
          some { world with store := store, cancels := advance world.cancels index rest }
  | .mark run write => some { world with store := world.store.mark run write.status }
  | .tick seconds => some { world with store.now := world.store.now + seconds }

/-- One run for a due time, as the mode allows it, and none after a cancellation. -/
structure Store.Sound (store : Store) : Prop where
  once : (store.runs.map (·.due)).Nodup
  single : concurrency = .forbid → store.runs.countP Run.active ≤ 1
  replaced : concurrency = .replace → ∀ run ∈ store.runs, run.alone = true
  numbered : (store.runs.map (·.sequenceNum)).Nodup
  final : store.cancelled = true → store.template.status = .cancelled
  timely : ∀ run ∈ store.runs, run.late = false

/-- Between its creation or its skip and the read of the row. -/
def Stage.settled : Stage → Bool
  | .reading => true
  | _ => false

def Store.unfired (store : Store) (due : Int) : Bool :=
  store.template.status.isTerminal || store.runs.all (·.due ≠ due)

/-- No call fails that finds or cancels the active runs, or counts them all, when there are some,
and a fire that has created its run finds a next time and writes it. -/
def Fire.calm (fails : Bool) (store : Store) (fire : Fire) : Bool :=
  match fire.stage with
  | .looking => !fails || concurrency = .allow || store.runs.all (!·.active)
  | .replacing (run :: _) => !fails || (store.runs[run]?).all (!·.active)
  | .counting => !fails || store.runs.isEmpty
  | .reading => (!fails && (nextOccurrence store.now).isSome) || store.unfired fire.due
  | .advancing _ _ => !fails || store.unfired fire.due
  | .replacing [] | .spawning _ => true

/-- A poll fires a template whose last fire is over, the calls of a fire that matter succeed, a
cancellation is written while no fire is about to create a run or to write the row, and no run is
revived. -/
def Event.calm (event : Event) (world : World) : Bool :=
  match event with
  | .poll => !world.store.due || world.fires.isEmpty
  | .fire index fails =>
      (world.fires[index]?).all fun fire => fire.calm concurrency nextOccurrence fails world.store
  | .goCancel index fails =>
      match world.cancels[index]? with
      | some (.writing _) => fails || world.fires.all (·.stage.settled)
      | _ => true
  | .mark run write => write.status.isTerminal || (world.store.runs[run]?).all Run.active
  | .cancel | .cancelTask | .tick _ => true

end Steps

end Frona.Task.Cron
