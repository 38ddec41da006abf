import Frona.Machine.Run
import Frona.Text.Utf8
import Mathlib.Data.List.AList
import Mathlib.Data.List.Perm.Subperm

set_option autoImplicit false

namespace Frona.App

open Utf8 (Text)

section Manager

structure AppManifest where
  command : Option Text
  restartPolicy : Option Text
  deriving DecidableEq

def AppManifest.effectiveRestartPolicy (manifest : AppManifest) : Text :=
  manifest.restartPolicy.getD "on_failure".toList

structure ManagedProcess where
  port : Nat
  manifest : AppManifest
  restartCount : Nat

abbrev Processes : Type := AList fun _ : Text => ManagedProcess

structure AppManager where
  processes : Processes
  allocatedPorts : List Nat

def AppManager.new : AppManager := ⟨∅, []⟩

variable (portRange : Nat × Nat)

def ports : List Nat := List.range' portRange.1 (portRange.2 - portRange.1)

def allocatePort (manager : AppManager) : Option Nat :=
  (ports portRange).find? fun port => decide (port ∉ manager.allocatedPorts)

namespace AppManager

variable (manager : AppManager) (appId : Text)

-- `remove_process`, and `stop_app` once it has killed the process.
def removeProcess : AppManager :=
  match manager.processes.lookup appId with
  | none => manager
  | some process =>
      { processes := manager.processes.erase appId
        allocatedPorts := manager.allocatedPorts.erase process.port }

-- A stop that is dropped while it kills the process.
def takeProcess : AppManager := { manager with processes := manager.processes.erase appId }

def insertProcess (manifest : AppManifest) (port : Nat) : AppManager :=
  { manager with processes := manager.processes.insert appId ⟨port, manifest, 0⟩ }

def setRestartCount (process : ManagedProcess) (count : Nat) : AppManager :=
  { manager with
    processes := manager.processes.insert appId { process with restartCount := count } }

end AppManager

/-- The exit status of a child that `try_wait` finds: its success, if it has ended. -/
def shouldRestart (process : ManagedProcess) (exit : Option Bool) : Bool :=
  let policy := process.manifest.effectiveRestartPolicy
  if policy = "always".toList then true
  else if policy = "on_failure".toList then !(exit.getD false)
  else false

end Manager

section Calls

inductive Call where
  /-- In `start_app`, before the port. What comes after it is the count of a crash restart. -/
  | allocate (appId : Text) (manifest : AppManifest) (recount : Option Nat)
  /-- In `start_app`, with the port, while the process is spawned. -/
  | spawn (appId : Text) (manifest : AppManifest) (recount : Option Nat) (port : Nat)
  /-- In `try_restart_crashed`, after `start_app`. -/
  | recount (appId : Text) (count : Nat)
  /-- In a restart that has read the process, before `stop_app`. -/
  | restart (appId : Text) (manifest : AppManifest) (recount : Option Nat)
  deriving DecidableEq

structure World where
  manager : AppManager
  calls : List Call

def World.new : World := ⟨.new, []⟩

inductive Event where
  | startApp (appId : Text) (manifest : AppManifest)
  | stopApp (appId : Text)
  | removeProcess (appId : Text)
  | restartApp (appId : Text)
  | tryRestartCrashed (appId : Text) (maxRestarts : Nat) (exit : Option Bool)
  /-- A call goes on to its next await, with what the spawn comes to. -/
  | proceed (call : Call) (spawned : Bool)
  /-- The future of a call is dropped at its await, which for a restart may be within its stop. -/
  | drop (call : Call) (killing : Bool)
  /-- That of a stop is dropped when it has the process. -/
  | dropStop (appId : Text)

namespace World

variable (portRange : Nat × Nat)

def advance (manager : AppManager) (spawned : Bool) : Call → AppManager × List Call
  | .allocate appId manifest recount =>
      match allocatePort portRange manager with
      | none => (manager, [])
      | some port =>
          ({ manager with allocatedPorts := port :: manager.allocatedPorts },
            [.spawn appId manifest recount port])
  | .spawn appId manifest recount port =>
      -- The port stays taken where the spawn fails.
      if spawned then
        (manager.insertProcess appId manifest port,
          (recount.map fun count => Call.recount appId count).toList)
      else (manager, [])
  | .recount appId count =>
      match manager.processes.lookup appId with
      -- Here the code panics.
      | none => (manager, [])
      | some process => (manager.setRestartCount appId process count, [])
  | .restart appId manifest recount =>
      (manager.removeProcess appId,
        if manifest.command.isSome then [.allocate appId manifest recount] else [])

def abandon (manager : AppManager) (killing : Bool) : Call → AppManager
  | .restart appId _ _ => if killing then manager.takeProcess appId else manager
  | .allocate .. | .spawn .. | .recount .. => manager

def step : Event → World → Option World
  | .startApp appId manifest, world =>
      some { world with calls := .allocate appId manifest none :: world.calls }
  | .stopApp appId, world | .removeProcess appId, world =>
      some { world with manager := world.manager.removeProcess appId }
  | .restartApp appId, world =>
      match world.manager.processes.lookup appId with
      | none => some world
      | some process =>
          some { world with calls := .restart appId process.manifest none :: world.calls }
  | .tryRestartCrashed appId maxRestarts exit, world =>
      match world.manager.processes.lookup appId with
      | none => some world
      | some process =>
          if process.restartCount ≥ maxRestarts ∨ shouldRestart process exit = false then some world
          else
            let count := process.restartCount + 1
            some
              { manager := world.manager.setRestartCount appId process count
                calls := .restart appId process.manifest (some count) :: world.calls }
  | .proceed call spawned, world =>
      if call ∈ world.calls then
        let (manager, next) := advance portRange world.manager spawned call
        some ⟨manager, next ++ world.calls.erase call⟩
      else none
  | .drop call killing, world =>
      if call ∈ world.calls then
        some ⟨abandon world.manager killing call, world.calls.erase call⟩
      else none
  | .dropStop appId, world => some { world with manager := world.manager.takeProcess appId }

end World

end Calls

section Held

/-- The port of a call in `start_app` that has one. -/
@[simp] def Call.port? : Call → Option Nat
  | .allocate .. => none
  | .spawn _ _ _ port => some port
  | .recount .. => none
  | .restart .. => none

def portsOf (processes : Processes) : List Nat :=
  processes.entries.map fun entry => entry.2.port

def startingPorts (calls : List Call) : List Nat := calls.filterMap Call.port?

variable (portRange : Nat × Nat)

/-- An event after which nothing answers for some port: a failed spawn, one that replaces a process
of the same app, a start that is dropped with its port, or a stop with its process. -/
def Leaks (event : Event) (world : World) : Prop :=
  match event with
  | .proceed (.spawn appId ..) spawned =>
      spawned = false ∨ (world.manager.processes.lookup appId).isSome = true
  | .drop (.spawn ..) _ => True
  | .drop (.restart appId ..) true | .dropStop appId =>
      (world.manager.processes.lookup appId).isSome = true
  | _ => False

instance (event : Event) (world : World) : Decidable (Leaks event world) := by
  unfold Leaks
  split <;> infer_instance

def leaks : List Event → World → Nat
  | [], _ => 0
  | event :: rest, world =>
      (if Leaks event world then 1 else 0) +
        match World.step portRange event world with
        | none => 0
        | some next => leaks rest next

structure Accounted (manager : AppManager) (others : List Nat) : Prop where
  distinct : manager.allocatedPorts.Nodup
  within : ∀ port ∈ manager.allocatedPorts, port ∈ ports portRange
  taken : manager.allocatedPorts.Perm (portsOf manager.processes ++ others)

end Held

section Processes

variable {processes : Processes} {appId : Text}

theorem portsOf_erase {process : ManagedProcess}
    (found : processes.lookup appId = some process) :
    (portsOf processes).Perm (process.port :: portsOf (processes.erase appId)) := by
  have present : appId ∈ processes.entries.keys := by
    rw [← List.dlookup_isSome]
    exact Option.isSome_of_eq_some found
  obtain ⟨kept, before, after, _, split, erased⟩ := List.exists_of_kerase present
  have same : kept = process := by
    have member : (⟨appId, kept⟩ : Sigma fun _ : Text => ManagedProcess) ∈
        processes.entries := by simp [split]
    have looked : processes.lookup appId = some kept :=
      List.mem_dlookup processes.nodupKeys member
    exact Option.some.inj (looked.symm.trans found)
  have left : (processes.erase appId).entries = before ++ after := erased
  simp only [portsOf, left, split, same, List.map_append, List.map_cons]
  exact List.perm_middle

theorem portsOf_insert (process : ManagedProcess) :
    portsOf (processes.insert appId process) =
      process.port :: portsOf (processes.erase appId) := by
  have entries : (processes.insert appId process).entries =
      ⟨appId, process⟩ :: (processes.erase appId).entries := List.kinsert_def
  simp only [portsOf, entries, List.map_cons]

theorem portsOf_erase_none (absent : processes.lookup appId = none) :
    portsOf (processes.erase appId) = portsOf processes := by
  have missing : appId ∉ processes.entries.keys := List.dlookup_eq_none.mp absent
  have kept : (processes.erase appId).entries = processes.entries :=
    List.kerase_of_notMem_keys missing
  simp [portsOf, kept]

end Processes

section Steps

variable {portRange : Nat × Nat} {manager : AppManager} {others : List Nat}

theorem allocatePort_some {port : Nat} (found : allocatePort portRange manager = some port) :
    port ∈ ports portRange ∧ port ∉ manager.allocatedPorts := by
  constructor
  next => exact List.mem_of_find?_eq_some found
  next => simpa using List.find?_some found

theorem allocatePort_none :
    allocatePort portRange manager = none ↔
      ∀ port ∈ ports portRange, port ∈ manager.allocatedPorts := by
  simp [allocatePort]

namespace Accounted

theorem perm (accounted : Accounted portRange manager others) {same : List Nat}
    (moved : others.Perm same) : Accounted portRange manager same :=
  { accounted with taken := accounted.taken.trans (moved.append_left _) }

theorem allocate (accounted : Accounted portRange manager others) {port : Nat}
    (found : allocatePort portRange manager = some port) :
    Accounted portRange { manager with allocatedPorts := port :: manager.allocatedPorts }
      (port :: others) := by
  have fresh := allocatePort_some found
  constructor
  next => exact List.nodup_cons.mpr ⟨fresh.2, accounted.distinct⟩
  next =>
    intro other present
    cases List.mem_cons.mp present with
    | inl same => exact same ▸ fresh.1
    | inr old => exact accounted.within other old
  next => exact (accounted.taken.cons port).trans List.perm_middle.symm

theorem removeProcess (accounted : Accounted portRange manager others) (appId : Text) :
    Accounted portRange (manager.removeProcess appId) others := by
  unfold AppManager.removeProcess
  cases found : manager.processes.lookup appId with
  | none => exact accounted
  | some process =>
      have held := accounted.taken.trans ((portsOf_erase found).append_right others)
      constructor
      next => exact accounted.distinct.erase process.port
      next => exact fun port taken => accounted.within port (List.mem_of_mem_erase taken)
      next => simpa using held.erase process.port

theorem takeProcess (accounted : Accounted portRange manager others) (appId : Text) :
    Accounted portRange (manager.takeProcess appId)
      (((manager.processes.lookup appId).map (·.port)).toList ++ others) := by
  refine ⟨accounted.distinct, accounted.within, accounted.taken.trans ?_⟩
  cases found : manager.processes.lookup appId with
  | none =>
      rw [AppManager.takeProcess, portsOf_erase_none found]
      exact .refl _
  | some process =>
      have split := (portsOf_erase found).append_right others
      exact split.trans List.perm_middle.symm

theorem setRestartCount (accounted : Accounted portRange manager others) {appId : Text}
    {process : ManagedProcess} (found : manager.processes.lookup appId = some process)
    (count : Nat) : Accounted portRange (manager.setRestartCount appId process count) others := by
  have same : (portsOf manager.processes).Perm
      (portsOf (manager.setRestartCount appId process count).processes) := by
    have split := portsOf_erase found
    rwa [AppManager.setRestartCount, portsOf_insert]
  exact { accounted with taken := accounted.taken.trans (same.append_right others) }

theorem insertProcess {port : Nat} (accounted : Accounted portRange manager (port :: others))
    (appId : Text) (manifest : AppManifest) :
    Accounted portRange (manager.insertProcess appId manifest port)
      (((manager.processes.lookup appId).map (·.port)).toList ++ others) := by
  have entered : portsOf (manager.insertProcess appId manifest port).processes =
      port :: portsOf (manager.processes.erase appId) := portsOf_insert _
  have held := accounted.taken.trans List.perm_middle
  constructor
  next => exact accounted.distinct
  next => exact accounted.within
  next =>
    rw [entered]
    cases found : manager.processes.lookup appId with
    | none =>
        rw [portsOf_erase_none found]
        exact held
    | some old =>
        have split := ((portsOf_erase found).append_right others).cons port
        exact (held.trans split).trans (List.perm_middle.symm.cons port)

end Accounted

end Steps

section Runs

variable {portRange : Nat × Nat}

@[simp] theorem startingPorts_nil : startingPorts [] = [] := rfl

@[simp] theorem startingPorts_cons (call : Call) (calls : List Call) :
    startingPorts (call :: calls) = call.port?.toList ++ startingPorts calls := by
  cases found : call.port? with
  | none => exact List.filterMap_cons_none found
  | some port => exact List.filterMap_cons_some found

theorem startingPorts_erase {call : Call} {calls : List Call} (member : call ∈ calls) :
    (startingPorts calls).Perm (call.port?.toList ++ startingPorts (calls.erase call)) := by
  rw [← startingPorts_cons]
  exact (List.perm_cons_erase member).filterMap Call.port?

theorem accounted_advance {world : World} {call : Call} {others : List Nat}
    (accounted : Accounted portRange world.manager (call.port?.toList ++ others))
    (spawned : Bool) :
    ∃ more, more.length = (if Leaks (.proceed call spawned) world then 1 else 0) ∧
      Accounted portRange (World.advance portRange world.manager spawned call).1
        (startingPorts (World.advance portRange world.manager spawned call).2 ++
          (more ++ others)) := by
  cases call with
  | allocate appId manifest recount =>
      refine ⟨[], rfl, ?_⟩
      cases found : allocatePort portRange world.manager with
      | none => simpa [World.advance, found] using accounted
      | some port => simpa [World.advance, found] using accounted.allocate found
  | spawn appId manifest recount port =>
      cases spawned with
      | false => exact ⟨[port], by simp [Leaks], accounted⟩
      | true =>
          have entered := accounted.insertProcess appId manifest
          have none_left : startingPorts
              (World.advance portRange world.manager true (.spawn appId manifest recount port)).2 =
              [] := by
            cases recount <;> rfl
          rw [none_left]
          refine ⟨_, ?_, entered⟩
          cases found : world.manager.processes.lookup appId <;> simp [Leaks, found]
  | recount appId count =>
      refine ⟨[], rfl, ?_⟩
      cases found : world.manager.processes.lookup appId with
      | none => simpa [World.advance, found] using accounted
      | some process =>
          simpa [World.advance, found] using accounted.setRestartCount found count
  | restart appId manifest recount =>
      have stopped := accounted.removeProcess appId
      refine ⟨[], rfl, ?_⟩
      cases command : manifest.command <;>
        simpa [World.advance, command] using stopped

theorem accounted_abandon {world : World} {call : Call} {others : List Nat}
    (accounted : Accounted portRange world.manager (call.port?.toList ++ others)) (killing : Bool) :
    ∃ more, more.length = (if Leaks (.drop call killing) world then 1 else 0) ∧
      Accounted portRange (World.abandon world.manager killing call) (more ++ others) := by
  cases call with
  | allocate appId manifest recount => exact ⟨[], rfl, accounted⟩
  | spawn appId manifest recount port => exact ⟨[port], by simp [Leaks], accounted⟩
  | recount appId count => exact ⟨[], rfl, accounted⟩
  | restart appId manifest recount =>
      cases killing with
      | false => exact ⟨[], rfl, accounted⟩
      | true =>
          refine ⟨_, ?_, accounted.takeProcess appId⟩
          cases found : world.manager.processes.lookup appId <;> simp [Leaks, found]

theorem accounted_step {world next : World} {event : Event} {lost : List Nat}
    (accounted : Accounted portRange world.manager (startingPorts world.calls ++ lost))
    (taken : World.step portRange event world = some next) :
    ∃ more, more.length = (if Leaks event world then 1 else 0) ∧
      Accounted portRange next.manager (startingPorts next.calls ++ (more ++ lost)) := by
  cases event with
  | startApp appId manifest =>
      cases taken
      exact ⟨[], rfl, accounted⟩
  | stopApp appId | removeProcess appId =>
      cases taken
      exact ⟨[], rfl, accounted.removeProcess appId⟩
  | restartApp appId =>
      cases found : world.manager.processes.lookup appId <;>
        simp only [World.step, found, Option.some.injEq] at taken <;>
        subst taken
      next => exact ⟨[], rfl, accounted⟩
      next => exact ⟨[], rfl, accounted⟩
  | tryRestartCrashed appId maxRestarts exit =>
      cases found : world.manager.processes.lookup appId with
      | none =>
          simp only [World.step, found, Option.some.injEq] at taken
          subst taken
          exact ⟨[], rfl, accounted⟩
      | some process =>
          simp only [World.step, found] at taken
          split at taken <;> cases taken
          next => exact ⟨[], rfl, accounted⟩
          next => exact ⟨[], rfl, accounted.setRestartCount found _⟩
  | proceed call spawned =>
      simp only [World.step] at taken
      split at taken
      next member =>
        cases taken
        have rest := accounted.perm ((startingPorts_erase member).append_right lost)
        rw [List.append_assoc] at rest
        obtain ⟨more, length, after⟩ := accounted_advance rest spawned
        refine ⟨more, length, after.perm ?_⟩
        simp only [startingPorts, List.filterMap_append, List.append_assoc]
        exact (List.perm_append_comm_assoc more _ lost).append_left _
      next absent => cases taken
  | drop call killing =>
      simp only [World.step] at taken
      split at taken
      next member =>
        cases taken
        have rest := accounted.perm ((startingPorts_erase member).append_right lost)
        rw [List.append_assoc] at rest
        obtain ⟨more, length, after⟩ := accounted_abandon rest killing
        exact ⟨more, length, after.perm (List.perm_append_comm_assoc more _ lost)⟩
      next absent => cases taken
  | dropStop appId =>
      cases taken
      refine ⟨_, ?_, (accounted.takeProcess appId).perm (List.perm_append_comm_assoc _ _ lost)⟩
      cases found : world.manager.processes.lookup appId <;> simp [Leaks, found]

theorem accounted_run {events : List Event} {world last : World} {lost : List Nat}
    (accounted : Accounted portRange world.manager (startingPorts world.calls ++ lost))
    (reached : Machine.run (World.step portRange) events world = some last) :
    ∃ more, more.length = leaks portRange events world ∧
      Accounted portRange last.manager (startingPorts last.calls ++ (more ++ lost)) := by
  induction events generalizing world lost with
  | nil =>
      cases reached
      exact ⟨[], rfl, accounted⟩
  | cons event rest ih =>
      cases taken : World.step portRange event world with
      | none => simp [Machine.run, taken] at reached
      | some next =>
          simp only [Machine.run, taken] at reached
          obtain ⟨first, here, between⟩ := accounted_step accounted taken
          obtain ⟨later, there, after⟩ := ih between reached
          refine ⟨later ++ first, ?_, by simpa using after⟩
          simp only [leaks, taken, List.length_append]
          omega

theorem accounted_new :
    Accounted portRange World.new.manager (startingPorts World.new.calls ++ []) :=
  ⟨List.nodup_nil, by simp [World.new, AppManager.new], .refl []⟩

/-- In any run, no two processes or starts have the same port, all their ports are in the range
and taken, and a start finds no port just when they and the leaks so far use up the range. -/
theorem ports_apart (events : List Event) (world : World)
    (reached : Machine.run (World.step portRange) events .new = some world) :
    (portsOf world.manager.processes ++ startingPorts world.calls).Nodup ∧
      (∀ port ∈ portsOf world.manager.processes ++ startingPorts world.calls,
        port ∈ ports portRange ∧ port ∈ world.manager.allocatedPorts) ∧
      (allocatePort portRange world.manager = none ↔
        world.manager.processes.entries.length + (startingPorts world.calls).length +
          leaks portRange events .new = portRange.2 - portRange.1) := by
  obtain ⟨lost, length, accounted⟩ := accounted_run accounted_new reached
  rw [List.append_nil] at accounted
  have whole := accounted.taken
  rw [← List.append_assoc] at whole
  refine ⟨(whole.nodup accounted.distinct).of_append_left, ?_, ?_⟩
  next =>
    intro port held
    have taken : port ∈ world.manager.allocatedPorts :=
      whole.mem_iff.mpr (List.mem_append_left lost held)
    exact ⟨accounted.within port taken, taken⟩
  next =>
    have used : world.manager.allocatedPorts.length = world.manager.processes.entries.length +
        (startingPorts world.calls).length + leaks portRange events .new := by
      rw [whole.length_eq, ← length]
      simp [portsOf, Nat.add_assoc]
    have inside : world.manager.allocatedPorts.Subperm (ports portRange) :=
      List.subperm_of_subset accounted.distinct accounted.within
    have size : (ports portRange).length = portRange.2 - portRange.1 := by simp [ports]
    rw [allocatePort_none, ← used, ← size]
    constructor
    next =>
      intro full
      have distinct : (ports portRange).Nodup := List.nodup_range'
      exact Nat.le_antisymm inside.length_le (List.subperm_of_subset distinct full).length_le
    next =>
      intro same port inRange
      exact (inside.perm_of_length_le same.ge).mem_iff.mpr inRange

def failedSpawn : List Event :=
  let manifest : AppManifest := ⟨some ['r'], none⟩
  [.startApp ['a'] manifest, .proceed (.allocate ['a'] manifest none) true,
    .proceed (.spawn ['a'] manifest none 4000) true, .startApp ['b'] manifest,
    .proceed (.allocate ['b'] manifest none) true,
    .proceed (.spawn ['b'] manifest none 4001) false]

theorem ports_apart_failed : ∃ world,
    Machine.run (World.step (4000, 4002)) failedSpawn .new = some world ∧
      allocatePort (4000, 4002) world.manager = none ∧
      (portsOf world.manager.processes ++ startingPorts world.calls).Nodup :=
  let apart := @ports_apart (4000, 4002) failedSpawn _ rfl
  ⟨_, rfl, apart.2.2.mpr (by decide), apart.1⟩

/-- In a run from the start, every taken port belongs to a process or a start in each state just
when no spawn fails or replaces a process of the same app, and no start or stop is dropped with a
port. -/
theorem never_lost_iff (events : List Event) (world : World)
    (reached : Machine.run (World.step portRange) events .new = some world) :
    Machine.Always (World.step portRange)
        (fun world => world.manager.allocatedPorts.Perm
          (portsOf world.manager.processes ++ startingPorts world.calls)) events .new ↔
      Machine.Guarded (World.step portRange) (fun event world => ¬ Leaks event world)
        events .new := by
  refine @Machine.always_iff_guarded_of World Event _ _
    (fun world => Accounted portRange world.manager (startingPorts world.calls ++ [])) _
    ?_ ?_ ?_ events .new world accounted_new reached
  next =>
    intro world accounted
    simpa using accounted.taken
  next =>
    intro event world next accounted taken safe
    obtain ⟨more, length, after⟩ := accounted_step accounted taken
    rw [if_neg safe, List.length_eq_zero_iff] at length
    simpa [length] using after
  next =>
    intro event world next accounted taken sound leak
    obtain ⟨more, length, after⟩ := accounted_step accounted taken
    have counted := after.taken.length_eq
    have kept := sound.length_eq
    simp only [List.append_nil, List.length_append] at counted kept
    rw [if_pos leak] at length
    omega

theorem never_lost_iff_failed :
    ¬ Machine.Always (World.step (4000, 4002))
      (fun world => world.manager.allocatedPorts.Perm
        (portsOf world.manager.processes ++ startingPorts world.calls)) failedSpawn .new := by
  rw [@never_lost_iff (4000, 4002) failedSpawn _ rfl]
  decide

end Runs

end Frona.App
