import Frona.Pkm.ResetAgrees

set_option autoImplicit false

namespace Frona.Pkm

open Utf8 (Text)

structure GateAgrees (world : ResetWorld) : Prop where
  agrees : (∀ id, (world.calls id).inProgress = false) →
    (world.refusesWrites = true ↔ world.row.isSome = true)
  timely : ∀ commit ∈ world.commits, commit.1 = commit.2

/--
A mark is made while the request is still there, or while a reset that completed has still to
clear the gate; the gate is cleared while no newer request is there; and the recovery at startup
reads the request that it has to mark.
-/
def Informed (action : ResetAction) (world : ResetWorld) : Prop :=
  match action with
  | .turn id _ outcome =>
      match world.calls id, outcome with
      | .requested _, _ | .listed _, _ | .recovered _, _ | .claimed _, _ | .blocking _, _ =>
          world.row.isSome = true ∨ ∃ other, world.calls other = .completed
      | .completed, _ => world.row = none
      | .recovering, .error _ => world.row = none ∨ world.blocked = true
      | _, _ => True
  | _ => True

structure Sound (world : ResetWorld) : Prop where
  gate : Armed world.row world.blocked world.calls
  barrier : Fenced world

namespace Sound

variable {world : ResetWorld} {id : Nat} {before call : ResetCall} {left : Option PkmResetStatus}

theorem goOn (sound : Sound world) (stage : world.calls id = before)
    (apart : before.apartFrom call = true) (cleared : before.isCompleted = false)
    (marked : before.arms = true → call.arms = true ∨ world.blocked = true ∨ world.row = none)
    (same : left.isSome = world.row.isSome) : Sound { world.goOn id call with row := left } where
  gate := by
    refine sound.gate.goOn id call same (by rwa [stage]) ?_
    rw [stage]
    intro completed
    simp [completed, ResetCall.isCompleted] at cleared
  barrier := (sound.barrier.goOn (by rwa [stage])).apply left world.nextId world.blocked
    world.spawned

theorem finish (sound : Sound world) (stage : world.calls id = before)
    (was : before.isWaiting = false) (cleared : before.isCompleted = false)
    (marked : before.arms = true → world.blocked = true ∨ world.row = none)
    (same : left.isSome = world.row.isSome) (spawned : List Nat) :
    Sound { world.finish id with row := left, spawned := spawned } where
  gate := by
    refine sound.gate.goOn id .idle same (fun arms => Or.inr (marked (stage ▸ arms))) ?_
    rw [stage]
    intro completed
    simp [completed, ResetCall.isCompleted] at cleared
  barrier := (sound.barrier.finish (by rwa [stage])).apply left world.nextId world.blocked spawned

theorem mark (sound : Sound world) (stage : world.calls id = before)
    (apart : before.apartFrom call = true) (cleared : before.isCompleted = false)
    (witnessed : world.row.isSome = true ∨ ∃ other, world.calls other = .completed) :
    Sound (world.markResetPending.goOn id call) where
  gate := by
    refine Armed.mark witnessed ?_
    change world.calls id ≠ .completed
    rw [stage]
    intro completed
    simp [completed, ResetCall.isCompleted] at cleared
  barrier := (sound.barrier.goOn (by rwa [stage])).apply world.row world.nextId true world.spawned

theorem request (sound : Sound world) (stage : world.calls id = .requesting) (now : Nat) :
    Sound (world.requestStep id now) := by
  have barrier (status : PkmResetStatus) : Fenced (world.goOn id (.requested status)) :=
    sound.barrier.goOn (by rw [stage]; rfl)
  rw [ResetWorld.requestStep]
  split
  next status joined =>
    have held : world.row = some status := (Option.filter_eq_some_iff.mp joined).1
    refine ⟨?_, barrier status⟩
    have gate : Armed (some status) world.blocked
        (Function.update world.calls id (.requested status)) := Armed.request rfl
    rw [← held] at gate
    exact gate
  next =>
    exact ⟨Armed.request rfl, (barrier _).apply _ _ _ _⟩

theorem list (sound : Sound world) (stage : world.calls id = before)
    (next : PkmResetStatus → ResetCall) (was : before.isWaiting = false)
    (cleared : before.isCompleted = false)
    (apart : ∀ status, before.apartFrom (next status) = true)
    (marked : before.arms = true → ∀ status, (next status).arms = true) :
    Sound (world.listStep id next) := by
  rw [ResetWorld.listStep]
  split
  next none' =>
    exact sound.finish stage was cleared (fun _ => Or.inr none') rfl world.spawned
  next status found =>
    exact sound.goOn stage (apart status) cleared (fun arms => Or.inl (marked arms status)) rfl

theorem claimRequest (sound : Sound world) {requestId : Nat}
    (stage : world.calls id = .claiming requestId) (now : Nat) :
    Sound (world.claimStep id requestId now) := by
  rw [ResetWorld.claimStep]
  split
  next => exact sound.finish stage rfl rfl (by simp [ResetCall.arms]) rfl world.spawned
  next running claimed =>
    refine sound.goOn stage rfl rfl (by simp [ResetCall.arms]) ?_
    cases row : world.row with
    | none => simp [claim, named, row] at claimed
    | some status => rfl

theorem complete (sound : Sound world) {requestId : Nat}
    (stage : world.calls id = .completing requestId) :
    Sound (world.completeStep id requestId) := by
  rw [ResetWorld.completeStep]
  split
  · have moved : Fenced (world.goOn id .completed) := sound.barrier.goOn (by rw [stage]; rfl)
    exact ⟨Armed.complete, moved.apply none _ _ _⟩
  · exact sound.goOn stage rfl rfl (by simp [ResetCall.arms]) rfl

theorem fail (sound : Sound world) {requestId : Nat} {text : Text}
    (stage : world.calls id = .failing requestId text) :
    Sound (world.failStep id requestId text) := by
  rw [ResetWorld.failStep]
  split
  · exact sound.goOn stage rfl rfl (by simp [ResetCall.arms]) rfl
  next status written =>
    refine sound.goOn stage rfl rfl (by simp [ResetCall.arms]) ?_
    cases row : world.row with
    | none => simp [failed, named, row] at written
    | some status => rfl

theorem resume (sound : Sound world) {status : PkmResetStatus}
    (stage : world.calls id = .resuming status) (outcome : Except Text Unit) :
    Sound (world.resumeStep id status outcome) := by
  have returns (left : Option PkmResetStatus) (same : left.isSome = world.row.isSome)
      (spawned : List Nat) : Sound { world.finish id with row := left, spawned := spawned } :=
    sound.finish stage rfl rfl (by simp [ResetCall.arms]) same spawned
  cases state : status.state with
  | failed =>
      simp only [ResetWorld.resumeStep, state]
      exact returns world.row rfl world.spawned
  | pending =>
      simp only [ResetWorld.resumeStep, state]
      exact returns world.row rfl (world.spawned ++ [status.requestId])
  | running =>
      cases outcome with
      | error text =>
          simp only [ResetWorld.resumeStep, state]
          exact returns world.row rfl world.spawned
      | ok _ =>
          simp only [ResetWorld.resumeStep, state]
          cases written : requeued world.row status with
          | none => exact returns world.row rfl world.spawned
          | some pending =>
              have held : world.row = some status := by
                by_contra changed
                simp [requeued, changed] at written
              exact returns (some pending) (by simp [held]) (world.spawned ++ [status.requestId])

theorem turn (sound : Sound world) {now : Nat} {outcome : Except Text Unit} {next : ResetWorld}
    (informed : Informed (.turn id now outcome) world)
    (taken : world.turn id now outcome = some next) : Sound next := by
  have plain {before call : ResetCall} (stage : world.calls id = before)
      (apart : before.apartFrom call = true) (cleared : before.isCompleted = false)
      (unarmed : before.arms = false) : Sound (world.goOn id call) :=
    sound.goOn stage apart cleared (by simp [unarmed]) rfl
  have returns {before : ResetCall} (stage : world.calls id = before) (spawned : List Nat)
      (was : before.isWaiting = false) (cleared : before.isCompleted = false)
      (unarmed : before.arms = false) : Sound { world.finish id with spawned := spawned } :=
    sound.finish stage was cleared (by simp [unarmed]) rfl spawned
  simp only [Informed] at informed
  cases stage : world.calls id with
  | idle => simp [ResetWorld.turn, stage] at taken
  | writing began => simp [ResetWorld.turn, stage] at taken
  | requesting =>
      cases outcome <;> simp only [ResetWorld.turn, stage, Option.some.injEq] at taken <;>
        rw [← taken]
      · exact returns stage world.spawned rfl rfl rfl
      · exact sound.request stage now
  | requested status =>
      simp only [ResetWorld.turn, stage, Option.some.injEq] at taken informed
      rw [← taken]
      exact sound.mark stage rfl rfl informed
  | accepted status =>
      simp only [ResetWorld.turn, stage, Option.some.injEq] at taken
      rw [← taken]
      exact returns stage _ rfl rfl rfl
  | listing =>
      cases outcome <;> simp only [ResetWorld.turn, stage, Option.some.injEq] at taken <;>
        rw [← taken]
      · exact returns stage world.spawned rfl rfl rfl
      · exact sound.list stage .listed rfl rfl (fun _ => rfl) (by simp [ResetCall.arms])
  | listed status =>
      simp only [ResetWorld.turn, stage, Option.some.injEq] at taken informed
      rw [← taken]
      exact sound.mark stage rfl rfl informed
  | rescheduling status =>
      simp only [ResetWorld.turn, stage] at taken
      split at taken <;> obtain rfl := Option.some.inj taken
      · exact returns stage _ rfl rfl rfl
      · exact returns stage world.spawned rfl rfl rfl
  | recovering =>
      cases outcome <;> simp only [ResetWorld.turn, stage, Option.some.injEq] at taken informed <;>
        rw [← taken]
      · exact sound.finish stage rfl rfl (fun _ => informed.symm) rfl world.spawned
      · exact sound.list stage .recovered rfl rfl (fun _ => rfl) (fun _ _ => rfl)
  | recovered status =>
      simp only [ResetWorld.turn, stage, Option.some.injEq] at taken informed
      rw [← taken]
      exact sound.mark stage rfl rfl informed
  | resuming status =>
      simp only [ResetWorld.turn, stage, Option.some.injEq] at taken
      rw [← taken]
      exact sound.resume stage outcome
  | claiming requestId =>
      cases outcome <;> simp only [ResetWorld.turn, stage, Option.some.injEq] at taken <;>
        rw [← taken]
      · exact returns stage world.spawned rfl rfl rfl
      · exact sound.claimRequest stage now
  | claimed requestId =>
      simp only [ResetWorld.turn, stage, Option.some.injEq] at taken informed
      rw [← taken]
      exact sound.mark stage rfl rfl informed
  | blocking requestId =>
      simp only [ResetWorld.turn, stage, Option.some.injEq] at taken informed
      rw [← taken]
      have marked : Sound (world.markResetPending.goOn id (.waiting requestId)) :=
        sound.mark stage rfl rfl informed
      exact ⟨marked.gate, (sound.barrier.join stage).apply world.row world.nextId true world.spawned⟩
  | waiting requestId =>
      cases outcome with
      | error text =>
          simp only [ResetWorld.turn, stage, Option.some.injEq] at taken
          rw [← taken]
          have moved := sound.gate.goOn id (.failing requestId ResetWorld.waitFailed) rfl
            (by simp [stage, ResetCall.arms]) (by simp [stage])
          exact ⟨moved, sound.barrier.timeOut stage⟩
      | ok _ =>
          simp only [ResetWorld.turn, stage] at taken
          refine ⟨?_, sound.barrier.acquire taken⟩
          have moved := sound.gate.goOn id (.holding requestId) rfl
            (by simp [stage, ResetCall.arms]) (by simp [stage])
          rw [ResetWorld.acquire] at taken
          split at taken
          next =>
            obtain rfl := Option.some.inj taken
            exact moved
          next => simp at taken
  | holding requestId =>
      cases outcome <;> simp only [ResetWorld.turn, stage, Option.some.injEq] at taken <;>
        rw [← taken]
      · exact plain stage rfl rfl rfl
      · have moved := sound.gate.goOn id (.wiped requestId) rfl
          (by simp [stage, ResetCall.arms]) (by simp [stage])
        exact ⟨moved, sound.barrier.wipe stage⟩
  | wiped requestId =>
      cases outcome <;> simp only [ResetWorld.turn, stage, Option.some.injEq] at taken <;>
        rw [← taken]
      · exact plain stage rfl rfl rfl
      · exact plain stage rfl rfl rfl
  | completing requestId =>
      cases outcome <;> simp only [ResetWorld.turn, stage, Option.some.injEq] at taken <;>
        rw [← taken]
      · exact plain stage rfl rfl rfl
      · exact sound.complete stage
  | completed =>
      simp only [ResetWorld.turn, stage, Option.some.injEq] at taken informed
      rw [← taken]
      have moved : Fenced (world.goOn id .dropping) := sound.barrier.goOn (by rw [stage]; rfl)
      exact ⟨Armed.clear informed, moved.apply world.row world.nextId false world.spawned⟩
  | failing requestId text =>
      cases outcome <;> simp only [ResetWorld.turn, stage, Option.some.injEq] at taken <;>
        rw [← taken]
      · exact plain stage rfl rfl rfl
      · exact sound.fail stage
  | dropping =>
      simp only [ResetWorld.turn, stage, Option.some.injEq] at taken
      rw [← taken]
      exact returns stage world.spawned rfl rfl rfl

theorem begin (sound : Sound world) {next : ResetWorld}
    (plain : ResetCall.idle.apartFrom call = true) (begun : world.begin id call = some next) :
    Sound next := by
  rw [ResetWorld.begin] at begun
  split at begun
  next idle =>
    obtain rfl := Option.some.inj begun
    exact sound.goOn idle plain rfl (by simp [ResetCall.arms]) rfl
  next => simp at begun

theorem write (sound : Sound world) {next : ResetWorld} (idle : world.calls id = .idle)
    (begun : world.tryBeginWrite id = some next) : Sound next := by
  refine ⟨?_, sound.barrier.write idle begun⟩
  have moved := sound.gate.goOn id (.writing world.wipes) rfl
    (by simp [idle, ResetCall.arms]) (by simp [idle])
  rw [ResetWorld.tryBeginWrite] at begun
  split at begun
  next => simp at begun
  next =>
    obtain rfl := Option.some.inj begun
    exact moved

theorem consolidate (sound : Sound world) {next : ResetWorld} (idle : world.calls id = .idle)
    (begun : world.tryBeginConsolidation id = some next) : Sound next := by
  rw [ResetWorld.tryBeginConsolidation] at begun
  split at begun
  next => simp at begun
  next =>
    obtain ⟨between, first, rfl⟩ := Option.map_eq_some_iff.mp begun
    have written := sound.write idle first
    exact ⟨written.gate, written.barrier.owner, written.barrier.holder, written.barrier.queued,
      written.barrier.apart, written.barrier.reading, written.barrier.timely⟩

theorem step (sound : Sound world) (action : ResetAction) {next : ResetWorld}
    (informed : Informed action world) (taken : resetStep action world = some next) :
    Sound next := by
  cases action with
  | requestReset id => exact sound.begin rfl taken
  | spawnPending id => exact sound.begin rfl taken
  | recover id =>
      -- a recovery that has only begun arms the gate if it goes on
      exact sound.begin rfl taken
  | process id requestId =>
      rw [resetStep] at taken
      split at taken
      next =>
        have started : Sound { world with spawned := world.spawned.erase requestId } :=
          ⟨sound.gate, sound.barrier.apply world.row world.nextId world.blocked _⟩
        exact started.begin rfl taken
      next => simp at taken
  | turn id now outcome => exact sound.turn informed taken
  | write id =>
      rw [resetStep] at taken
      split at taken
      next idle => exact sound.write idle taken
      next => simp at taken
  | consolidate id =>
      rw [resetStep] at taken
      split at taken
      next idle => exact sound.consolidate idle taken
      next => simp at taken
  | commit id =>
      rw [resetStep] at taken
      split at taken
      next began stage =>
        obtain rfl := Option.some.inj taken
        exact ⟨sound.gate, sound.barrier.commit stage⟩
      next => simp at taken
  | returns id =>
      rw [resetStep] at taken
      split at taken
      next began stage =>
        obtain rfl := Option.some.inj taken
        exact sound.finish stage rfl rfl (by simp [ResetCall.arms]) rfl world.spawned
      next => simp at taken

theorem gateAgrees (sound : Sound world) : GateAgrees world where
  timely := sound.barrier.timely
  agrees quiet := by
    have none' (kind : ResetCall → Bool) (active : ∀ call, kind call = true →
        call.inProgress = true) (id : Nat) : kind (world.calls id) ≠ true := by
      intro found
      simpa [quiet id] using active _ found
    have free : world.resetter = none := by
      cases held : world.resetter with
      | none => rfl
      | some id =>
          refine absurd (sound.barrier.owner id held) (none' _ ?_ id)
          intro call
          cases call <;> simp [ResetCall.mayHoldBarrier, ResetCall.inProgress]
    have empty : world.queue = [] := by
      rw [List.eq_nil_iff_forall_not_mem]
      intro id waits
      refine absurd (sound.barrier.queued id waits) (none' _ ?_ id)
      intro call
      cases call <;> simp [ResetCall.isWaiting, ResetCall.inProgress]
    simp only [ResetWorld.refusesWrites, free, empty, Option.isSome_none, List.isEmpty_nil,
      Bool.not_true, Bool.or_false]
    constructor
    · intro blocked
      obtain present | ⟨id, completed⟩ := sound.gate.owed blocked
      · exact present
      · have active := quiet id
        simp [completed, ResetCall.inProgress] at active
    · intro present
      obtain blocked | ⟨id, arms⟩ := sound.gate.armed present
      · exact blocked
      · refine absurd arms (none' _ ?_ id)
        intro call
        cases call <;> simp [ResetCall.arms, ResetCall.inProgress]

end Sound

/--
No call is in progress and the gate agrees with the row; or the process has just started, and the
recovery is about to read the rows.
-/
structure Started (world : ResetWorld) : Prop where
  barrier : world.readers = [] ∧ world.queue = [] ∧ world.resetter = none ∧ world.commits = []
  calls : ∀ id, world.calls id = .idle ∨ world.calls id = .recovering
  gate : world.blocked = world.row.isSome ∨
    world.blocked = false ∧ ∃ id, world.calls id = .recovering

theorem Started.sound {world : ResetWorld} (started : Started world) : Sound world := by
  have ⟨readers, queue, resetter, commits⟩ := started.barrier
  have quiet (kind : ResetCall → Bool) (idle : kind .idle = false) (recovering : kind .recovering = false)
      (id : Nat) : kind (world.calls id) = false := by
    obtain same | same := started.calls id <;> simp [same, idle, recovering]
  constructor
  · constructor
    · intro present
      obtain agrees | ⟨_, id, recovering⟩ := started.gate
      · exact Or.inl (agrees.trans present)
      · exact Or.inr ⟨id, by rw [recovering]; rfl⟩
    · intro blocked
      obtain agrees | ⟨open', _⟩ := started.gate
      · exact Or.inl (agrees.symm.trans blocked)
      · simp [open'] at blocked
  · constructor
    · simp [resetter]
    · intro id holding
      simp [quiet ResetCall.isHolding rfl rfl id] at holding
    · simp [queue]
    · simp [readers]
    · intro id began here
      have writes := quiet ResetCall.isWriting rfl rfl id
      simp [here, ResetCall.isWriting] at writes
    · simp [commits]

theorem gateAgrees_run (start last : ResetWorld) (actions : List ResetAction)
    (started : Started start)
    (informed : Machine.Guarded resetStep Informed actions start)
    (reached : Machine.run resetStep actions start = some last) : GateAgrees last := by
  have sound := Machine.invariant_run resetStep Informed Sound
    (fun action _ _ sound allowed taken => sound.step action allowed taken)
    actions start last started.sound informed reached
  exact sound.gateAgrees

section Runs

def calmWorld : ResetWorld where
  row := none
  nextId := 0
  blocked := false
  consolidation := none
  readers := []
  queue := []
  resetter := none
  wipes := 0
  commits := []
  spawned := []
  calls := fun _ => .idle

theorem calmWorld_started : Started calmWorld where
  barrier := ⟨rfl, rfl, rfl, rfl⟩
  calls _ := Or.inl rfl
  gate := Or.inl rfl

def goesOn (id : Nat) : ResetAction := .turn id 0 (.ok ())

def resetThenWrite : List ResetAction :=
  .requestReset 0 :: List.replicate 3 (goesOn 0) ++ .process 1 0 :: List.replicate 9 (goesOn 1) ++
    [.write 2, .commit 2, .returns 2]

def joinedTooLate : List ResetAction :=
  .requestReset 0 :: List.replicate 3 (goesOn 0) ++ .process 1 0 :: List.replicate 6 (goesOn 1) ++
    [.requestReset 2, goesOn 2] ++ List.replicate 3 (goesOn 1) ++ List.replicate 2 (goesOn 2) ++
    [.process 3 0, goesOn 3]

def afterCalls (actions : List ResetAction) : Option ResetWorld :=
  Machine.run resetStep actions calmWorld

def marksRow (action : ResetAction) (world : ResetWorld) : Bool :=
  match action with
  | .turn id _ outcome =>
      match world.calls id, outcome with
      | .requested _, _ | .listed _, _ | .recovered _, _ | .claimed _, _ | .blocking _, _ =>
          world.row.isSome
      | .completed, _ => world.row.isNone
      | .recovering, .error _ => world.row.isNone
      | _, _ => true
  | _ => true

theorem informed_of_marksRow (action : ResetAction) (world : ResetWorld)
    (marks : marksRow action world = true) : Informed action world := by
  cases action with
  | turn id now outcome =>
      cases stage : world.calls id <;> cases outcome <;> simp_all [marksRow, Informed]
  | _ => trivial

theorem gateAgrees_resetThenWrite :
    (afterCalls resetThenWrite).elim False GateAgrees := by
  have ends : (afterCalls resetThenWrite).isSome = true := by decide
  cases ran : afterCalls resetThenWrite with
  | none => simp [ran] at ends
  | some last =>
      have guarded : Machine.Guarded resetStep (fun action world => marksRow action world = true)
          resetThenWrite calmWorld := by
        decide
      exact gateAgrees_run calmWorld last resetThenWrite calmWorld_started
        (guarded.mono informed_of_marksRow) ran

theorem joinedTooLate_quiet : ∀ id, (afterCalls joinedTooLate).map (fun last => last.calls id) =
    some .idle
  | 0 => by decide
  | 1 => by decide
  | 2 => by decide
  | 3 => by decide
  | _ + 4 => rfl

theorem locked_out :
    (afterCalls joinedTooLate).elim False fun last =>
      (∀ id, last.calls id = .idle) ∧ ¬ GateAgrees last := by
  have gate : (afterCalls joinedTooLate).map (fun last => (last.refusesWrites, last.row)) =
      some (true, none) := by
    decide
  cases ran : afterCalls joinedTooLate with
  | none => simp [ran] at gate
  | some last =>
      simp only [ran, Option.map_some, Option.some.injEq, Prod.mk.injEq] at gate
      have quiet : ∀ id, last.calls id = .idle := fun id => by
        simpa [ran] using joinedTooLate_quiet id
      refine ⟨quiet, fun agrees => ?_⟩
      have refused := (agrees.agrees fun id => by rw [quiet]; rfl).mp gate.1
      simp [gate.2] at refused

end Runs

end Frona.Pkm
