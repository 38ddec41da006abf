import Frona.Task.Cron
import Mathlib.Data.List.Nodup

set_option autoImplicit false

namespace Frona.Task.Cron

section Rows

variable {runs : List Run} {status : TaskStatus}

@[simp] theorem setStatus_length (run : Nat) : (setStatus runs run status).length = runs.length := by
  simp [setStatus]

theorem map_setStatus {A : Type} (field : Run → A)
    (kept : ∀ row : Run, field { row with status := status } = field row) (run : Nat) :
    (setStatus runs run status).map field = runs.map field := by
  unfold setStatus
  induction runs generalizing run with
  | nil => simp
  | cons row rest ih =>
      cases run with
      | zero => simp [kept]
      | succ run => simp [ih]

theorem forall_setStatus {holds : Run → Prop}
    (kept : ∀ row : Run, holds row → holds { row with status := status }) (run : Nat)
    (every : ∀ row ∈ runs, holds row) : ∀ row ∈ setStatus runs run status, holds row := by
  unfold setStatus
  induction runs generalizing run with
  | nil => simp
  | cons row rest ih =>
      simp only [List.mem_cons, forall_eq_or_imp] at every
      cases run with
      | zero =>
          simp only [List.modify_zero_cons, List.mem_cons, forall_eq_or_imp]
          exact ⟨kept row every.1, every.2⟩
      | succ run =>
          simp only [List.modify_succ_cons, List.mem_cons, forall_eq_or_imp]
          exact ⟨every.1, ih run every.2⟩

/-- A write that revives no run: it ends one, or finds it active. -/
def Spares (runs : List Run) (run : Nat) (status : TaskStatus) : Prop :=
  status.isTerminal = true ∨ (runs[run]?).all Run.active = true

theorem countP_setStatus (run : Nat) (spares : Spares runs run status) :
    (setStatus runs run status).countP Run.active ≤ runs.countP Run.active := by
  unfold setStatus Spares at *
  induction runs generalizing run with
  | nil => simp
  | cons row rest ih =>
      cases run with
      | zero =>
          simp only [List.modify_zero_cons, List.countP_cons]
          rcases spares with ended | alive
          next =>
            have quiet : Run.active { row with status := status } = false := by
              simp [Run.active, ended]
            simp [quiet]
          next =>
            have active : row.active = true := by simpa using alive
            simp only [active, if_true]
            split <;> omega
      | succ run =>
          have later := ih run (by simpa using spares)
          simp only [List.modify_succ_cons, List.countP_cons]
          omega

def ActiveAmong (runs : List Run) (named : List Nat) : Prop :=
  ∀ run row, runs[run]? = some row → row.active = true → run ∈ named

theorem activeAmong_setStatus {named : List Nat} (run : Nat) (spares : Spares runs run status)
    (among : ActiveAmong runs named) : ActiveAmong (setStatus runs run status) named := by
  intro other row found active
  unfold setStatus at found
  rw [List.getElem?_modify] at found
  obtain ⟨before, stored, rfl⟩ := Option.map_eq_some_iff.mp found
  by_cases same : run = other
  next =>
    refine among other before stored ?_
    rcases spares with ended | alive
    next => simp [same, Run.active, ended] at active
    next => simpa [same, stored] using alive
  next => exact among other before stored (by simpa [same] using active)

theorem activeAmong_cancelled {run : Nat} {rest : List Nat} (among : ActiveAmong runs (run :: rest)) :
    ActiveAmong (setStatus runs run .cancelled) rest := by
  intro other row found active
  unfold setStatus at found
  rw [List.getElem?_modify] at found
  obtain ⟨before, stored, rfl⟩ := Option.map_eq_some_iff.mp found
  by_cases same : run = other
  next => simp [same, Run.active, TaskStatus.isTerminal] at active
  next =>
    have named := among other before stored (by simpa [same] using active)
    simpa [Ne.symm same] using named

theorem activeAmong_rest {run : Nat} {rest : List Nat} (among : ActiveAmong runs (run :: rest))
    (ended : (runs[run]?).all (!·.active) = true) : ActiveAmong runs rest := by
  intro other row found active
  rcases List.mem_cons.mp (among other row found active) with rfl | named
  next => simp [found, active] at ended
  next => exact named

theorem activeAmong_found : ActiveAmong runs (findActiveRunsByCron runs) := by
  intro run row found active
  have within := (List.getElem?_eq_some_iff.mp found).1
  refine List.mem_filter.mpr ⟨List.mem_range.mpr within, ?_⟩
  rw [found]
  exact active

theorem activeAmong_nil : ActiveAmong runs [] ↔ ∀ row ∈ runs, row.active = false := by
  constructor
  · intro among row member
    obtain ⟨run, found⟩ := List.mem_iff_getElem?.mp member
    cases active : row.active with
    | false => rfl
    | true => exact absurd (among run row found active) List.not_mem_nil
  · intro idle run row found active
    simp [idle row (List.mem_of_getElem? found)] at active

end Rows

section Invariant

variable (concurrency : CronConcurrency)

structure Opening (store : Store) (due : Int) (named : List Nat) : Prop where
  live : store.cancelled = false
  time : store.template.nextRunAt = due
  reached : due ≤ store.now
  first : ∀ run ∈ store.runs, run.due < due
  alone : concurrency ≠ .allow → ActiveAmong store.runs named

structure Closing (store : Store) (due : Int) : Prop where
  time : store.template.nextRunAt = due
  last : ∀ run ∈ store.runs, run.due ≤ due

def Fire.Held (store : Store) (fire : Fire) : Prop :=
  match fire.stage with
  | .looking => Opening .allow store fire.due []
  | .replacing runs => concurrency = .replace ∧ Opening concurrency store fire.due runs
  | .counting => Opening concurrency store fire.due []
  | .spawning sequenceNum =>
      sequenceNum = store.runs.length + 1 ∧ Opening concurrency store fire.due []
  | .reading => store.cancelled = false → Closing store fire.due
  | .advancing copy next =>
      copy.status = store.template.status ∧ (∀ run ∈ store.runs, run.due < next) ∧
        (store.cancelled = false → Closing store fire.due)

def FiresHeld (store : Store) : List Fire → Prop
  | [] => store.cancelled = false → ∀ run ∈ store.runs, run.due < store.template.nextRunAt
  | [fire] => fire.Held concurrency store
  | _ => False

structure Store.Consistent (store : Store) : Prop where
  once : (store.runs.map (·.due)).Nodup
  single : concurrency = .forbid → store.runs.countP Run.active ≤ 1
  replaced : concurrency = .replace → ∀ run ∈ store.runs, run.alone = true
  numbered : store.runs.map (·.sequenceNum) = List.range' 1 store.runs.length
  status : store.template.status = if store.cancelled then .cancelled else .pending
  timely : ∀ run ∈ store.runs, run.late = false
  past : ∀ run ∈ store.runs, run.due ≤ store.now

variable {concurrency} {store : Store}

theorem consistent_sound (consistent : store.Consistent concurrency) : store.Sound concurrency where
  once := consistent.once
  single := consistent.single
  replaced := consistent.replaced
  numbered := by
    rw [consistent.numbered]
    exact List.nodup_range'
  final := by
    intro cancelled
    simp [consistent.status, cancelled]
  timely := consistent.timely

theorem opening_mark {due : Int} {named rest : List Nat} {run : Nat} {status : TaskStatus}
    (among : ActiveAmong store.runs named → ActiveAmong (setStatus store.runs run status) rest)
    (opening : Opening concurrency store due named) :
    Opening concurrency (store.mark run status) due rest where
  live := opening.live
  time := opening.time
  reached := opening.reached
  first := forall_setStatus (fun _ before => before) run opening.first
  alone mode := among (opening.alone mode)

theorem closing_mark {due : Int} {run : Nat} {status : TaskStatus} (closing : Closing store due) :
    Closing (store.mark run status) due :=
  ⟨closing.time, forall_setStatus (fun _ before => before) run closing.last⟩

theorem closing_opening {due : Int} {named : List Nat} (opening : Opening concurrency store due named) :
    Closing store due :=
  ⟨opening.time, fun run stored => (opening.first run stored).le⟩

theorem unfired_before {due : Int} (unfired : store.unfired due = true)
    (status : store.template.status = if store.cancelled then .cancelled else .pending)
    (closing : store.cancelled = false → Closing store due) (live : store.cancelled = false) :
    ∀ run ∈ store.runs, run.due < store.template.nextRunAt := by
  intro run stored
  obtain ⟨time, last⟩ := closing live
  have apart : run.due ≠ due := by
    have pending : store.template.status.isTerminal = false := by
      simp [status, live, TaskStatus.isTerminal]
    simp only [Store.unfired, pending, Bool.false_or, List.all_eq_true] at unfired
    simpa using unfired run stored
  have before := last run stored
  omega

theorem consistent_mark {run : Nat} {status : TaskStatus} (spares : Spares store.runs run status)
    (consistent : store.Consistent concurrency) : (store.mark run status).Consistent concurrency where
  once := by
    rw [Store.mark, map_setStatus _ (fun _ => rfl)]
    exact consistent.once
  single mode := le_trans (countP_setStatus run spares) (consistent.single mode)
  replaced mode := forall_setStatus (fun _ before => before) run (consistent.replaced mode)
  numbered := by
    rw [Store.mark, map_setStatus (·.sequenceNum) (fun _ => rfl), setStatus_length]
    exact consistent.numbered
  status := consistent.status
  timely := forall_setStatus (fun _ before => before) run consistent.timely
  past := forall_setStatus (fun _ before => before) run consistent.past

theorem fires_mark {run : Nat} {status : TaskStatus} {fires : List Fire}
    (spares : Spares store.runs run status) (held : FiresHeld concurrency store fires) :
    FiresHeld concurrency (store.mark run status) fires := by
  have among : ∀ named, ActiveAmong store.runs named →
      ActiveAmong (setStatus store.runs run status) named :=
    fun _ => activeAmong_setStatus run spares
  match fires with
  | [] => exact fun live => forall_setStatus (fun _ before => before) run (held live)
  | [⟨due, stage⟩] =>
      cases stage with
      | looking => exact opening_mark (among []) held
      | replacing runs => exact ⟨held.1, opening_mark (among runs) held.2⟩
      | counting => exact opening_mark (among []) held
      | spawning sequenceNum => exact ⟨by simp [Store.mark, held.1], opening_mark (among []) held.2⟩
      | reading => exact fun live => closing_mark (held live)
      | advancing copy next =>
          exact ⟨held.1, forall_setStatus (fun _ before => before) run held.2.1,
            fun live => closing_mark (held.2.2 live)⟩
  | _ :: _ :: _ => exact held.elim

end Invariant

section Steps

variable {concurrency : CronConcurrency} {nextOccurrence : Int → Option Int} {store : Store}
  {world next : World}

theorem Opening.of_allow {due : Int} {named : List Nat} (opening : Opening .allow store due [])
    (among : concurrency ≠ .allow → ActiveAmong store.runs named) :
    Opening concurrency store due named where
  live := opening.live
  time := opening.time
  reached := opening.reached
  first := opening.first
  alone := among

theorem consistent_spawn {due : Int} (consistent : store.Consistent concurrency)
    (opening : Opening concurrency store due []) :
    (store.spawn due (store.runs.length + 1)).Consistent concurrency := by
  have idle : concurrency ≠ .allow → ∀ run ∈ store.runs, run.active = false :=
    fun mode => activeAmong_nil.mp (opening.alone mode)
  refine ⟨?_, ?_, ?_, ?_, consistent.status, ?_, ?_⟩
  · have fresh : due ∉ store.runs.map (·.due) := by
      intro member
      obtain ⟨run, stored, same⟩ := List.mem_map.mp member
      have before := opening.first run stored
      omega
    simpa [Store.spawn, List.nodup_append, consistent.once] using fresh
  · intro mode
    have none : store.runs.countP Run.active = 0 := by
      rw [List.countP_eq_zero]
      intro run stored
      simp [idle (by simp [mode]) run stored]
    simp only [Store.spawn, List.countP_append, none, zero_add]
    exact List.countP_le_length
  · intro mode run member
    rcases List.mem_append.mp member with old | new
    next => exact consistent.replaced mode run old
    next =>
      rw [List.mem_singleton.mp new]
      simpa using idle (by simp [mode])
  · simp [Store.spawn, consistent.numbered, List.range'_concat, Nat.add_comm]
  · intro run member
    rcases List.mem_append.mp member with old | new
    next => exact consistent.timely run old
    next =>
      rw [List.mem_singleton.mp new]
      exact opening.live
  · intro run member
    rcases List.mem_append.mp member with old | new
    next => exact consistent.past run old
    next =>
      rw [List.mem_singleton.mp new]
      exact opening.reached

theorem consistent_cancelRun {fails : Bool} (run : Nat) (consistent : store.Consistent concurrency) :
    (store.cancelRun fails run).Consistent concurrency := by
  cases fails with
  | true => exact consistent
  | false => exact consistent_mark (.inl rfl) consistent

theorem fires_cancelRun {fails : Bool} (run : Nat) {fires : List Fire}
    (held : FiresHeld concurrency store fires) :
    FiresHeld concurrency (store.cancelRun fails run) fires := by
  cases fails with
  | true => exact held
  | false => exact fires_mark (.inl rfl) held

theorem fire_go {fire : Fire} {fails : Bool}
    (later : ∀ now next, nextOccurrence now = some next → now < next)
    (consistent : store.Consistent concurrency) (held : fire.Held concurrency store)
    (calm : fire.calm concurrency nextOccurrence fails store = true) :
    (fire.go concurrency nextOccurrence fails store).1.Consistent concurrency ∧
      FiresHeld concurrency (fire.go concurrency nextOccurrence fails store).1
        (((fire.go concurrency nextOccurrence fails store).2.map
          fun stage => ⟨fire.due, stage⟩).toList) := by
  obtain ⟨due, stage⟩ := fire
  cases stage with
  | looking =>
      cases fails with
      | true =>
          have idle : concurrency ≠ .allow → ActiveAmong store.runs [] := by
            intro mode
            exact activeAmong_nil.mpr (by simpa [Fire.calm, mode] using calm)
          exact ⟨consistent, Opening.of_allow held idle⟩
      | false =>
          have found : ActiveAmong store.runs (findActiveRunsByCron store.runs) := activeAmong_found
          simp only [Fire.go, Bool.false_eq_true, if_false]
          split
          next none =>
            rw [none] at found
            exact ⟨consistent, Opening.of_allow held fun _ => found⟩
          next => exact ⟨consistent, Opening.of_allow held fun mode => absurd rfl mode⟩
          next => exact ⟨consistent, fun _ => closing_opening held⟩
          next => exact ⟨consistent, rfl, Opening.of_allow held fun _ => found⟩
  | replacing runs =>
      obtain ⟨mode, opening⟩ := held
      cases runs with
      | nil => exact ⟨consistent, opening⟩
      | cons run rest =>
          refine ⟨consistent_cancelRun run consistent, ?_⟩
          have opening : Opening concurrency (store.cancelRun fails run) due rest := by
            cases fails with
            | true =>
                have ended : (store.runs[run]?).all (!·.active) = true := by
                  simpa [Fire.calm] using calm
                exact { opening with alone := fun mode => activeAmong_rest (opening.alone mode) ended }
            | false => exact opening_mark activeAmong_cancelled opening
          simp only [Fire.go, Option.map_some, Option.toList_some]
          cases rest with
          | nil => exact opening
          | cons second rest => exact ⟨mode, opening⟩
  | counting =>
      cases fails with
      | true =>
          have none : store.runs = [] := by simpa [Fire.calm] using calm
          exact ⟨consistent, by simp [Fire.go, none], held⟩
      | false => exact ⟨consistent, rfl, held⟩
  | spawning sequenceNum =>
      obtain ⟨rfl, opening⟩ := held
      cases fails with
      | true => exact ⟨consistent, fun _ => closing_opening opening⟩
      | false =>
          refine ⟨consistent_spawn consistent opening, fun _ => ⟨opening.time, fun run member => ?_⟩⟩
          rcases List.mem_append.mp member with old | new
          next => exact (opening.first run old).le
          next =>
            rw [List.mem_singleton.mp new]
  | reading =>
      have ends : (fails = true ∨ nextOccurrence store.now = none) →
          store.Consistent concurrency ∧ FiresHeld concurrency store [] := by
        intro fails
        refine ⟨consistent, unfired_before ?_ consistent.status held⟩
        rcases fails with rfl | found
        next => simpa [Fire.calm] using calm
        next => simpa [Fire.calm, found] using calm
      cases found : nextOccurrence store.now with
      | none => simpa [Fire.go, found] using ends (.inr found)
      | some following =>
          cases fails with
          | true => simpa [Fire.go, found] using ends (.inl rfl)
          | false =>
              simp only [Fire.go, found]
              refine ⟨consistent, rfl, fun run member => ?_, held⟩
              have before := consistent.past run member
              have after := later _ _ found
              omega
  | advancing copy next =>
      obtain ⟨same, first, closing⟩ := held
      cases fails with
      | true =>
          have unfired : store.unfired due = true := by simpa [Fire.calm] using calm
          exact ⟨consistent, unfired_before unfired consistent.status closing⟩
      | false =>
          exact ⟨⟨consistent.once, consistent.single, consistent.replaced, consistent.numbered,
            same.trans consistent.status, consistent.timely, consistent.past⟩, fun _ => first⟩

theorem cancel_go {cancel : Cancel} {fails : Bool} {fires : List Fire}
    (consistent : store.Consistent concurrency) (held : FiresHeld concurrency store fires)
    (quiet : ∀ copy, cancel = .writing copy → fails = false →
      ∀ fire ∈ fires, fire.stage.settled = true) :
    (cancel.go fails store).1.Consistent concurrency ∧
      FiresHeld concurrency (cancel.go fails store).1 fires := by
  cases cancel with
  | looking => exact ⟨consistent, held⟩
  | listing =>
      simp only [Cancel.go]
      split
      next => exact ⟨consistent, held⟩
      next => exact ⟨consistent, held⟩
  | marking runs =>
      cases runs with
      | nil => exact ⟨consistent, held⟩
      | cons run rest => exact ⟨consistent_cancelRun run consistent, fires_cancelRun run held⟩
  | reading => exact ⟨consistent, held⟩
  | writing copy =>
      cases fails with
      | true => exact ⟨consistent, held⟩
      | false =>
          refine ⟨⟨consistent.once, consistent.single, consistent.replaced, consistent.numbered, by
            simp [Cancel.go], consistent.timely, consistent.past⟩, ?_⟩
          match fires with
          | [] =>
              intro live
              simp [Cancel.go] at live
          | [⟨due, stage⟩] =>
              -- The fire has created its run, or skipped it, and reads the row again.
              have settled := quiet copy rfl rfl ⟨due, stage⟩ (by simp)
              cases stage with
              | reading =>
                  intro live
                  simp [Cancel.go] at live
              | _ => simp [Stage.settled] at settled
          | _ :: _ :: _ => exact held.elim

theorem store_tick (seconds : Nat) {fires : List Fire} (consistent : store.Consistent concurrency)
    (held : FiresHeld concurrency store fires) :
    { store with now := store.now + seconds }.Consistent concurrency ∧
      FiresHeld concurrency { store with now := store.now + seconds } fires := by
  have opening : ∀ mode due named, Opening mode store due named →
      Opening mode { store with now := store.now + seconds } due named := by
    intro mode due named before
    have reached := before.reached
    exact ⟨before.live, before.time, by simp only; omega, before.first, before.alone⟩
  refine ⟨⟨consistent.once, consistent.single, consistent.replaced, consistent.numbered,
    consistent.status, consistent.timely, ?_⟩, ?_⟩
  · intro run member
    have before := consistent.past run member
    simp only
    omega
  · match fires with
    | [] => exact held
    | [⟨due, stage⟩] =>
        cases stage with
        | looking => exact opening _ _ _ held
        | replacing runs => exact ⟨held.1, opening _ _ _ held.2⟩
        | counting => exact opening _ _ _ held
        | spawning sequenceNum => exact ⟨held.1, opening _ _ _ held.2⟩
        | reading => exact fun live => ⟨(held live).time, (held live).last⟩
        | advancing copy next =>
            exact ⟨held.1, held.2.1, fun live => ⟨(held.2.2 live).time, (held.2.2 live).last⟩⟩
    | _ :: _ :: _ => exact held.elim

def World.Held (concurrency : CronConcurrency) (world : World) : Prop :=
  world.store.Consistent concurrency ∧ FiresHeld concurrency world.store world.fires

theorem held_step (later : ∀ now next, nextOccurrence now = some next → now < next)
    (event : Event) (held : world.Held concurrency)
    (calm : event.calm concurrency nextOccurrence world = true)
    (taken : step concurrency nextOccurrence event world = some next) : next.Held concurrency := by
  obtain ⟨consistent, fires⟩ := held
  cases event with
  | poll =>
      obtain rfl := Option.some.inj taken
      split
      next due =>
        have none : world.fires = [] := by simpa [Event.calm, due] using calm
        simp only [Store.due, decide_eq_true_eq] at due
        have live : world.store.cancelled = false := by
          cases cancelled : world.store.cancelled with
          | false => rfl
          | true => simp [consistent.status, cancelled] at due
        rw [none] at fires
        refine ⟨consistent, ?_⟩
        simp only [none, List.nil_append]
        exact ⟨live, rfl, due.2, fires live, fun mode => absurd rfl mode⟩
      next => exact ⟨consistent, fires⟩
  | fire index fails =>
      simp only [step] at taken
      cases found : world.fires[index]? with
      | none => simp [found] at taken
      | some fire =>
          simp only [found, Option.some.injEq] at taken
          subst taken
          match here : world.fires with
          | [] => simp [here] at found
          | [only] =>
              rw [here] at found fires
              obtain ⟨first, rfl⟩ : index = 0 ∧ only = fire := by
                cases index with
                | zero => exact ⟨rfl, by simpa using found⟩
                | succ index => simp at found
              have succeeds : only.calm concurrency nextOccurrence fails world.store = true := by
                simpa [Event.calm, here, first] using calm
              obtain ⟨after, left⟩ := fire_go later consistent fires succeeds
              refine ⟨after, ?_⟩
              subst first
              cases stage : (only.go concurrency nextOccurrence fails world.store).2 with
              | none => simpa [stage, advance] using left
              | some stage' => simpa [stage, advance] using left
          | _ :: _ :: _ =>
              rw [here] at fires
              exact fires.elim
  | cancel =>
      obtain rfl := Option.some.inj taken
      exact ⟨consistent, fires⟩
  | cancelTask =>
      obtain rfl := Option.some.inj taken
      exact ⟨consistent, fires⟩
  | goCancel index fails =>
      simp only [step] at taken
      cases found : world.cancels[index]? with
      | none => simp [found] at taken
      | some cancel =>
          simp only [found, Option.some.injEq] at taken
          subst taken
          refine cancel_go consistent fires ?_
          rintro copy rfl rfl
          simpa [Event.calm, found] using calm
  | mark run write =>
      obtain rfl := Option.some.inj taken
      have spares : Spares world.store.runs run write.status := by
        simpa [Event.calm, Spares] using calm
      exact ⟨consistent_mark spares consistent, fires_mark spares fires⟩
  | tick seconds =>
      obtain rfl := Option.some.inj taken
      exact store_tick seconds consistent fires

theorem held_start (nextRunAt now : Int) : (start nextRunAt now).Held concurrency := by
  refine ⟨⟨?_, ?_, ?_, ?_, ?_, ?_, ?_⟩, ?_⟩
  all_goals simp [start, FiresHeld]

/-- A template fires once for each time, in its mode, until it is cancelled. -/
theorem cron_fires_once (concurrency : CronConcurrency) (nextOccurrence : Int → Option Int)
    (later : ∀ now next, nextOccurrence now = some next → now < next) (nextRunAt now : Int)
    (events : List Event) (last : World)
    (reached : Machine.run (step concurrency nextOccurrence) events (start nextRunAt now) = some last)
    (calm : Machine.Guarded (step concurrency nextOccurrence)
      (fun event world => event.calm concurrency nextOccurrence world = true) events (start nextRunAt now)) :
    last.store.Sound concurrency :=
  consistent_sound (Machine.invariant_run _ _ (World.Held concurrency)
    (fun event _ _ held calm taken => held_step later event held calm taken)
    events _ last (held_start nextRunAt now) calm reached).1

def tenths (now : Int) : Option Int := some ((now / 10 + 1) * 10)

@[reducible] def goes : Event := .fire 0 false

@[reducible] def goesOn : Event := .goCancel 0 false

def settledRun : List Event :=
  [.poll, goes, goes, goes, goes, goes, .mark 0 (.inProgress none), .tick 10, .poll, goes, goes,
    goes, .mark 0 (.completed none), .tick 10, .poll, goes, goes, goes, .cancel, goesOn, goesOn,
    goesOn, goesOn, goesOn, goes, goes]

theorem cron_fires_once_settled :
    ∃ last, Machine.run (step .forbid tenths) settledRun (start 0 0) = some last ∧
      last.store.runs.map (·.due) = [0, 20] ∧ last.store.Sound .forbid :=
  ⟨_, rfl, by decide, cron_fires_once .forbid tenths
    (fun now next found => by simp only [tenths, Option.some.injEq] at found; omega) 0 0
    settledRun _ rfl (by decide)⟩

theorem overlapping_polls_fire_twice :
    (∃ last, Machine.run (step .forbid tenths)
        [.poll, .poll, goes, .fire 1 false, goes, .fire 1 false, goes, .fire 1 false]
        (start 0 0) = some last ∧
      last.store.runs.map (fun run => (run.due, run.sequenceNum, run.status)) =
        [(0, 1, .pending), (0, 1, .pending)] ∧ ¬ last.store.Sound .forbid) ∧
      (∃ last, Machine.run (step .allow tenths)
        [.poll, goes, goes, goes, goes, .cancel, goesOn, goesOn, goesOn, goesOn, goesOn, goes,
          .tick 10, .poll, goes, goes, goes] (start 0 0) = some last ∧ last.store.cancelled = true ∧
        last.store.template.status = .pending ∧
          last.store.runs.map (fun run => (run.due, run.late)) = [(0, false), (10, true)] ∧
            ¬ last.store.Sound .allow) := by
  refine ⟨⟨_, rfl, by decide, ?_⟩, ⟨_, rfl, by decide, by decide,
    by decide, ?_⟩⟩
  · intro sound
    have numbered := sound.numbered
    revert numbered
    decide
  · intro sound
    have final := sound.final rfl
    revert final
    decide

end Steps

end Frona.Task.Cron
