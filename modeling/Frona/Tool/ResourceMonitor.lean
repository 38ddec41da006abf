import Frona.Machine.Run
import Frona.Text.Utf8
import Mathlib.Algebra.BigOperators.Group.List.Basic
import Mathlib.Algebra.Order.BigOperators.Group.List
import Mathlib.Algebra.Order.Ring.Rat
import Mathlib.Data.Char
import Mathlib.Data.List.Dedup
import Mathlib.Data.List.Lex
import Mathlib.Data.List.Sort
import Mathlib.Tactic.Linarith

set_option autoImplicit false

namespace Frona.Tool.ResourceMonitor

open Utf8 (Text)

section Manager

structure AgentLimits where
  cpuPct : ℚ
  memPct : ℚ

structure TrackedProcess where
  agentId : Text
  killed : Bool
  deriving DecidableEq

structure Tracked where
  entries : List (Nat × TrackedProcess)
  nodup : (entries.map Prod.fst).Nodup

def Tracked.empty : Tracked := ⟨[], List.nodup_nil⟩

def Tracked.get (tracked : Tracked) (pid : Nat) : Option TrackedProcess :=
  (tracked.entries.find? fun entry => entry.1 == pid).map Prod.snd

def Tracked.retain (tracked : Tracked) (keep : Nat → Bool) : Tracked :=
  ⟨tracked.entries.filter fun entry => keep entry.1,
    tracked.nodup.sublist (List.filter_sublist.map _)⟩

theorem Tracked.insert_nodup (tracked : Tracked) (pid : Nat) (process : TrackedProcess) :
    (((tracked.retain (· != pid)).entries ++ [(pid, process)]).map Prod.fst).Nodup := by
  rw [List.map_append]
  refine List.Nodup.append (tracked.retain _).nodup (List.nodup_singleton _) ?_
  intro other inside same
  obtain ⟨entry, kept, rfl⟩ := List.mem_map.mp inside
  have apart := (List.mem_filter.mp kept).2
  simp_all

def Tracked.insert (tracked : Tracked) (pid : Nat) (process : TrackedProcess) : Tracked :=
  ⟨(tracked.retain (· != pid)).entries ++ [(pid, process)], tracked.insert_nodup pid process⟩

def markKilled (pid : Nat) (entry : Nat × TrackedProcess) : Nat × TrackedProcess :=
  if entry.1 = pid then (entry.1, { entry.2 with killed := true }) else entry

theorem markKilled_fst (pid : Nat) (entry : Nat × TrackedProcess) :
    (markKilled pid entry).1 = entry.1 := by
  unfold markKilled
  split <;> rfl

-- `entry.killed.store(true)`, where there is such an entry
def Tracked.kill (tracked : Tracked) (pid : Nat) : Tracked :=
  ⟨tracked.entries.map (markKilled pid), by
    rw [List.map_map, show Prod.fst ∘ markKilled pid = Prod.fst from funext (markKilled_fst pid)]
    exact tracked.nodup⟩

def Tracked.isKilled (tracked : Tracked) (pid : Nat) : Bool :=
  (tracked.get pid).any TrackedProcess.killed

structure SystemResourceManager where
  maxAgentCpuPct : ℚ
  maxAgentMemoryPct : ℚ
  maxTotalCpuPct : ℚ
  maxTotalMemoryPct : ℚ
  numCpus : ℚ
  agentLimits : Text → Option AgentLimits
  positive : 0 < numCpus

def SystemResourceManager.effectiveAgentLimits (mgr : SystemResourceManager) (agentId : Text) :
    ℚ × ℚ :=
  match mgr.agentLimits agentId with
  | some limits => (limits.cpuPct, limits.memPct)
  | none => (mgr.maxAgentCpuPct, mgr.maxAgentMemoryPct)

def Tracked.register (tracked : Tracked) (pid : Nat) (agentId : Text) : Tracked :=
  tracked.insert pid ⟨agentId, false⟩

def Tracked.unregister (tracked : Tracked) (pid : Nat) : Tracked := tracked.retain (· != pid)

end Manager

section Usage

structure Usage where
  cpu : ℚ := 0
  mem : ℚ := 0

structure Alpha where
  value : ℚ
  positive : 0 < value
  atMostOne : value ≤ 1

def Usage.update (stored sample : Usage) (alpha : Alpha) : Usage :=
  { cpu := alpha.value * sample.cpu + (1 - alpha.value) * stored.cpu, mem := sample.mem }

structure UsageTracker where
  agentUsage : Text → Option Usage := fun _ => none
  globalUsage : Usage := {}

-- The entry of the agent, or the default one, blended with the sample.
def UsageTracker.updateAgentUsage (tracker : UsageTracker) (alpha : Alpha) (agentId : Text)
    (sample : Usage) : Usage × UsageTracker :=
  let smoothed := ((tracker.agentUsage agentId).getD {}).update sample alpha
  (smoothed,
    { tracker with agentUsage := Function.update tracker.agentUsage agentId (some smoothed) })

structure PidUsage where
  pid : Nat
  agentId : Text
  cpu : ℚ
  memPct : ℚ
  memBytes : Nat
  deriving DecidableEq

inductive Cause where
  | agentMemory
  | agentCpu
  | totalMemory
  | totalCpu
  deriving DecidableEq

def Cause.isGlobal : Cause → Bool
  | .agentMemory | .agentCpu => false
  | .totalMemory | .totalCpu => true

structure Kill where
  pid : Nat
  agentId : Text
  cause : Cause
  deriving DecidableEq

end Usage

section Enforcement

variable (mgr : SystemResourceManager) (alpha : Alpha)

structure Scan where
  agentTotal : Usage := {}
  rawGlobal : Usage := {}
  largestMem : Option (Nat × Nat) := none
  largestCpu : Option (Nat × ℚ) := none

def larger {V : Type} [LT V] [DecidableLT V] (pid : Nat) (value : V) :
    Option (Nat × V) → Option (Nat × V)
  | none => some (pid, value)
  | some (other, prev) => if prev < value then some (pid, value) else some (other, prev)

def Scan.add (scan : Scan) (usage : PidUsage) : Scan where
  agentTotal := ⟨scan.agentTotal.cpu + usage.cpu, scan.agentTotal.mem + usage.memPct⟩
  rawGlobal := ⟨scan.rawGlobal.cpu + usage.cpu, scan.rawGlobal.mem + usage.memPct⟩
  largestMem := larger usage.pid usage.memBytes scan.largestMem
  largestCpu := larger usage.pid usage.cpu scan.largestCpu

def scanUsage (tracked : Tracked) (agentId : Text) (scan : Scan) (usage : PidUsage) : Scan :=
  if usage.agentId ≠ agentId then scan
  else if tracked.isKilled usage.pid then scan
  else scan.add usage

def agentVictim (agentId : Text) (smoothed : Usage) (scan : Scan) : Option Kill :=
  let (maxCpu, maxMem) := mgr.effectiveAgentLimits agentId
  match if maxMem < smoothed.mem then scan.largestMem else none with
  | some (pid, _) => some ⟨pid, agentId, .agentMemory⟩
  | none =>
      if maxCpu < smoothed.cpu then
        scan.largestCpu.map fun largest => ⟨largest.1, agentId, .agentCpu⟩
      else none

structure Enforcing where
  tracked : Tracked
  tracker : UsageTracker
  rawGlobal : Usage := {}
  kills : List Kill := []

def Enforcing.kill (state : Enforcing) (victim : Option Kill) : Enforcing :=
  match victim with
  | none => state
  | some kill =>
      { state with tracked := state.tracked.kill kill.pid, kills := state.kills ++ [kill] }

def enforceAgent (pidUsage : List PidUsage) (state : Enforcing) (agentId : Text) : Enforcing :=
  let scan := pidUsage.foldl (scanUsage state.tracked agentId) { rawGlobal := state.rawGlobal }
  let (smoothed, tracker) := state.tracker.updateAgentUsage alpha agentId scan.agentTotal
  Enforcing.kill { state with tracker := tracker, rawGlobal := scan.rawGlobal }
    (agentVictim mgr agentId smoothed scan)

def agentIds (pidUsage : List PidUsage) : List Text :=
  ((pidUsage.map PidUsage.agentId).insertionSort (· ≤ ·)).dedup

-- The sorts are stable.
def globalVictim (pidUsage : List PidUsage) (tracked : Tracked) (usage : Usage) : Option Kill :=
  if usage.cpu ≤ mgr.maxTotalCpuPct ∧ usage.mem ≤ mgr.maxTotalMemoryPct then none
  else
    let candidates := pidUsage.filter fun usage => !tracked.isKilled usage.pid
    if mgr.maxTotalCpuPct < usage.cpu then
      (candidates.insertionSort fun a b => b.cpu ≤ a.cpu).head?.map fun first =>
        ⟨first.pid, first.agentId, .totalCpu⟩
    else
      (candidates.insertionSort fun a b => b.memBytes ≤ a.memBytes).head?.map fun first =>
        ⟨first.pid, first.agentId, .totalMemory⟩

def enforceGlobal (pidUsage : List PidUsage) (state : Enforcing) : Enforcing :=
  let globalUsage := state.tracker.globalUsage.update state.rawGlobal alpha
  Enforcing.kill { state with tracker := { state.tracker with globalUsage := globalUsage } }
    (globalVictim mgr pidUsage state.tracked globalUsage)

def enforceLimits (pidUsage : List PidUsage) (tracked : Tracked) (tracker : UsageTracker) :
    Enforcing :=
  enforceGlobal mgr alpha pidUsage
    ((agentIds pidUsage).foldl (enforceAgent mgr alpha pidUsage) { tracked, tracker })

end Enforcement

section Polling

structure Reading where
  cpu : ℚ
  memBytes : Nat
  nonneg : 0 ≤ cpu

structure System where
  processes : Nat → Option Reading
  totalMemory : Nat

structure Report where
  live : List PidUsage
  kills : List Kill
  deriving DecidableEq

variable (mgr : SystemResourceManager) (alpha : Alpha) (sys : System)

def Tracked.alive (tracked : Tracked) : Tracked :=
  tracked.retain fun pid => (sys.processes pid).isSome

def usageOf (entry : Nat × TrackedProcess) : Option PidUsage :=
  if entry.2.killed then none
  else (sys.processes entry.1).map fun reading =>
    ⟨entry.1, entry.2.agentId, reading.cpu / mgr.numCpus,
      reading.memBytes / sys.totalMemory * 100, reading.memBytes⟩

def pidUsage (tracked : Tracked) : List PidUsage :=
  (tracked.alive sys).entries.filterMap (usageOf mgr sys)

def retainAgents (live : List PidUsage) (tracker : UsageTracker) : UsageTracker :=
  { tracker with agentUsage := fun agentId =>
      if agentId ∈ live.map PidUsage.agentId then tracker.agentUsage agentId else none }

def pollOnce (tracked : Tracked) (tracker : UsageTracker) :
    Tracked × UsageTracker × Option Report :=
  if tracked.entries = [] then (tracked, {}, none)
  else if sys.totalMemory = 0 then (tracked.alive sys, tracker, none)
  else
    let live := pidUsage mgr sys tracked
    let enforced :=
      enforceLimits mgr alpha live (tracked.alive sys) (retainAgents live tracker)
    (enforced.tracked, enforced.tracker, some ⟨live, enforced.kills⟩)

end Polling

section Runs

inductive Event where
  | registered (pid : Nat) (agentId : Text)
  | polled (report : Report)
  deriving DecidableEq

structure World where
  tracked : Tracked := .empty
  tracker : UsageTracker := {}
  log : List Event := []

inductive Action where
  | register (pid : Nat) (agentId : Text)
  | unregister (pid : Nat)
  /-- The map goes over to another order. -/
  | reorder (entries : List (Nat × TrackedProcess))
  | poll (sys : System)

variable (mgr : SystemResourceManager) (alpha : Alpha)

def Tracked.reorder (tracked : Tracked) (entries : List (Nat × TrackedProcess)) : Tracked :=
  if same : entries.Perm tracked.entries then
    ⟨entries, (same.map Prod.fst).nodup_iff.mpr tracked.nodup⟩
  else tracked

def poll (sys : System) (world : World) : World :=
  let (tracked, tracker, report) := pollOnce mgr alpha sys world.tracked world.tracker
  { tracked, tracker, log := report.toList.map Event.polled ++ world.log }

def step : Action → World → Option World
  | .register pid agentId, world => some { world with
      tracked := world.tracked.register pid agentId
      log := .registered pid agentId :: world.log }
  | .unregister pid, world => some { world with tracked := world.tracked.unregister pid }
  | .reorder entries, world => some { world with tracked := world.tracked.reorder entries }
  | .poll sys, world => some (poll mgr alpha sys world)

end Runs

section Specification

variable (mgr : SystemResourceManager) (alpha : Alpha)

def ofAgent (live : List PidUsage) (agentId : Text) : List PidUsage :=
  live.filter fun usage => decide (usage.agentId = agentId)

def total (live : List PidUsage) : Usage :=
  ⟨(live.map PidUsage.cpu).sum, (live.map PidUsage.memPct).sum⟩

def Since (ended held : Report → Prop) : List Event → Prop
  | [] => False
  | .registered _ _ :: earlier => Since ended held earlier
  | .polled report :: earlier => ¬ ended report ∧ (held report ∨ Since ended held earlier)

def Report.KilledOf (agentId : Text) (report : Report) : Prop :=
  ∃ kill ∈ report.kills, kill.agentId = agentId

def Report.KilledGlobally (report : Report) : Prop :=
  ∃ kill ∈ report.kills, kill.cause.isGlobal = true

def Report.Over (agentId : Text) (report : Report) : Prop :=
  (mgr.effectiveAgentLimits agentId).1 < (total (ofAgent report.live agentId)).cpu

def Report.OverTotal (report : Report) : Prop := mgr.maxTotalCpuPct < (total report.live).cpu

def Ongoing (kill : Kill) (report : Report) (earlier : List Event) : Prop :=
  match kill.cause with
  | .agentCpu =>
      report.Over mgr kill.agentId ∨
        Since (Report.KilledOf kill.agentId) (Report.Over mgr kill.agentId) earlier
  | .totalCpu => report.OverTotal mgr ∨ Since Report.KilledGlobally (Report.OverTotal mgr) earlier
  | .agentMemory | .totalMemory => True

def KilledSince (pid : Nat) : List Event → Prop
  | [] => False
  | .registered other _ :: earlier => pid ≠ other ∧ KilledSince pid earlier
  | .polled report :: earlier => pid ∈ report.kills.map Kill.pid ∨ KilledSince pid earlier

def phaseOneKills (agentId : Text) (report : Option Report) : List Kill :=
  (report.elim [] Report.kills).filter fun kill =>
    decide (kill.agentId = agentId) && !kill.cause.isGlobal

structure Alike (agentId : Text) (world other : World) (sys sys' : System) : Prop where
  tracked : (world.tracked.entries.filter fun entry => decide (entry.2.agentId = agentId)) =
    other.tracked.entries.filter fun entry => decide (entry.2.agentId = agentId)
  stored : world.tracker.agentUsage agentId = other.tracker.agentUsage agentId
  memory : sys.totalMemory = sys'.totalMemory
  readings : ∀ entry ∈ world.tracked.entries, entry.2.agentId = agentId →
    sys.processes entry.1 = sys'.processes entry.1

structure Fair (report : Report) (earlier : List Event) : Prop where
  ongoing : ∀ kill ∈ report.kills, Ongoing mgr kill report earlier
  onePerAgent : ∀ agentId, (phaseOneKills agentId (some report)).length ≤ 1
  oneGlobal : (report.kills.filter fun kill => kill.cause.isGlobal).length ≤ 1
  distinct : (report.kills.map Kill.pid).Nodup
  once : ∀ kill ∈ report.kills, ¬ KilledSince kill.pid earlier

structure Sound (world : World) : Prop where
  fair : ∀ report earlier, .polled report :: earlier <:+ world.log → Fair mgr report earlier
  isolated : ∀ agentId other sys sys', Alike agentId world other sys sys' →
    phaseOneKills agentId (pollOnce mgr alpha sys world.tracked world.tracker).2.2 =
      phaseOneKills agentId (pollOnce mgr alpha sys' other.tracked other.tracker).2.2

def OverLimits (live : List PidUsage) (tracker : UsageTracker) (agentId : Text) : Prop :=
  let (maxCpu, maxMem) := mgr.effectiveAgentLimits agentId
  let sample := total (ofAgent live agentId)
  maxMem < sample.mem ∨
    alpha.value * (maxCpu - sample.cpu) <
      (1 - alpha.value) * (((tracker.agentUsage agentId).getD {}).cpu - maxCpu)

def Report.LeftNobody (report : Report) : Prop :=
  ∀ usage ∈ report.live, usage.pid ∈ report.kills.map Kill.pid

/-- What the averages have from before does not decide a kill. -/
structure Calm (live : List PidUsage) (world : World) : Prop where
  agents : ∀ usage ∈ live,
    let (maxCpu, maxMem) := mgr.effectiveAgentLimits usage.agentId
    let sample := total (ofAgent live usage.agentId)
    let stored := (world.tracker.agentUsage usage.agentId).getD {}
    maxCpu < sample.cpu ∨
      (1 - alpha.value) * (stored.cpu - maxCpu) ≤ alpha.value * (maxCpu - sample.cpu) ∨
      maxMem < sample.mem
  all : mgr.maxTotalCpuPct < (total live).cpu ∨
    (1 - alpha.value) * (world.tracker.globalUsage.cpu - mgr.maxTotalCpuPct) ≤
      alpha.value * (mgr.maxTotalCpuPct - (total live).cpu) ∨
    (∀ usage ∈ live, OverLimits mgr alpha live world.tracker usage.agentId ∧
      ∀ other ∈ live, other.agentId = usage.agentId → other = usage) ∨
    Since Report.KilledGlobally (fun report => report.OverTotal mgr ∧ report.LeftNobody) world.log

def CalmAction : Action → World → Prop
  | .poll sys, world =>
      world.tracked.entries = [] ∨ sys.totalMemory = 0 ∨
        Calm mgr alpha (pidUsage mgr sys world.tracked) world
  | _, _ => True

end Specification

section Lookup

variable {tracked : Tracked} {pid other : Nat} {process : TrackedProcess}

theorem Tracked.get_eq_some :
    tracked.get pid = some process ↔ (pid, process) ∈ tracked.entries := by
  unfold Tracked.get
  constructor
  · intro found
    obtain ⟨entry, first, rfl⟩ := Option.map_eq_some_iff.mp found
    have same : entry.1 = pid := by simpa using List.find?_some first
    rw [← same]
    exact List.mem_of_find?_eq_some first
  · intro member
    cases found : tracked.entries.find? fun entry => entry.1 == pid with
    | none => simpa using List.find?_eq_none.mp found _ member
    | some entry =>
        have same : entry.1 = (pid, process).1 := by simpa using List.find?_some found
        have equal := List.inj_on_of_nodup_map tracked.nodup (List.mem_of_find?_eq_some found)
          member same
        rw [equal]
        rfl

theorem Tracked.isKilled_iff : tracked.isKilled pid = true ↔
    ∃ process, (pid, process) ∈ tracked.entries ∧ process.killed = true := by
  simp only [Tracked.isKilled, Option.any_eq_true, Tracked.get_eq_some]

theorem Tracked.mem_alive {sys : System} : (pid, process) ∈ (tracked.alive sys).entries ↔
    (pid, process) ∈ tracked.entries ∧ (sys.processes pid).isSome = true := by
  simp [Tracked.alive, Tracked.retain]

theorem Tracked.mem_register {agentId : Text} :
    (other, process) ∈ (tracked.register pid agentId).entries ↔
      ((other, process) ∈ tracked.entries ∧ other ≠ pid) ∨
        (other = pid ∧ process = ⟨agentId, false⟩) := by
  simp [Tracked.register, Tracked.insert, Tracked.retain]

theorem Tracked.mem_kill : (other, process) ∈ (tracked.kill pid).entries ↔
    ∃ before, (other, before) ∈ tracked.entries ∧
      process = if other = pid then { before with killed := true } else before := by
  simp only [Tracked.kill, List.mem_map, markKilled, Prod.exists]
  constructor
  · rintro ⟨other', before, member, same⟩
    split at same
    next hit =>
      cases same
      exact ⟨before, member, by rw [if_pos hit]⟩
    next miss =>
      cases same
      exact ⟨process, member, by rw [if_neg miss]⟩
  · rintro ⟨before, member, rfl⟩
    refine ⟨other, before, member, ?_⟩
    split <;> rfl

def Tracked.killAll (tracked : Tracked) (pids : List Nat) : Tracked :=
  pids.foldl Tracked.kill tracked

theorem Tracked.mem_killAll {pids : List Nat} :
    (other, process) ∈ (tracked.killAll pids).entries ↔
      ∃ before, (other, before) ∈ tracked.entries ∧
        process = if other ∈ pids then { before with killed := true } else before := by
  induction pids generalizing tracked with
  | nil => simp [Tracked.killAll]
  | cons pid rest ih =>
      have step : tracked.killAll (pid :: rest) = (tracked.kill pid).killAll rest := rfl
      rw [step, ih]
      constructor
      · rintro ⟨between, member, rfl⟩
        obtain ⟨before, inside, rfl⟩ := Tracked.mem_kill.mp member
        refine ⟨before, inside, ?_⟩
        by_cases hit : other = pid <;> simp [hit]
      · rintro ⟨before, member, rfl⟩
        refine ⟨_, Tracked.mem_kill.mpr ⟨before, member, rfl⟩, ?_⟩
        by_cases hit : other = pid <;> simp [hit]

theorem Tracked.isKilled_killAll {pids : List Nat} (member : (other, process) ∈ tracked.entries)
    (alive : process.killed = false) :
    (tracked.killAll pids).isKilled other = decide (other ∈ pids) := by
  rw [Bool.eq_iff_iff, Tracked.isKilled_iff, decide_eq_true_iff]
  constructor
  · rintro ⟨after, found, killed⟩
    obtain ⟨before, inside, rfl⟩ := Tracked.mem_killAll.mp found
    have same := Tracked.get_eq_some.mpr inside
    rw [Tracked.get_eq_some.mpr member] at same
    cases same
    by_contra missed
    rw [if_neg missed, alive] at killed
    cases killed
  · intro hit
    exact ⟨_, Tracked.mem_killAll.mpr ⟨process, member, rfl⟩, by rw [if_pos hit]⟩

theorem Tracked.isKilled_killAll_of_notMem {pids : List Nat} (missed : other ∉ pids) :
    (tracked.killAll pids).isKilled other = tracked.isKilled other := by
  rw [Bool.eq_iff_iff, Tracked.isKilled_iff, Tracked.isKilled_iff]
  simp [Tracked.mem_killAll, missed]

theorem Tracked.killAll_append (first second : List Nat) :
    tracked.killAll (first ++ second) = (tracked.killAll first).killAll second :=
  List.foldl_append

end Lookup

section PhaseOne

variable {mgr : SystemResourceManager} {alpha : Alpha} {live : List PidUsage}

theorem mem_ofAgent {agentId : Text} {usage : PidUsage} :
    usage ∈ ofAgent live agentId ↔ usage ∈ live ∧ usage.agentId = agentId := by
  simp [ofAgent]

theorem foldl_scanUsage {tracked : Tracked} {agentId : Text}
    (unkilled : ∀ usage ∈ live, usage.agentId = agentId → tracked.isKilled usage.pid = false)
    (scan : Scan) : live.foldl (scanUsage tracked agentId) scan =
      (ofAgent live agentId).foldl Scan.add scan := by
  induction live generalizing scan with
  | nil => rfl
  | cons usage rest ih =>
      have later := ih fun usage member => unkilled usage (List.mem_cons_of_mem _ member)
      rw [List.foldl_cons, later, scanUsage]
      by_cases own : usage.agentId = agentId
      · simp [own, unkilled usage List.mem_cons_self own, ofAgent]
      · simp [own, ofAgent]

theorem foldl_add_total (own : List PidUsage) (scan : Scan) :
    (own.foldl Scan.add scan).agentTotal =
        ⟨scan.agentTotal.cpu + (total own).cpu, scan.agentTotal.mem + (total own).mem⟩ ∧
      (own.foldl Scan.add scan).rawGlobal.cpu = scan.rawGlobal.cpu + (total own).cpu := by
  induction own generalizing scan with
  | nil => simp [total]
  | cons usage rest ih =>
      rw [List.foldl_cons, (ih _).1, (ih _).2]
      simp [Scan.add, total, add_assoc]

theorem foldl_add_largest (own : List PidUsage) (scan : Scan) :
    (own.foldl Scan.add scan).largestMem =
        own.foldl (fun best usage => larger usage.pid usage.memBytes best) scan.largestMem ∧
      (own.foldl Scan.add scan).largestCpu =
        own.foldl (fun best usage => larger usage.pid usage.cpu best) scan.largestCpu := by
  induction own generalizing scan with
  | nil => exact ⟨rfl, rfl⟩
  | cons usage rest ih => exact ih (scan.add usage)

section Larger

variable {V : Type} [LT V] [DecidableLT V] (value : PidUsage → V)

theorem larger_isSome (pid : Nat) (new : V) (best : Option (Nat × V)) :
    ∃ found, larger pid new best = some found ∧ (found.1 = pid ∨ best = some found) := by
  unfold larger
  split
  next => exact ⟨_, rfl, .inl rfl⟩
  next =>
    split
    next => exact ⟨_, rfl, .inl rfl⟩
    next => exact ⟨_, rfl, .inr rfl⟩

theorem foldl_larger {own : List PidUsage} {start : Option (Nat × V)} (first : own ≠ [] ∨
    start.isSome = true) :
    ∃ found, own.foldl (fun best usage => larger usage.pid (value usage) best) start = some found ∧
      ((∃ usage ∈ own, usage.pid = found.1) ∨ start = some found) := by
  induction own generalizing start with
  | nil =>
      obtain ⟨found, same⟩ := Option.isSome_iff_exists.mp (first.resolve_left (· rfl))
      exact ⟨found, same, .inr same⟩
  | cons usage rest ih =>
      obtain ⟨next, same, from_⟩ := larger_isSome usage.pid (value usage) start
      obtain ⟨found, last, where_⟩ := @ih (larger usage.pid (value usage) start)
        (.inr (by rw [same]; rfl))
      refine ⟨found, last, ?_⟩
      rcases where_ with ⟨other, member, here⟩ | kept
      · exact .inl ⟨other, List.mem_cons_of_mem _ member, here⟩
      · rw [same, Option.some.injEq] at kept
        subst kept
        rcases from_ with here | before
        · exact .inl ⟨usage, List.mem_cons_self, here.symm⟩
        · exact .inr before

end Larger

variable (mgr alpha live) in
def smoothedOf (tracker : UsageTracker) (agentId : Text) : Usage :=
  ((tracker.agentUsage agentId).getD {}).update (total (ofAgent live agentId)) alpha

variable (mgr alpha live) in
def victimOf (tracker : UsageTracker) (agentId : Text) : Option Kill :=
  agentVictim mgr agentId (smoothedOf alpha live tracker agentId)
    ((ofAgent live agentId).foldl Scan.add {})

theorem enforceAgent_eq {state : Enforcing} {agentId : Text}
    (unkilled : ∀ usage ∈ live, usage.agentId = agentId →
      state.tracked.isKilled usage.pid = false) :
    ∃ rawGlobal : Usage,
      rawGlobal.cpu = state.rawGlobal.cpu + (total (ofAgent live agentId)).cpu ∧
      enforceAgent mgr alpha live state agentId =
        Enforcing.kill { state with
          tracker := { state.tracker with
            agentUsage := Function.update state.tracker.agentUsage agentId
              (some (smoothedOf alpha live state.tracker agentId)) }
          rawGlobal } (victimOf mgr alpha live state.tracker agentId) := by
  have totals := foldl_add_total (ofAgent live agentId) { rawGlobal := state.rawGlobal }
  have largest := foldl_add_largest (ofAgent live agentId) { rawGlobal := state.rawGlobal }
  have alone := foldl_add_largest (ofAgent live agentId) {}
  refine ⟨_, totals.2, ?_⟩
  simp only [enforceAgent, UsageTracker.updateAgentUsage, foldl_scanUsage unkilled, totals.1,
    zero_add, victimOf, smoothedOf, agentVictim, largest, alone]

theorem largest_of_nonempty {own : List PidUsage} (nonempty : own ≠ []) :
    (∃ found, (own.foldl Scan.add {}).largestMem = some found ∧
        ∃ usage ∈ own, usage.pid = found.1) ∧
      ∃ found, (own.foldl Scan.add {}).largestCpu = some found ∧
        ∃ usage ∈ own, usage.pid = found.1 := by
  rw [(foldl_add_largest own {}).1, (foldl_add_largest own {}).2]
  constructor
  · obtain ⟨found, same, from_⟩ := @foldl_larger _ _ _ PidUsage.memBytes own none (.inl nonempty)
    exact ⟨found, same, from_.resolve_right nofun⟩
  · obtain ⟨found, same, from_⟩ := @foldl_larger _ _ _ PidUsage.cpu own none (.inl nonempty)
    exact ⟨found, same, from_.resolve_right nofun⟩

variable {tracker : UsageTracker} {agentId : Text}

theorem blend_over {sample stored limit : ℚ} :
    limit < alpha.value * sample + (1 - alpha.value) * stored ↔
      alpha.value * (limit - sample) < (1 - alpha.value) * (stored - limit) := by
  constructor <;> intro above <;> nlinarith

theorem victimOf_absent (absent : ∀ usage ∈ live, usage.agentId ≠ agentId) :
    victimOf mgr alpha live tracker agentId = none := by
  have none_ : ofAgent live agentId = [] := List.filter_eq_nil_iff.mpr fun usage member => by
    simpa using absent usage member
  simp [victimOf, agentVictim, none_]

theorem victimOf_cases (present : ∃ usage ∈ live, usage.agentId = agentId) :
    (OverLimits mgr alpha live tracker agentId ∧
      ∃ kill, victimOf mgr alpha live tracker agentId = some kill ∧ kill.agentId = agentId ∧
        (∃ usage ∈ live, usage.agentId = agentId ∧ usage.pid = kill.pid) ∧
        kill.cause = if (mgr.effectiveAgentLimits agentId).2 <
          (total (ofAgent live agentId)).mem then .agentMemory else .agentCpu) ∨
    (¬ OverLimits mgr alpha live tracker agentId ∧
      victimOf mgr alpha live tracker agentId = none) := by
  obtain ⟨usage, member, own⟩ := present
  have nonempty : ofAgent live agentId ≠ [] :=
    List.ne_nil_of_mem (mem_ofAgent.mpr ⟨member, own⟩)
  obtain ⟨⟨mem, mem_some, mem_own⟩, cpu, cpu_some, cpu_own⟩ := largest_of_nonempty nonempty
  have locate {pid : Nat} (found : ∃ usage ∈ ofAgent live agentId, usage.pid = pid) :
      ∃ usage ∈ live, usage.agentId = agentId ∧ usage.pid = pid := by
    obtain ⟨usage, member, same⟩ := found
    exact ⟨usage, (mem_ofAgent.mp member).1, (mem_ofAgent.mp member).2, same⟩
  have smoothed : (smoothedOf alpha live tracker agentId).mem =
      (total (ofAgent live agentId)).mem := rfl
  have above : OverLimits mgr alpha live tracker agentId ↔
      (mgr.effectiveAgentLimits agentId).2 < (total (ofAgent live agentId)).mem ∨
        (mgr.effectiveAgentLimits agentId).1 < (smoothedOf alpha live tracker agentId).cpu :=
    or_congr Iff.rfl blend_over.symm
  rw [above]
  simp only [victimOf, agentVictim, smoothed]
  by_cases memory : (mgr.effectiveAgentLimits agentId).2 < (total (ofAgent live agentId)).mem
  · simp only [memory, mem_some, if_true]
    exact .inl ⟨.inl trivial, _, rfl, rfl, locate mem_own, rfl⟩
  · by_cases busy : (mgr.effectiveAgentLimits agentId).1 <
        (smoothedOf alpha live tracker agentId).cpu
    · simp only [memory, busy, cpu_some, if_true, if_false]
      exact .inl ⟨.inr trivial, _, rfl, rfl, locate cpu_own, rfl⟩
    · simp only [memory, busy, if_false]
      exact .inr ⟨by simp, trivial⟩

theorem victimOf_some {kill : Kill} (hit : victimOf mgr alpha live tracker agentId = some kill) :
    kill.agentId = agentId ∧ kill.cause.isGlobal = false ∧
      ∃ usage ∈ live, usage.agentId = agentId ∧ usage.pid = kill.pid := by
  by_cases present : ∃ usage ∈ live, usage.agentId = agentId
  · rcases @victimOf_cases mgr alpha live tracker agentId present with
      ⟨-, other, same, owner, found, cause⟩ | ⟨-, none_⟩
    · rw [hit, Option.some.injEq] at same
      subst same
      refine ⟨owner, ?_, found⟩
      rw [cause]
      split <;> rfl
    · rw [hit] at none_
      cases none_
  · rw [victimOf_absent fun usage member own => present ⟨usage, member, own⟩] at hit
    cases hit

variable (mgr alpha live) in
def phaseOneVictims (tracker : UsageTracker) (agents : List Text) : List Kill :=
  agents.filterMap (victimOf mgr alpha live tracker)

variable (mgr alpha live) in
structure PhaseOne (agents : List Text) (before after : Enforcing) : Prop where
  kills : after.kills = before.kills ++ phaseOneVictims mgr alpha live before.tracker agents
  tracked : after.tracked = before.tracked.killAll
    ((phaseOneVictims mgr alpha live before.tracker agents).map Kill.pid)
  rawGlobal : after.rawGlobal.cpu = before.rawGlobal.cpu +
    (agents.map fun agentId => (total (ofAgent live agentId)).cpu).sum
  globalUsage : after.tracker.globalUsage = before.tracker.globalUsage
  agentUsage : ∀ agentId, after.tracker.agentUsage agentId =
    if agentId ∈ agents then some (smoothedOf alpha live before.tracker agentId)
    else before.tracker.agentUsage agentId

theorem Enforcing.kill_eq (state : Enforcing) (victim : Option Kill) :
    state.kill victim = { state with
      tracked := state.tracked.killAll (victim.toList.map Kill.pid)
      kills := state.kills ++ victim.toList } := by
  cases victim with
  | none => simp [Enforcing.kill, Tracked.killAll]
  | some kill => rfl

theorem phaseOneVictims_cons (tracker : UsageTracker) (agentId : Text) (rest : List Text) :
    phaseOneVictims mgr alpha live tracker (agentId :: rest) =
      (victimOf mgr alpha live tracker agentId).toList ++
        phaseOneVictims mgr alpha live tracker rest := by
  unfold phaseOneVictims
  cases victim : victimOf mgr alpha live tracker agentId <;> simp [victim]

theorem phaseOne_spec {agents : List Text} (nodup : agents.Nodup) {state : Enforcing}
    (distinct : ∀ usage ∈ live, ∀ other ∈ live, usage.pid = other.pid → usage = other)
    (unkilled : ∀ usage ∈ live, usage.agentId ∈ agents →
      state.tracked.isKilled usage.pid = false) :
    PhaseOne mgr alpha live agents state
      (agents.foldl (enforceAgent mgr alpha live) state) := by
  induction agents generalizing state with
  | nil => exact ⟨by simp [phaseOneVictims], rfl, by simp, rfl, by simp⟩
  | cons agentId rest ih =>
      obtain ⟨fresh, nodup⟩ := List.nodup_cons.mp nodup
      obtain ⟨rawGlobal, raw, taken⟩ := @enforceAgent_eq mgr alpha live state agentId
        fun usage member own => unkilled usage member (own ▸ List.mem_cons_self)
      rw [Enforcing.kill_eq] at taken
      have apart {other : Text} (member : other ∈ rest) : other ≠ agentId :=
        fun same => fresh (same ▸ member)
      have later := @ih nodup (enforceAgent mgr alpha live state agentId) (by
        intro usage member turn
        rw [taken, Tracked.isKilled_killAll_of_notMem ?_]
        · exact unkilled usage member (List.mem_cons_of_mem _ turn)
        · intro hit
          obtain ⟨kill, chosen, same⟩ := List.mem_map.mp hit
          obtain ⟨-, -, other, inside, owner, pid⟩ := victimOf_some (Option.mem_toList.mp chosen)
          rw [distinct usage member other inside (same.symm.trans pid.symm)] at turn
          exact apart turn owner)
      have smoothed {other : Text} (member : other ∈ rest) :
          smoothedOf alpha live (enforceAgent mgr alpha live state agentId).tracker other =
            smoothedOf alpha live state.tracker other := by
        rw [taken]
        simp only [smoothedOf, Function.update_of_ne (apart member)]
      have victims : phaseOneVictims mgr alpha live
          (enforceAgent mgr alpha live state agentId).tracker rest =
            phaseOneVictims mgr alpha live state.tracker rest :=
        List.filterMap_congr fun other member => by rw [victimOf, smoothed member, victimOf]
      obtain ⟨kills, tracked, raws, globals, averages⟩ := later
      rw [victims] at kills tracked
      refine ⟨?_, ?_, ?_, ?_, fun other => ?_⟩
      · rw [List.foldl_cons, kills, phaseOneVictims_cons, taken, List.append_assoc]
      · rw [List.foldl_cons, tracked, phaseOneVictims_cons, taken, List.map_append,
          Tracked.killAll_append]
      · rw [List.foldl_cons, raws, taken, List.map_cons, List.sum_cons, raw, add_assoc]
      · rw [List.foldl_cons, globals, taken]
      · rw [List.foldl_cons, averages]
        by_cases turn : other ∈ rest
        · rw [if_pos turn, if_pos (List.mem_cons_of_mem _ turn), smoothed turn]
        · rw [if_neg turn, taken]
          by_cases own : other = agentId
          · subst own
            simp
          · simp [own, turn]

theorem sum_single {B : Type} [DecidableEq B] {items : List B} (nodup : items.Nodup) {item : B}
    (member : item ∈ items) (value : ℚ) :
    (items.map fun other => if other = item then value else 0).sum = value := by
  rw [List.sum_map_eq_nsmul_single item _ fun other apart _ => if_neg apart,
    List.count_eq_one_of_mem nodup member, one_nsmul, if_pos rfl]

theorem sum_ofAgent {agents : List Text} (nodup : agents.Nodup)
    (all : ∀ usage ∈ live, usage.agentId ∈ agents) :
    (agents.map fun agentId => (total (ofAgent live agentId)).cpu).sum = (total live).cpu := by
  induction live with
  | nil => simp [total, ofAgent]
  | cons usage rest ih =>
      have split (agentId : Text) : (total (ofAgent (usage :: rest) agentId)).cpu =
          (if agentId = usage.agentId then usage.cpu else 0) +
            (total (ofAgent rest agentId)).cpu := by
        by_cases own : usage.agentId = agentId
        · simp [ofAgent, total, own]
        · simp [ofAgent, total, own, Ne.symm own]
      simp only [split, List.sum_map_add]
      rw [ih fun other member => all other (List.mem_cons_of_mem _ member)]
      have single : (agents.map fun agentId =>
          if agentId = usage.agentId then usage.cpu else 0).sum = usage.cpu :=
        sum_single nodup (all usage List.mem_cons_self) _
      rw [single]
      rfl

theorem mem_agentIds {agentId : Text} :
    agentId ∈ agentIds live ↔ ∃ usage ∈ live, usage.agentId = agentId := by
  simp [agentIds]

theorem agentIds_nodup : (agentIds live).Nodup := List.nodup_dedup _

end PhaseOne

section Enforced

variable {mgr : SystemResourceManager} {alpha : Alpha} {live : List PidUsage}

theorem globalVictim_some {tracked : Tracked} {usage : Usage} {kill : Kill}
    (hit : globalVictim mgr live tracked usage = some kill) :
    kill.cause.isGlobal = true ∧ (kill.cause = .totalCpu → mgr.maxTotalCpuPct < usage.cpu) ∧
      ∃ victim ∈ live, victim.pid = kill.pid ∧ tracked.isKilled victim.pid = false := by
  unfold globalVictim at hit
  split at hit
  next => cases hit
  next =>
    have candidate {order : PidUsage → PidUsage → Prop} [DecidableRel order] {first : PidUsage}
        (found : ((live.filter fun usage => !tracked.isKilled usage.pid).insertionSort
          order).head? = some first) : first ∈ live ∧ tracked.isKilled first.pid = false := by
      have member := List.mem_of_mem_head? found
      rw [List.mem_insertionSort, List.mem_filter] at member
      exact ⟨member.1, by simpa using member.2⟩
    split at hit
    next above =>
      obtain ⟨first, found, rfl⟩ := Option.map_eq_some_iff.mp hit
      exact ⟨rfl, fun _ => above, first, (candidate found).1, rfl, (candidate found).2⟩
    next =>
      obtain ⟨first, found, rfl⟩ := Option.map_eq_some_iff.mp hit
      exact ⟨rfl, nofun, first, (candidate found).1, rfl, (candidate found).2⟩

theorem globalVictim_over {tracked : Tracked} {usage : Usage}
    (above : mgr.maxTotalCpuPct < usage.cpu) :
    (∀ other ∈ live, tracked.isKilled other.pid = true) ∨
      ∃ kill, globalVictim mgr live tracked usage = some kill ∧ kill.cause = .totalCpu := by
  have exceeded : ¬ (usage.cpu ≤ mgr.maxTotalCpuPct ∧ usage.mem ≤ mgr.maxTotalMemoryPct) :=
    fun within => absurd above (not_lt.mpr within.1)
  simp only [globalVictim, exceeded, above, if_false, if_true]
  cases sorted : (live.filter fun usage => !tracked.isKilled usage.pid).insertionSort
      fun a b => b.cpu ≤ a.cpu with
  | nil =>
      left
      intro other member
      by_contra alive
      have inside : other ∈ (live.filter fun usage => !tracked.isKilled usage.pid).insertionSort
          fun a b => b.cpu ≤ a.cpu := by
        rw [List.mem_insertionSort, List.mem_filter]
        exact ⟨member, by simpa using alive⟩
      rw [sorted] at inside
      cases inside
  | cons first rest => exact .inr ⟨_, rfl, rfl⟩

variable (mgr alpha live) in
structure Enforced (before : UsageTracker) (tracked : Tracked) (after : Enforcing) : Prop where
  tracked : after.tracked = tracked.killAll (after.kills.map Kill.pid)
  kills : ∃ last : Option Kill, after.kills =
      phaseOneVictims mgr alpha live before (agentIds live) ++ last.toList ∧
    (∀ kill ∈ last, kill.cause.isGlobal = true ∧
      (kill.cause = .totalCpu → mgr.maxTotalCpuPct < after.tracker.globalUsage.cpu) ∧
      (∃ usage ∈ live, usage.pid = kill.pid) ∧
      kill.pid ∉ (phaseOneVictims mgr alpha live before (agentIds live)).map Kill.pid) ∧
    (mgr.maxTotalCpuPct < after.tracker.globalUsage.cpu →
      (∀ usage ∈ live,
        usage.pid ∈ (phaseOneVictims mgr alpha live before (agentIds live)).map Kill.pid) ∨
      ∃ kill ∈ last, kill.cause = .totalCpu)
  globalCpu : after.tracker.globalUsage.cpu =
    alpha.value * (total live).cpu + (1 - alpha.value) * before.globalUsage.cpu
  agentUsage : ∀ agentId, after.tracker.agentUsage agentId =
    if agentId ∈ agentIds live then some (smoothedOf alpha live before agentId)
    else before.agentUsage agentId

theorem enforceLimits_spec {tracked : Tracked} {tracker : UsageTracker}
    (distinct : ∀ usage ∈ live, ∀ other ∈ live, usage.pid = other.pid → usage = other)
    (unkilled : ∀ usage ∈ live, ∃ process, (usage.pid, process) ∈ tracked.entries ∧
      process.killed = false) :
    Enforced mgr alpha live tracker tracked (enforceLimits mgr alpha live tracked tracker) := by
  have start (usage : PidUsage) (member : usage ∈ live) :
      tracked.isKilled usage.pid = false := by
    obtain ⟨process, inside, alive⟩ := unkilled usage member
    exact (@Tracked.isKilled_killAll tracked usage.pid process [] inside alive).trans (by simp)
  obtain ⟨kills, marked, raw, globals, averages⟩ := @phaseOne_spec mgr alpha live (agentIds live)
    agentIds_nodup { tracked, tracker } distinct fun usage member _ => start usage member
  dsimp only at kills marked raw globals averages
  rw [List.nil_append] at kills
  have sum := sum_ofAgent agentIds_nodup
    fun usage member => (@mem_agentIds live usage.agentId).mpr ⟨usage, member, rfl⟩
  rw [zero_add, sum] at raw
  rw [enforceLimits, enforceGlobal, Enforcing.kill_eq]
  generalize (agentIds live).foldl (enforceAgent mgr alpha live) { tracked, tracker } = first
    at kills marked raw globals averages ⊢
  generalize usage_ : first.tracker.globalUsage.update first.rawGlobal alpha = usage
  have flags (other : PidUsage) (member : other ∈ live) : first.tracked.isKilled other.pid =
      decide (other.pid ∈
        (phaseOneVictims mgr alpha live tracker (agentIds live)).map Kill.pid) := by
    obtain ⟨process, inside, alive⟩ := unkilled other member
    rw [marked]
    exact Tracked.isKilled_killAll inside alive
  constructor
  · rw [kills, List.map_append, Tracked.killAll_append, marked]
  · refine ⟨globalVictim mgr live first.tracked usage, by rw [kills], ?_, fun above => ?_⟩
    · intro kill hit
      obtain ⟨cause, cpu, other, member, same, alive⟩ := globalVictim_some hit
      refine ⟨cause, cpu, ⟨other, member, same⟩, fun earlier => ?_⟩
      rw [flags other member, same, decide_eq_false_iff_not] at alive
      exact alive earlier
    · rcases @globalVictim_over mgr live first.tracked usage above with gone | found
      · exact .inl fun other member => by
          have killed := gone other member
          rw [flags other member] at killed
          exact of_decide_eq_true killed
      · exact .inr found
  · rw [← usage_, ← globals, ← raw]
    rfl
  · exact averages

end Enforced

section Polled

variable {mgr : SystemResourceManager} {alpha : Alpha} {sys : System} {tracked : Tracked}
  {usage : PidUsage}

theorem mem_pidUsage : usage ∈ pidUsage mgr sys tracked ↔
    ∃ process reading, (usage.pid, process) ∈ tracked.entries ∧ process.killed = false ∧
      sys.processes usage.pid = some reading ∧
      usage = ⟨usage.pid, process.agentId, reading.cpu / mgr.numCpus,
        reading.memBytes / sys.totalMemory * 100, reading.memBytes⟩ := by
  simp only [pidUsage, List.mem_filterMap, Prod.exists, Tracked.mem_alive]
  constructor
  · rintro ⟨pid, process, ⟨member, -⟩, used⟩
    unfold usageOf at used
    split at used
    next => cases used
    next alive =>
      obtain ⟨reading, found, rfl⟩ := Option.map_eq_some_iff.mp used
      exact ⟨process, reading, member, by simpa using alive, found, rfl⟩
  · rintro ⟨process, reading, member, alive, found, same⟩
    refine ⟨usage.pid, process, ⟨member, by rw [found]; rfl⟩, ?_⟩
    rw [usageOf, alive, found, same]
    rfl

theorem pidUsage_distinct (usage : PidUsage) (member : usage ∈ pidUsage mgr sys tracked)
    (other : PidUsage) (member' : other ∈ pidUsage mgr sys tracked)
    (same : usage.pid = other.pid) : usage = other := by
  obtain ⟨process, reading, inside, -, found, use⟩ := mem_pidUsage.mp member
  obtain ⟨process', reading', inside', -, found', use'⟩ := mem_pidUsage.mp member'
  rw [← same] at inside' found' use'
  rw [Tracked.get_eq_some.mpr inside |>.symm.trans (Tracked.get_eq_some.mpr inside') |>
    Option.some.inj] at use
  rw [found.symm.trans found' |> Option.some.inj] at use
  rw [use, use']

theorem pidUsage_alive (member : usage ∈ pidUsage mgr sys tracked) :
    ∃ process, (usage.pid, process) ∈ (tracked.alive sys).entries ∧ process.killed = false := by
  obtain ⟨process, reading, inside, alive, found, -⟩ := mem_pidUsage.mp member
  exact ⟨process, Tracked.mem_alive.mpr ⟨inside, by rw [found]; rfl⟩, alive⟩

theorem sum_cpu_nonneg {own : List PidUsage}
    (part : ∀ usage ∈ own, usage ∈ pidUsage mgr sys tracked) : 0 ≤ (total own).cpu := by
  refine List.sum_nonneg fun cpu member => ?_
  obtain ⟨usage, inside, rfl⟩ := List.mem_map.mp member
  obtain ⟨_, reading, -, -, -, same⟩ := mem_pidUsage.mp (part usage inside)
  rw [same]
  exact div_nonneg reading.nonneg mgr.positive.le

theorem smoothedOf_retain {live : List PidUsage} {tracker : UsageTracker} {agentId : Text}
    (member : agentId ∈ agentIds live) :
    smoothedOf alpha live (retainAgents live tracker) agentId =
      smoothedOf alpha live tracker agentId := by
  obtain ⟨usage, inside, own⟩ := mem_agentIds.mp member
  have listed : agentId ∈ live.map PidUsage.agentId := List.mem_map.mpr ⟨usage, inside, own⟩
  simp only [smoothedOf, retainAgents, if_pos listed]

theorem phaseOneVictims_retain {live : List PidUsage} {tracker : UsageTracker} :
    phaseOneVictims mgr alpha live (retainAgents live tracker) (agentIds live) =
      phaseOneVictims mgr alpha live tracker (agentIds live) :=
  List.filterMap_congr fun agentId member => by
    rw [victimOf, smoothedOf_retain member, victimOf]

variable (mgr alpha sys) in
structure Polled (world next : World) (live : List PidUsage) (report : Report)
    (victims : List Kill) (last : Option Kill) : Prop where
  log : next.log = .polled report :: world.log
  seen : report.live = live
  kills : report.kills = victims ++ last.toList
  tracked : next.tracked = (world.tracked.alive sys).killAll (report.kills.map Kill.pid)
  global : ∀ kill ∈ last, kill.cause.isGlobal = true ∧
    (kill.cause = .totalCpu → mgr.maxTotalCpuPct < next.tracker.globalUsage.cpu) ∧
    (∃ usage ∈ live, usage.pid = kill.pid) ∧ kill.pid ∉ victims.map Kill.pid
  above : mgr.maxTotalCpuPct < next.tracker.globalUsage.cpu →
    (∀ usage ∈ live, usage.pid ∈ victims.map Kill.pid) ∨ ∃ kill ∈ last, kill.cause = .totalCpu
  globalCpu : next.tracker.globalUsage.cpu =
    alpha.value * (total live).cpu + (1 - alpha.value) * world.tracker.globalUsage.cpu
  agentUsage : ∀ agentId, next.tracker.agentUsage agentId =
    if agentId ∈ agentIds live then some (smoothedOf alpha live world.tracker agentId) else none

theorem poll_spec {world : World} (tracks : world.tracked.entries ≠ [])
    (memory : sys.totalMemory ≠ 0) :
    ∃ report last, Polled mgr alpha sys world (poll mgr alpha sys world)
      (pidUsage mgr sys world.tracked) report
      (phaseOneVictims mgr alpha (pidUsage mgr sys world.tracked) world.tracker
        (agentIds (pidUsage mgr sys world.tracked))) last := by
  have enforced := @enforceLimits_spec mgr alpha (pidUsage mgr sys world.tracked)
    (world.tracked.alive sys)
    (retainAgents (pidUsage mgr sys world.tracked) world.tracker) pidUsage_distinct
    fun usage member => pidUsage_alive member
  rw [poll, pollOnce, if_neg tracks, if_neg memory]
  dsimp only
  generalize enforceLimits mgr alpha (pidUsage mgr sys world.tracked) (world.tracked.alive sys)
    (retainAgents (pidUsage mgr sys world.tracked) world.tracker) = after at enforced ⊢
  obtain ⟨marked, ⟨last, kills, global, above⟩, globalCpu, averages⟩ := enforced
  rw [phaseOneVictims_retain] at kills global above
  refine ⟨⟨_, after.kills⟩, last, rfl, rfl, kills, marked, global, above,
    globalCpu, fun agentId => ?_⟩
  rw [averages agentId]
  by_cases present : agentId ∈ agentIds (pidUsage mgr sys world.tracked)
  · rw [if_pos present, if_pos present, smoothedOf_retain present]
  · rw [if_neg present, if_neg present]
    refine if_neg fun member => present ?_
    obtain ⟨usage, inside, own⟩ := List.mem_map.mp member
    exact mem_agentIds.mpr ⟨usage, inside, own⟩

end Polled

section Victims

variable {mgr : SystemResourceManager} {alpha : Alpha} {live : List PidUsage}
  {tracker : UsageTracker}

theorem mem_phaseOneVictims {agents : List Text} {kill : Kill} :
    kill ∈ phaseOneVictims mgr alpha live tracker agents ↔
      kill.agentId ∈ agents ∧ victimOf mgr alpha live tracker kill.agentId = some kill := by
  rw [phaseOneVictims, List.mem_filterMap]
  constructor
  · rintro ⟨agentId, member, hit⟩
    rw [(victimOf_some hit).1]
    exact ⟨member, hit⟩
  · exact fun ⟨member, hit⟩ => ⟨kill.agentId, member, hit⟩

theorem phaseOneKills_victims {agents : List Text} (nodup : agents.Nodup) (agentId : Text) :
    ((phaseOneVictims mgr alpha live tracker agents).filter fun kill =>
        decide (kill.agentId = agentId) && !kill.cause.isGlobal) =
      if agentId ∈ agents then (victimOf mgr alpha live tracker agentId).toList else [] := by
  have own (other : Text) : ((victimOf mgr alpha live tracker other).toList.filter fun kill =>
      decide (kill.agentId = agentId) && !kill.cause.isGlobal) =
        if other = agentId then (victimOf mgr alpha live tracker agentId).toList else [] := by
    cases hit : victimOf mgr alpha live tracker other with
    | none =>
        by_cases same : other = agentId
        · simp [← same, hit]
        · simp [same]
    | some kill =>
        obtain ⟨owner, cause, -⟩ := victimOf_some hit
        by_cases same : other = agentId
        · simp [← same, hit, owner, cause]
        · simp [same, owner]
  induction agents with
  | nil => rfl
  | cons other rest ih =>
      obtain ⟨fresh, nodup⟩ := List.nodup_cons.mp nodup
      rw [phaseOneVictims_cons, List.filter_append, own, ih nodup]
      by_cases same : other = agentId
      · subst same
        simp [fresh]
      · simp [same, Ne.symm same]

theorem globalKills_victims {agents : List Text} :
    ((phaseOneVictims mgr alpha live tracker agents).filter fun kill => kill.cause.isGlobal) =
      [] := by
  refine List.filter_eq_nil_iff.mpr fun kill member => ?_
  rw [(victimOf_some (mem_phaseOneVictims.mp member).2).2.1]
  exact Bool.false_ne_true

variable (distinct : ∀ usage ∈ live, ∀ other ∈ live, usage.pid = other.pid → usage = other)

include distinct

theorem victims_nodup {agents : List Text} (nodup : agents.Nodup) :
    ((phaseOneVictims mgr alpha live tracker agents).map Kill.pid).Nodup := by
  rw [List.Nodup, List.pairwise_map, phaseOneVictims, List.pairwise_filterMap]
  refine nodup.imp fun {first second} apart kill hit other hit' same => apart ?_
  obtain ⟨-, -, usage, member, own, pid⟩ := victimOf_some hit
  obtain ⟨-, -, usage', member', own', pid'⟩ := victimOf_some hit'
  rw [← own, ← own', distinct usage member usage' member' (pid.trans (same.trans pid'.symm))]

theorem victims_all : (∀ usage ∈ live,
      usage.pid ∈ (phaseOneVictims mgr alpha live tracker (agentIds live)).map Kill.pid) ↔
    ∀ usage ∈ live, OverLimits mgr alpha live tracker usage.agentId ∧
      ∀ other ∈ live, other.agentId = usage.agentId → other = usage := by
  constructor
  · intro gone
    have hit (usage : PidUsage) (member : usage ∈ live) :
        ∃ kill, victimOf mgr alpha live tracker usage.agentId = some kill ∧
          kill.pid = usage.pid := by
      obtain ⟨kill, chosen, pid⟩ := List.mem_map.mp (gone usage member)
      obtain ⟨-, hit⟩ := mem_phaseOneVictims.mp chosen
      obtain ⟨-, -, other, member', own, same⟩ := victimOf_some hit
      rw [distinct usage member other member' (pid.symm.trans same.symm), own]
      exact ⟨kill, hit, same.symm⟩
    intro usage member
    obtain ⟨kill, hits, pid⟩ := hit usage member
    constructor
    · rcases @victimOf_cases mgr alpha live tracker usage.agentId ⟨usage, member, rfl⟩ with
        ⟨above, -⟩ | ⟨-, none_⟩
      · exact above
      · rw [hits] at none_
        cases none_
    · intro other member' same
      obtain ⟨kill', hits', pid'⟩ := hit other member'
      rw [same, hits, Option.some.injEq] at hits'
      subst hits'
      exact distinct other member' usage member (pid'.symm.trans pid)
  · intro only usage member
    obtain ⟨above, alone⟩ := only usage member
    rcases @victimOf_cases mgr alpha live tracker usage.agentId ⟨usage, member, rfl⟩ with
      ⟨-, kill, hit, owner, ⟨other, member', own, pid⟩, -⟩ | ⟨within, -⟩
    · rw [alone other member' own] at pid
      refine List.mem_map.mpr ⟨kill, mem_phaseOneVictims.mpr ⟨?_, ?_⟩, pid.symm⟩
      · rw [owner]
        exact mem_agentIds.mpr ⟨usage, member, rfl⟩
      · rw [owner]
        exact hit
    · exact absurd above within

end Victims

section Invariant

variable {mgr : SystemResourceManager} {alpha : Alpha} {sys : System}

def Newest (held : Report → Prop) : List Event → Prop
  | [] => False
  | .registered _ _ :: earlier => Newest held earlier
  | .polled report :: _ => held report

theorem not_since_of_newest {ended held : Report → Prop} {log : List Event}
    (newest : Newest ended log) : ¬ Since ended held log := by
  induction log with
  | nil => exact id
  | cons event earlier ih =>
      cases event with
      | registered pid agentId => exact ih newest
      | polled report => exact fun since => since.1 newest

theorem Since.mono {ended held wider : Report → Prop} (weaker : ∀ report, held report →
    wider report) {log : List Event} (since : Since ended held log) : Since ended wider log := by
  induction log with
  | nil => exact since
  | cons event earlier ih =>
      cases event with
      | registered pid agentId => exact ih since
      | polled report => exact ⟨since.1, since.2.imp (weaker report) ih⟩

variable (mgr) in
structure Inv (world : World) : Prop where
  fair : ∀ report earlier, .polled report :: earlier <:+ world.log → Fair mgr report earlier
  flagged : ∀ pid process, KilledSince pid world.log → (pid, process) ∈ world.tracked.entries →
    process.killed = true
  agents : ∀ agentId stored, world.tracker.agentUsage agentId = some stored →
    (mgr.effectiveAgentLimits agentId).1 < stored.cpu →
      Newest (Report.KilledOf agentId) world.log
  all : mgr.maxTotalCpuPct < world.tracker.globalUsage.cpu → 0 ≤ mgr.maxTotalCpuPct →
    Since Report.KilledGlobally (Report.OverTotal mgr) world.log →
      Since Report.KilledGlobally (fun report => report.OverTotal mgr ∧ report.LeftNobody)
        world.log

theorem stored_over {sample stored limit : ℚ} (within : sample ≤ limit)
    (above : limit < alpha.value * sample + (1 - alpha.value) * stored) : limit < stored := by
  have := alpha.atMostOne
  have := alpha.positive
  by_contra low
  nlinarith

end Invariant

section Tick

variable {mgr : SystemResourceManager} {alpha : Alpha} {sys : System} {world next : World}
  {report : Report} {last : Option Kill}

-- A tick that enforces the limits, with what it saw and whom phase one killed.
variable (polled : Polled mgr alpha sys world next (pidUsage mgr sys world.tracked) report
  (phaseOneVictims mgr alpha (pidUsage mgr sys world.tracked) world.tracker
    (agentIds (pidUsage mgr sys world.tracked))) last)

include polled

theorem Polled.blend_over : mgr.maxTotalCpuPct < next.tracker.globalUsage.cpu ↔
    alpha.value * (mgr.maxTotalCpuPct - (total (pidUsage mgr sys world.tracked)).cpu) <
      (1 - alpha.value) * (world.tracker.globalUsage.cpu - mgr.maxTotalCpuPct) := by
  rw [polled.globalCpu]
  exact ResourceMonitor.blend_over

theorem Polled.ongoing_of_calm
    (calm : Calm mgr alpha (pidUsage mgr sys world.tracked) world) (kill : Kill)
    (member : kill ∈ report.kills) : Ongoing mgr kill report world.log := by
  rw [polled.kills] at member
  rcases List.mem_append.mp member with first | second
  · obtain ⟨listed, hit⟩ := mem_phaseOneVictims.mp first
    obtain ⟨usage, inside, own⟩ := mem_agentIds.mp listed
    rcases @victimOf_cases mgr alpha _ world.tracker kill.agentId ⟨usage, inside, own⟩ with
      ⟨above, other, same, -, -, cause⟩ | ⟨-, none_⟩
    · rw [hit, Option.some.injEq] at same
      subst same
      by_cases memory : (mgr.effectiveAgentLimits kill.agentId).2 <
          (total (ofAgent (pidUsage mgr sys world.tracked) kill.agentId)).mem
      · rw [if_pos memory] at cause
        rw [Ongoing, cause]
        trivial
      · rw [if_neg memory] at cause
        rw [Ongoing, cause]
        left
        have fine := calm.agents usage inside
        rw [own] at fine
        rw [Report.Over, polled.seen]
        rcases fine with busy | quiet | memory'
        · exact busy
        · exact absurd (above.resolve_left memory) (not_lt.mpr quiet)
        · exact absurd memory' memory
    · rw [hit] at none_
      cases none_
  · obtain ⟨cause, cpu, ⟨usage, inside, pid⟩, missed⟩ :=
      polled.global kill (Option.mem_toList.mp second)
    unfold Ongoing
    split
    next agent =>
      rw [agent] at cause
      cases cause
    next busy =>
      rcases calm.all with above | quiet | gone | earlier
      · left
        rw [Report.OverTotal, polled.seen]
        exact above
      · exact absurd (polled.blend_over.mp (cpu busy)) (not_lt.mpr quiet)
      · have all := (victims_all pidUsage_distinct).mpr gone usage inside
        rw [pid] at all
        exact absurd all missed
      · exact .inr (earlier.mono fun _ held => held.1)
    all_goals trivial

theorem Polled.calm_of_ongoing (inv : Inv mgr world)
    (ongoing : ∀ kill ∈ report.kills, Ongoing mgr kill report world.log) :
    Calm mgr alpha (pidUsage mgr sys world.tracked) world := by
  constructor
  · intro usage inside
    by_contra wild
    simp only [not_or, not_lt, not_le] at wild
    obtain ⟨low, above, memory⟩ := wild
    rcases @victimOf_cases mgr alpha _ world.tracker usage.agentId ⟨usage, inside, rfl⟩ with
      ⟨-, kill, hit, owner, -, cause⟩ | ⟨within, -⟩
    · rw [if_neg (not_lt.mpr memory)] at cause
      have killed : kill ∈ report.kills := by
        rw [polled.kills]
        refine List.mem_append_left _ (mem_phaseOneVictims.mpr ?_)
        rw [owner]
        exact ⟨mem_agentIds.mpr ⟨usage, inside, rfl⟩, hit⟩
      have held := ongoing kill killed
      rw [Ongoing, cause] at held
      rw [owner, Report.Over, polled.seen] at held
      have since := held.resolve_left (not_lt.mpr low)
      have high := stored_over low (ResourceMonitor.blend_over.mpr above)
      cases stored : world.tracker.agentUsage usage.agentId with
      | none =>
          rw [stored] at high
          have raw : 0 ≤ (total (ofAgent (pidUsage mgr sys world.tracked) usage.agentId)).cpu :=
            sum_cpu_nonneg fun other member => (mem_ofAgent.mp member).1
          exact absurd high (not_lt.mpr (raw.trans low))
      | some average =>
          rw [stored] at high
          exact not_since_of_newest (inv.agents usage.agentId average stored high) since
    · exact within (.inr above)
  · by_contra wild
    simp only [not_or, not_lt, not_le] at wild
    obtain ⟨low, above, left_, fresh⟩ := wild
    rcases polled.above (polled.blend_over.mpr above) with gone | ⟨kill, chosen, cause⟩
    · exact left_ ((victims_all pidUsage_distinct).mp gone)
    · have killed : kill ∈ report.kills := by
        rw [polled.kills]
        exact List.mem_append_right _ (Option.mem_toList.mpr chosen)
      have held := ongoing kill killed
      rw [Ongoing, cause] at held
      rw [Report.OverTotal, polled.seen] at held
      have raw : 0 ≤ (total (pidUsage mgr sys world.tracked)).cpu :=
        sum_cpu_nonneg fun _ member => member
      exact fresh (inv.all (stored_over low (ResourceMonitor.blend_over.mpr above)) (raw.trans low)
        (held.resolve_left (not_lt.mpr low)))

theorem Polled.phaseOneKills (agentId : Text) : phaseOneKills agentId (some report) =
    (victimOf mgr alpha (pidUsage mgr sys world.tracked) world.tracker agentId).toList := by
  have none_ : (last.toList.filter fun kill =>
      decide (kill.agentId = agentId) && !kill.cause.isGlobal) = [] := by
    refine List.filter_eq_nil_iff.mpr fun kill member => ?_
    rw [(polled.global kill (Option.mem_toList.mp member)).1]
    simp
  rw [ResourceMonitor.phaseOneKills, Option.elim_some, polled.kills, List.filter_append, none_,
    List.append_nil, phaseOneKills_victims agentIds_nodup]
  split
  next => rfl
  next absent =>
    rw [victimOf_absent fun usage member own => absent (mem_agentIds.mpr ⟨usage, member, own⟩)]
    rfl

theorem Polled.fair (inv : Inv mgr world)
    (ongoing : ∀ kill ∈ report.kills, Ongoing mgr kill report world.log) :
    Fair mgr report world.log := by
  refine ⟨ongoing, fun agentId => ?_, ?_, ?_, fun kill member since => ?_⟩
  · rw [polled.phaseOneKills]
    exact Option.length_toList_le
  · rw [polled.kills, List.filter_append, globalKills_victims, List.nil_append]
    exact (List.length_filter_le _ _).trans Option.length_toList_le
  · rw [polled.kills, List.map_append]
    refine List.Nodup.append (victims_nodup pidUsage_distinct agentIds_nodup) ?_ ?_
    · cases last with
      | none => exact List.nodup_nil
      | some kill => exact List.nodup_singleton _
    · intro pid first second
      obtain ⟨kill, chosen, rfl⟩ := List.mem_map.mp second
      exact (polled.global kill (Option.mem_toList.mp chosen)).2.2.2 first
  · have live : ∃ usage ∈ pidUsage mgr sys world.tracked, usage.pid = kill.pid := by
      rw [polled.kills] at member
      rcases List.mem_append.mp member with first | second
      · obtain ⟨-, -, usage, inside, -, pid⟩ := victimOf_some (mem_phaseOneVictims.mp first).2
        exact ⟨usage, inside, pid⟩
      · exact (polled.global kill (Option.mem_toList.mp second)).2.2.1
    obtain ⟨usage, inside, pid⟩ := live
    obtain ⟨process, _, entry, alive, -⟩ := mem_pidUsage.mp inside
    rw [pid] at entry
    rw [inv.flagged kill.pid process since entry] at alive
    cases alive

theorem Polled.inv (inv : Inv mgr world)
    (ongoing : ∀ kill ∈ report.kills, Ongoing mgr kill report world.log) : Inv mgr next := by
  constructor
  · intro other earlier suffix
    rw [polled.log] at suffix
    rcases List.suffix_cons_iff.mp suffix with same | older
    · cases same
      exact polled.fair inv ongoing
    · exact inv.fair other earlier older
  · intro pid process since entry
    rw [polled.log] at since
    rw [polled.tracked] at entry
    obtain ⟨before, inside, same⟩ := Tracked.mem_killAll.mp entry
    rcases since with now | earlier
    · rw [same, if_pos now]
    · have killed := inv.flagged pid before earlier (Tracked.mem_alive.mp inside).1
      rw [same]
      split
      next => rfl
      next => exact killed
  · intro agentId stored average high
    rw [polled.agentUsage agentId] at average
    split at average
    next present =>
      rw [Option.some.injEq] at average
      subst average
      rcases @victimOf_cases mgr alpha _ world.tracker agentId (mem_agentIds.mp present) with
        ⟨-, kill, hit, owner, -⟩ | ⟨within, -⟩
      · rw [polled.log]
        refine ⟨kill, ?_, owner⟩
        rw [polled.kills]
        refine List.mem_append_left _ (mem_phaseOneVictims.mpr ?_)
        rw [owner]
        exact ⟨present, hit⟩
      · exact absurd (.inr (ResourceMonitor.blend_over.mp high)) within
    next => cases average
  · intro high positive since
    rw [polled.log] at since ⊢
    refine ⟨since.1, ?_⟩
    have gone : report.LeftNobody := by
      intro usage inside
      rw [polled.seen] at inside
      rcases polled.above high with gone | ⟨kill, chosen, cause⟩
      · rw [polled.kills, List.map_append]
        exact List.mem_append_left _ (gone usage inside)
      · refine absurd ⟨kill, ?_, by rw [cause]; rfl⟩ since.1
        rw [polled.kills]
        exact List.mem_append_right _ (Option.mem_toList.mpr chosen)
    by_cases above : report.OverTotal mgr
    · exact .inl ⟨above, gone⟩
    · have low : (total (pidUsage mgr sys world.tracked)).cpu ≤ mgr.maxTotalCpuPct := by
        rw [Report.OverTotal, polled.seen] at above
        exact not_lt.mp above
      refine .inr (inv.all (@stored_over alpha _ _ _ low ?_) positive (since.2.resolve_left above))
      rw [← polled.globalCpu]
      exact high

end Tick

section Isolation

variable {mgr : SystemResourceManager} {alpha : Alpha}

theorem usageOf_some {sys : System} {entry : Nat × TrackedProcess} {usage : PidUsage}
    (used : usageOf mgr sys entry = some usage) :
    usage.agentId = entry.2.agentId ∧ (sys.processes entry.1).isSome = true := by
  unfold usageOf at used
  split at used
  next => cases used
  next =>
    obtain ⟨reading, found, rfl⟩ := Option.map_eq_some_iff.mp used
    exact ⟨rfl, by rw [found]; rfl⟩

theorem ofAgent_usages (sys : System) (entries : List (Nat × TrackedProcess)) (agentId : Text) :
    ofAgent ((entries.filter fun entry => (sys.processes entry.1).isSome).filterMap
        (usageOf mgr sys)) agentId =
      (entries.filter fun entry => decide (entry.2.agentId = agentId)).filterMap
        (usageOf mgr sys) := by
  rw [ofAgent, List.filter_filterMap, List.filterMap_filter, List.filterMap_filter]
  refine List.filterMap_congr fun entry _ => ?_
  cases used : usageOf mgr sys entry with
  | none => simp
  | some usage =>
      obtain ⟨own, alive⟩ := usageOf_some used
      simp [own, alive, Option.filter]

theorem phaseOneKills_pollOnce (sys : System) (world : World) (agentId : Text) :
    phaseOneKills agentId (pollOnce mgr alpha sys world.tracked world.tracker).2.2 =
      if sys.totalMemory = 0 then []
      else (victimOf mgr alpha (pidUsage mgr sys world.tracked) world.tracker agentId).toList := by
  by_cases tracks : world.tracked.entries = []
  · have nobody : pidUsage mgr sys world.tracked = [] := by
      simp [pidUsage, Tracked.alive, Tracked.retain, tracks]
    rw [pollOnce, if_pos tracks, nobody, victimOf_absent (by simp)]
    split <;> rfl
  · by_cases memory : sys.totalMemory = 0
    · rw [pollOnce, if_neg tracks, if_pos memory, if_pos memory]
      rfl
    · obtain ⟨report, last, polled⟩ := @poll_spec mgr alpha sys world tracks memory
      have newest : (pollOnce mgr alpha sys world.tracked world.tracker).2.2 = some report := by
        have log := polled.log
        rw [poll] at log
        cases found : (pollOnce mgr alpha sys world.tracked world.tracker).2.2 with
        | none => simp [found] at log
        | some other => simpa [found] using log
      rw [newest, if_neg memory, polled.phaseOneKills]

theorem isolated (agentId : Text) (world other : World) (sys sys' : System)
    (alike : Alike agentId world other sys sys') :
    phaseOneKills agentId (pollOnce mgr alpha sys world.tracked world.tracker).2.2 =
      phaseOneKills agentId (pollOnce mgr alpha sys' other.tracked other.tracker).2.2 := by
  have own : ofAgent (pidUsage mgr sys world.tracked) agentId =
      ofAgent (pidUsage mgr sys' other.tracked) agentId := by
    unfold pidUsage Tracked.alive Tracked.retain
    rw [ofAgent_usages, ofAgent_usages, ← alike.tracked]
    refine List.filterMap_congr fun entry member => ?_
    rw [List.mem_filter, decide_eq_true_iff] at member
    unfold usageOf
    rw [alike.readings entry member.1 member.2, alike.memory]
  rw [phaseOneKills_pollOnce, phaseOneKills_pollOnce, alike.memory]
  unfold victimOf smoothedOf
  rw [own, alike.stored]

end Isolation

theorem Inv.quiet {mgr : SystemResourceManager} {world : World} (inv : Inv mgr world)
    {tracked : Tracked} {tracker : UsageTracker}
    (entries : ∀ pid process, (pid, process) ∈ tracked.entries →
      (pid, process) ∈ world.tracked.entries)
    (averages : tracker = world.tracker ∨ tracker = {}) :
    Inv mgr { world with tracked := tracked, tracker := tracker } := by
  refine ⟨inv.fair, fun pid process since entry => ?_, ?_, ?_⟩
  · exact inv.flagged pid process since (entries pid process entry)
  · intro agentId stored average
    rcases averages with rfl | rfl
    · exact inv.agents agentId stored average
    · cases average
  · rcases averages with rfl | rfl
    · exact inv.all
    · exact fun high positive => absurd high (not_lt.mpr positive)

theorem Inv.start (mgr : SystemResourceManager) : Inv mgr {} := by
  refine ⟨fun report earlier suffix => ?_, nofun, nofun, fun _ _ => id⟩
  exact absurd (List.suffix_nil.mp suffix) (List.cons_ne_nil _ _)

theorem poll_idle {mgr : SystemResourceManager} {alpha : Alpha} {sys : System} {world : World}
    (idle : world.tracked.entries = [] ∨ sys.totalMemory = 0) :
    ∃ tracked tracker, poll mgr alpha sys world =
        { world with tracked := tracked, tracker := tracker } ∧
      (∀ pid process, (pid, process) ∈ tracked.entries → (pid, process) ∈ world.tracked.entries) ∧
      (tracker = world.tracker ∨ tracker = {}) := by
  unfold poll pollOnce
  by_cases tracks : world.tracked.entries = []
  · rw [if_pos tracks]
    exact ⟨world.tracked, {}, rfl, fun _ _ => id, .inr rfl⟩
  · rw [if_neg tracks, if_pos (idle.resolve_left tracks)]
    exact ⟨world.tracked.alive sys, world.tracker, rfl,
      fun _ _ member => (Tracked.mem_alive.mp member).1, .inl rfl⟩

theorem inv_kept {mgr : SystemResourceManager} {alpha : Alpha} (action : Action)
    (world next : World) (inv : Inv mgr world) (taken : step mgr alpha action world = some next)
    (calm : CalmAction mgr alpha action world) : Inv mgr next := by
  cases action with
  | register pid agentId =>
      cases taken
      refine ⟨fun report earlier suffix => ?_, fun other process since entry => ?_, inv.agents,
        inv.all⟩
      · rcases List.suffix_cons_iff.mp suffix with same | older
        · cases same
        · exact inv.fair report earlier older
      · rcases Tracked.mem_register.mp entry with ⟨old, -⟩ | ⟨same, -⟩
        · exact inv.flagged other process since.2 old
        · exact absurd same since.1
  | unregister pid =>
      cases taken
      exact inv.quiet (fun _ _ member => (List.mem_filter.mp member).1) (.inl rfl)
  | reorder entries =>
      cases taken
      refine inv.quiet (fun pid process member => ?_) (.inl rfl)
      unfold Tracked.reorder at member
      split at member
      next same => exact same.mem_iff.mp member
      next => exact member
  | poll sys =>
      cases taken
      by_cases idle : world.tracked.entries = [] ∨ sys.totalMemory = 0
      · obtain ⟨tracked, tracker, same, entries, averages⟩ := @poll_idle mgr alpha _ _ idle
        rw [same]
        exact inv.quiet entries averages
      · obtain ⟨tracks, memory⟩ := not_or.mp idle
        obtain ⟨report, last, polled⟩ := @poll_spec mgr alpha sys world tracks memory
        have quiet := (calm.resolve_left tracks).resolve_left memory
        exact polled.inv inv (polled.ongoing_of_calm quiet)

theorem calm_needed {mgr : SystemResourceManager} {alpha : Alpha} (action : Action)
    (world next : World) (inv : Inv mgr world) (taken : step mgr alpha action world = some next)
    (sound : Sound mgr alpha next) : CalmAction mgr alpha action world := by
  cases action with
  | poll sys =>
      cases taken
      by_cases idle : world.tracked.entries = [] ∨ sys.totalMemory = 0
      · exact idle.imp_right .inl
      · obtain ⟨tracks, memory⟩ := not_or.mp idle
        obtain ⟨report, last, polled⟩ := @poll_spec mgr alpha sys world tracks memory
        have fair := sound.fair report world.log ⟨[], polled.log.symm⟩
        exact .inr (.inr (polled.calm_of_ongoing inv fair.ongoing))
  | _ => trivial

theorem run_total (mgr : SystemResourceManager) (alpha : Alpha) (actions : List Action)
    (world : World) : ∃ last, Machine.run (step mgr alpha) actions world = some last := by
  induction actions generalizing world with
  | nil => exact ⟨world, rfl⟩
  | cons action rest ih => cases action <;> exact ih _

/-- In a run, all kills are for what still goes on just where, on each tick, the averages from
before decide no kill. -/
theorem sound_iff_calm (mgr : SystemResourceManager) (alpha : Alpha) (actions : List Action) :
    Machine.Always (step mgr alpha) (Sound mgr alpha) actions {} ↔
      Machine.Guarded (step mgr alpha) (CalmAction mgr alpha) actions {} := by
  obtain ⟨last, reached⟩ := run_total mgr alpha actions {}
  exact Machine.always_iff_guarded_of
    (fun world inv => ⟨inv.fair, fun agentId => isolated agentId world⟩) inv_kept calm_needed
    actions {} last (Inv.start mgr) reached

section Example

def eightPercent : SystemResourceManager :=
  ⟨8, 100, 1000, 1000, 1, fun _ => none, by decide⟩

def tenth : Alpha := ⟨1 / 10, by norm_num, by norm_num⟩

def busyThenIdle : List Action :=
  [.register 1 ['a'], .register 2 ['a'],
    .poll ⟨fun pid => if pid = 1 then some ⟨100, 0, by norm_num⟩ else some ⟨0, 0, le_rfl⟩, 1⟩,
    .poll ⟨fun pid => if pid = 1 then none else some ⟨0, 0, le_rfl⟩, 1⟩]

theorem idle_killed : ¬ ∀ (mgr : SystemResourceManager) (alpha : Alpha) (actions : List Action),
    Machine.Always (step mgr alpha) (Sound mgr alpha) actions {} := by
  intro claimed
  have always := claimed eightPercent tenth busyThenIdle
  let idle : Report := ⟨[⟨2, ['a'], 0, 0, 0⟩], [⟨2, ['a'], .agentCpu⟩]⟩
  let busy : Report := ⟨[⟨1, ['a'], 100, 0, 0⟩, ⟨2, ['a'], 0, 0, 0⟩], [⟨1, ['a'], .agentCpu⟩]⟩
  have last : ∃ world, Sound eightPercent tenth world ∧ world.log =
      [.polled idle, .polled busy, .registered 2 ['a'], .registered 1 ['a']] :=
    ⟨_, always.2.2.2.2, by decide +kernel⟩
  obtain ⟨world, sound, log⟩ := last
  have fair := sound.fair idle _ ⟨[], log.symm⟩
  rcases fair.ongoing ⟨2, ['a'], .agentCpu⟩ (List.mem_singleton_self _) with now | before
  · have within : ¬ (eightPercent.effectiveAgentLimits ['a']).1 <
        (total (ofAgent idle.live ['a'])).cpu := by decide +kernel
    exact within now
  · exact before.1 ⟨_, List.mem_singleton_self _, rfl⟩

end Example

end Frona.Tool.ResourceMonitor
