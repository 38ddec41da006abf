import Frona.Machine.Lists
import Frona.Task.Active
import Mathlib.Data.List.Perm.Subperm

set_option autoImplicit false

namespace Frona.Task.Executor

open Utf8 (Text)

section Active

variable (agentOf : Text → Text) (maxConcurrentTasks : Nat)

def sameAgent (turns : List Turn) (agentId : Text) : List Turn :=
  turns.filter (fun turn => agentOf turn.taskId = agentId)

def Within : List Turn → Prop
  | [] => True
  | turn :: older => older.length < maxConcurrentTasks ∧
      (sameAgent agentOf older (agentOf turn.taskId)).length < turn.agentMax ∧ Within older

/-- The keys that calls of `run_task` hold. -/
def held (executor : Executor) : List Text :=
  executor.executing.map (turnKey agentOf) ++ executor.dropped

structure Consistent (executor : Executor) : Prop where
  keys : executor.active.keys.Nodup
  nodup : (executor.held agentOf).Nodup
  entries : ∀ turn ∈ executor.executing, (turnKey agentOf turn, turn.token) ∈ executor.active
  owned : ∀ key, key ∈ executor.active.keys ↔
    key ∈ executor.held agentOf ∨ key ∈ executor.registered
  apart : ∀ key ∈ executor.registered, key ∉ executor.held agentOf
  within : Within agentOf maxConcurrentTasks executor.executing

/-- What an executor is to keep in every state. -/
structure Sound (executor : Executor) : Prop where
  oneTurn : (executor.executing.map Turn.taskId).Nodup
  limit : executor.executing.length ≤ maxConcurrentTasks
  agentLimit : ∀ agentId most,
    (∀ turn ∈ executor.executing, agentOf turn.taskId = agentId → turn.agentMax ≤ most) →
      (sameAgent agentOf executor.executing agentId).length ≤ most
  cancellable : ∀ turn ∈ executor.executing,
    executor.active.get (turnKey agentOf turn) = some turn.token
  owned : ∀ key, key ∈ executor.active.keys ↔
    key ∈ executor.executing.map (turnKey agentOf) ∨ key ∈ executor.dropped ∨
      key ∈ executor.registered
  empties : executor.executing = [] → executor.dropped = [] → executor.registered = [] →
    executor.active = []

/-- A registration comes and goes under a key that no call of `run_task` holds. -/
def Apart : ExecutorEvent → Executor → Prop
  | .register agentId taskId _, executor => activeKey agentId taskId ∉ executor.held agentOf
  | .unregister agentId taskId, executor => activeKey agentId taskId ∉ executor.held agentOf
  | _, _ => True

instance : DecidableRel (Apart agentOf)
  | .register agentId taskId _, executor | .unregister agentId taskId, executor =>
      inferInstanceAs (Decidable (activeKey agentId taskId ∉ executor.held agentOf))
  | .ask .., _ | .enter _, _ | .finish _, _ | .remove _, _ | .inject _, _ | .settle _, _ =>
      isTrue trivial

variable {agentOf maxConcurrentTasks} {executor next : Executor}

theorem Within.erase {turns : List Turn} (within : Within agentOf maxConcurrentTasks turns)
    (turn : Turn) : Within agentOf maxConcurrentTasks (turns.erase turn) := by
  induction turns with
  | nil => trivial
  | cons last older ih =>
      obtain ⟨few, fewer, rest⟩ := within
      by_cases same : last = turn
      next =>
        subst same
        simpa using rest
      next =>
        have sublist : (older.erase turn).Sublist older := List.erase_sublist
        have shorter := sublist.length_le
        have agents := (sublist.filter
          (fun other => agentOf other.taskId = agentOf last.taskId)).length_le
        rw [List.erase_cons_tail (by simpa using same)]
        simp only [sameAgent] at fewer
        refine ⟨by omega, ?_, ih rest⟩
        simp only [sameAgent]
        omega

theorem Within.length_le {turns : List Turn}
    (within : Within agentOf maxConcurrentTasks turns) : turns.length ≤ maxConcurrentTasks := by
  cases turns with
  | nil => simp
  | cons last older =>
      have few := within.1
      simp only [List.length_cons]
      omega

theorem Within.agent_le {turns : List Turn} (within : Within agentOf maxConcurrentTasks turns)
    (agentId : Text) (most : Nat)
    (bounded : ∀ turn ∈ turns, agentOf turn.taskId = agentId → turn.agentMax ≤ most) :
    (sameAgent agentOf turns agentId).length ≤ most := by
  induction turns with
  | nil => simp [sameAgent]
  | cons last older ih =>
      obtain ⟨few, fewer, rest⟩ := within
      by_cases same : agentOf last.taskId = agentId
      next =>
        -- The turn that entered last saw the others of its agent.
        have low := bounded last (by simp) same
        subst same
        simp only [sameAgent] at fewer
        simp only [sameAgent, List.filter_cons, decide_true, if_true, List.length_cons]
        omega
      next =>
        have counted := ih rest fun turn member => bounded turn (by simp [member])
        simpa [sameAgent, same] using counted

theorem length_le_of_keys (turns : List Turn) (keys : List Text)
    (nodup : (turns.map (turnKey agentOf)).Nodup)
    (inside : ∀ turn ∈ turns, turnKey agentOf turn ∈ keys) : turns.length ≤ keys.length := by
  have contained : turns.map (turnKey agentOf) ⊆ keys := by
    intro key member
    obtain ⟨turn, among, rfl⟩ := List.mem_map.mp member
    exact inside turn among
  simpa using (nodup.subperm contained).length_le

theorem Consistent.executing_nodup (consistent : executor.Consistent agentOf maxConcurrentTasks) :
    (executor.executing.map (turnKey agentOf)).Nodup :=
  (List.nodup_append.mp consistent.nodup).1

theorem Consistent.key_mem (consistent : executor.Consistent agentOf maxConcurrentTasks)
    {turn : Turn} (executing : turn ∈ executor.executing) :
    turnKey agentOf turn ∈ executor.active.keys :=
  List.mem_map_of_mem (consistent.entries turn executing)

theorem key_held {turn : Turn} (executing : turn ∈ executor.executing) :
    turnKey agentOf turn ∈ executor.held agentOf :=
  List.mem_append_left _ (List.mem_map_of_mem executing)

theorem Consistent.within_cons (consistent : executor.Consistent agentOf maxConcurrentTasks)
    (turn : Turn) (few : executor.active.length < maxConcurrentTasks)
    (fewer : (executor.active.ofAgent (agentOf turn.taskId)).length < turn.agentMax) :
    Within agentOf maxConcurrentTasks (turn :: executor.executing) := by
  have total := length_le_of_keys executor.executing executor.active.keys
    consistent.executing_nodup fun other executing => consistent.key_mem executing
  have agent := length_le_of_keys (sameAgent agentOf executor.executing (agentOf turn.taskId))
    (executor.active.ofAgent (agentOf turn.taskId))
    (consistent.executing_nodup.sublist (List.filter_sublist.map _)) (by
      intro other member
      simp only [sameAgent, List.mem_filter, decide_eq_true_eq] at member
      have present := consistent.key_mem member.1
      rw [turnKey, member.2] at present ⊢
      exact ActiveTasks.mem_ofAgent _ _ _ present)
  simp only [ActiveTasks.keys, List.length_map] at total
  exact ⟨by omega, by omega, consistent.within⟩

theorem consistent_start : start.Consistent agentOf maxConcurrentTasks where
  keys := List.nodup_nil
  nodup := List.nodup_nil
  entries := by simp [start]
  owned := by simp [start, held, ActiveTasks.keys]
  apart := by simp [start]
  within := trivial

theorem consistent_enter (turn : Turn)
    (consistent : executor.Consistent agentOf maxConcurrentTasks) :
    (enter agentOf maxConcurrentTasks turn executor).Consistent agentOf maxConcurrentTasks := by
  have same : ∀ rest : List Turn, { executor with asked := rest }.Consistent agentOf
      maxConcurrentTasks := fun rest =>
    ⟨consistent.keys, consistent.nodup, consistent.entries, consistent.owned, consistent.apart,
      consistent.within⟩
  unfold enter
  split
  next admitted =>
    obtain ⟨absent, few, fewer⟩ := admission_admitted admitted
    change turnKey agentOf turn ∉ executor.active.keys at absent
    have free : turnKey agentOf turn ∉ executor.held agentOf ∧
        turnKey agentOf turn ∉ executor.registered := by
      rw [consistent.owned] at absent
      simpa using absent
    have kept : executor.active.keys.filter (· ≠ turnKey agentOf turn) = executor.active.keys := by
      rw [List.filter_eq_self]
      intro key member
      simp only [ne_eq, decide_eq_true_eq]
      rintro rfl
      exact absent member
    refine ⟨?_, ?_, ?_, ?_, ?_, consistent.within_cons turn few fewer⟩
    · simp only [ActiveTasks.keys_insert, kept, List.nodup_cons]
      exact ⟨absent, consistent.keys⟩
    · exact List.nodup_cons.mpr ⟨free.1, consistent.nodup⟩
    · intro other executing
      rw [ActiveTasks.mem_insert]
      rcases List.mem_cons.mp executing with rfl | before
      · exact Or.inl rfl
      · refine Or.inr ⟨consistent.entries other before, fun clash => ?_⟩
        exact free.1 (clash ▸ key_held before)
    · intro key
      have owned := consistent.owned key
      simp only [ActiveTasks.keys_insert, kept, List.mem_cons, held, List.map_cons,
        List.cons_append] at owned ⊢
      rw [owned, or_assoc]
    · intro key registered member
      rcases List.mem_cons.mp member with rfl | before
      · exact free.2 registered
      · exact consistent.apart key registered before
  all_goals exact same _

theorem consistent_finish {turn : Turn} (executing : turn ∈ executor.executing)
    (consistent : executor.Consistent agentOf maxConcurrentTasks) :
    { executor with
      executing := executor.executing.erase turn
      dropped := turnKey agentOf turn :: executor.dropped }.Consistent agentOf
        maxConcurrentTasks := by
  -- The key passes from the turn to the removal.
  have moved : ((executor.executing.erase turn).map (turnKey agentOf) ++
      turnKey agentOf turn :: executor.dropped).Perm (executor.held agentOf) := by
    have front := (List.perm_cons_erase executing).map (turnKey agentOf)
    exact List.perm_middle.trans (front.symm.append_right executor.dropped)
  refine ⟨consistent.keys, moved.nodup_iff.mpr consistent.nodup, ?_, ?_, ?_,
    consistent.within.erase turn⟩
  · intro other member
    exact consistent.entries other (List.mem_of_mem_erase member)
  · intro key
    rw [consistent.owned key]
    exact or_congr_left moved.mem_iff.symm
  · intro key registered member
    exact consistent.apart key registered (moved.mem_iff.mp member)

theorem consistent_remove {key : Text} (dropped : key ∈ executor.dropped)
    (consistent : executor.Consistent agentOf maxConcurrentTasks) :
    { executor with
      dropped := executor.dropped.erase key
      active := executor.active.remove key }.Consistent agentOf maxConcurrentTasks := by
  obtain ⟨turns, removals, disjoint⟩ := List.nodup_append.mp consistent.nodup
  have idle : ∀ turn ∈ executor.executing, turnKey agentOf turn ≠ key := fun turn executing =>
    disjoint _ (List.mem_map_of_mem executing) key dropped
  have lost : key ∉ executor.registered := fun registered =>
    consistent.apart key registered (List.mem_append_right _ dropped)
  refine ⟨?_, ?_, ?_, ?_, ?_, consistent.within⟩
  · rw [ActiveTasks.keys_remove]
    exact consistent.keys.filter _
  · exact consistent.nodup.sublist ((List.Sublist.refl _).append List.erase_sublist)
  · intro turn executing
    rw [ActiveTasks.mem_remove]
    exact ⟨consistent.entries turn executing, idle turn executing⟩
  · intro other
    have owned := consistent.owned other
    simp only [ActiveTasks.keys_remove, List.mem_filter, held, List.mem_append,
      removals.mem_erase_iff, decide_eq_true_eq, ne_eq] at owned ⊢
    rw [owned]
    constructor
    next => tauto
    next =>
      rintro ((executing | ⟨different, among⟩) | registered)
      · obtain ⟨turn, member, rfl⟩ := List.mem_map.mp executing
        exact ⟨Or.inl (Or.inl executing), idle turn member⟩
      · exact ⟨Or.inl (Or.inr among), different⟩
      · refine ⟨Or.inr registered, ?_⟩
        rintro rfl
        exact lost registered
  · intro other registered member
    refine consistent.apart other registered ?_
    exact ((List.Sublist.refl _).append List.erase_sublist).subset member

theorem consistent_register {key : Text} (token : Nat) (free : key ∉ executor.held agentOf)
    (consistent : executor.Consistent agentOf maxConcurrentTasks) :
    { executor with
      active := executor.active.insert key token
      registered := key :: executor.registered }.Consistent agentOf maxConcurrentTasks := by
  refine ⟨?_, consistent.nodup, ?_, ?_, ?_, consistent.within⟩
  · rw [ActiveTasks.keys_insert, List.nodup_cons]
    exact ⟨by simp, consistent.keys.filter _⟩
  · intro turn executing
    rw [ActiveTasks.mem_insert]
    exact Or.inr ⟨consistent.entries turn executing, fun clash => free (clash ▸ key_held executing)⟩
  · intro other
    have owned := consistent.owned other
    by_cases same : other = key
    next => simp [same]
    next => simpa [same, held] using owned
  · intro other registered
    rcases List.mem_cons.mp registered with rfl | before
    · exact free
    · exact consistent.apart other before

theorem consistent_unregister {key : Text} (free : key ∉ executor.held agentOf)
    (consistent : executor.Consistent agentOf maxConcurrentTasks) :
    { executor with
      active := executor.active.remove key
      registered := executor.registered.filter (· ≠ key) }.Consistent agentOf
        maxConcurrentTasks := by
  refine ⟨?_, consistent.nodup, ?_, ?_, ?_, consistent.within⟩
  · rw [ActiveTasks.keys_remove]
    exact consistent.keys.filter _
  · intro turn executing
    rw [ActiveTasks.mem_remove]
    exact ⟨consistent.entries turn executing, fun clash => free (clash ▸ key_held executing)⟩
  · intro other
    have owned := consistent.owned other
    by_cases same : other = key
    next => simpa [same, held] using free
    next => simpa [same, held] using owned
  · intro other registered
    exact consistent.apart other (List.mem_of_mem_filter registered)

theorem consistent_step {event : ExecutorEvent}
    (consistent : executor.Consistent agentOf maxConcurrentTasks)
    (apart : Apart agentOf event executor)
    (taken : step agentOf maxConcurrentTasks event executor = some next) :
    next.Consistent agentOf maxConcurrentTasks := by
  obtain ⟨keys, nodup, entries, owned, separate, within⟩ := consistent
  have consistent : executor.Consistent agentOf maxConcurrentTasks :=
    ⟨keys, nodup, entries, owned, separate, within⟩
  cases event with
  | ask taskId agent =>
      cases taken
      exact ⟨keys, nodup, entries, owned, separate, within⟩
  | enter token =>
      simp only [step] at taken
      split at taken
      next => cases taken
      next turn _ =>
        cases taken
        exact consistent_enter turn consistent
  | finish token =>
      simp only [step] at taken
      split at taken
      next => cases taken
      next turn found =>
        cases taken
        exact consistent_finish (List.mem_of_find?_eq_some found) consistent
  | remove key =>
      simp only [step] at taken
      split at taken
      next dropped =>
        cases taken
        exact consistent_remove dropped consistent
      next => cases taken
  | register agentId taskId token =>
      cases taken
      exact consistent_register token apart consistent
  | unregister agentId taskId =>
      cases taken
      exact consistent_unregister apart consistent
  | inject taskId =>
      cases taken
      exact ⟨keys, nodup, entries, owned, separate, within⟩
  | settle taskId =>
      simp only [step] at taken
      split at taken
      next =>
        cases taken
        exact ⟨keys, nodup, entries, owned, separate, within⟩
      next => cases taken

theorem Consistent.sound (consistent : executor.Consistent agentOf maxConcurrentTasks) :
    executor.Sound agentOf maxConcurrentTasks where
  oneTurn := by
    have tasks : executor.executing.map (turnKey agentOf) =
        (executor.executing.map Turn.taskId).map (fun taskId =>
          activeKey (agentOf taskId) taskId) := by
      simp [turnKey, Function.comp_def]
    exact List.Nodup.of_map _ (tasks ▸ consistent.executing_nodup)
  limit := consistent.within.length_le
  agentLimit := consistent.within.agent_le
  cancellable := by
    intro turn executing
    have found := Machine.find_key Prod.fst consistent.keys _ (consistent.entries turn executing)
    simp [ActiveTasks.get, found]
  owned := by simpa [held, or_assoc] using consistent.owned
  empties := by
    intro none gone free
    have owned := consistent.owned
    rw [List.eq_nil_iff_forall_not_mem]
    intro entry member
    have key := (owned entry.1).mp (List.mem_map_of_mem member)
    simp [held, none, gone, free] at key

/-- Whatever calls of `run_task`, injected turns, removals and registrations interleave, the map
keeps each turn of `run_task` alone, within its limits and cancellable. -/
theorem active_tasks_sound (agentOf : Text → Text) (maxConcurrentTasks : Nat)
    (events : List ExecutorEvent) (last : Executor)
    (apart : Machine.Guarded (step agentOf maxConcurrentTasks) (Apart agentOf) events start)
    (reached : Machine.run (step agentOf maxConcurrentTasks) events start = some last) :
    last.Sound agentOf maxConcurrentTasks := by
  have consistent := Machine.invariant_run (step agentOf maxConcurrentTasks) (Apart agentOf)
    (Consistent agentOf maxConcurrentTasks)
    (fun _ _ _ consistent apart taken => consistent_step consistent apart taken)
    events start last consistent_start apart reached
  exact consistent.sound

end Active

-- The second call finds the task running, the third one its removal pending.
def duplicates : List ExecutorEvent :=
  [.register ['a'] ['h'] 7, .ask ['t'] none, .ask ['t'] none, .enter 0, .enter 1, .inject ['t'],
    .finish 0, .ask ['t'] (some { maxConcurrentTasks := some 1 }), .enter 2]

def afterDuplicates : Executor :=
  { start with
    dropped := [['a', ':', 't']]
    injected := [['t']]
    active := [(['a', ':', 't'], 0), (['a', ':', 'h'], 7)]
    registered := [['a', ':', 'h']]
    tokens := 3 }

theorem duplicates_sound :
    Machine.run (step (fun _ => ['a']) 2) duplicates start = some afterDuplicates ∧
      afterDuplicates.Sound (fun _ => ['a']) 2 := by
  have reached : Machine.run (step (fun _ => ['a']) 2) duplicates start = some afterDuplicates := by
    decide
  exact ⟨reached, active_tasks_sound (fun _ => ['a']) 2 duplicates afterDuplicates
    (by decide) reached⟩

theorem entry_outlives_turn :
    ¬ ∀ (agentOf : Text → Text) (maxConcurrentTasks : Nat) (events : List ExecutorEvent)
      (last : Executor),
      Machine.run (step agentOf maxConcurrentTasks) events start = some last →
        last.executing = [] → last.injected = [] → last.active = [] := by
  intro emptied
  have stays := emptied (fun _ => ['a']) 1 [.ask ['t'] none, .enter 0, .finish 0]
    { start with dropped := [['a', ':', 't']], active := [(['a', ':', 't'], 0)], tokens := 1 }
    (by decide) rfl rfl
  simp at stays

end Frona.Task.Executor
