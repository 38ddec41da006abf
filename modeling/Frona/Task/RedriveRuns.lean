import Frona.Task.ParentRuns
import Frona.Task.Redrive

set_option autoImplicit false

namespace Frona.Task

open Utf8 (Text)

namespace Tasks

variable {tasks : Tasks}

theorem get_map (f : Row → Row) (id : Text) :
    Tasks.get (tasks.map fun entry => (entry.1, f entry.2)) id = (tasks.get id).map f := by
  simp only [Tasks.get, List.find?_map, Option.map_map]
  rfl

theorem get_mark (id other : Text) (mark : Mark) :
    (tasks.mark id mark).get other =
      (tasks.get other).map fun row => if other = id then mark.apply row else row := by
  simp only [Tasks.get, Tasks.mark, List.find?_map, Option.map_map, Function.comp_def]
  cases found : tasks.find? (fun entry => entry.1 = other) with
  | none => simp
  | some entry =>
      have named : entry.1 = other := by simpa using List.find?_some found
      simp [named]

theorem requestsResume_of_append {entry : Text × Row} {kind : TaskKind}
    (requests : tasks.requestsResume kind = true) :
    Tasks.requestsResume (tasks ++ [entry]) kind = true := by
  unfold requestsResume at requests ⊢
  split at requests
  next => exact requests
  next => exact requests
  next sourceCronId _ =>
    cases found : tasks.get sourceCronId with
    | none => simp [found] at requests
    | some row => simpa [get_append (mem_ids_of_get found), found] using requests
  all_goals cases requests

end Tasks

namespace Redrive

variable {agentOf : Text → Text} {chatTask : Text → Option Text} {maxConcurrentTasks : Nat}

section Waiting

variable {tasks : Tasks} {id other : Text}

theorem waiting_iff : waiting chatTask tasks id = true ↔
    ∃ entry ∈ tasks, entry.2.status.isTerminal = false ∧ entry.2.kind.isCron = false ∧
      parentOf chatTask entry.2.kind = some id := by
  simp [waiting, and_assoc]

theorem waiting_mark {mark : Mark} : waiting chatTask (tasks.mark id mark) other = true ↔
    ∃ entry ∈ tasks, (if entry.1 = id then mark.status else entry.2.status).isTerminal = false ∧
      entry.2.kind.isCron = false ∧ parentOf chatTask entry.2.kind = some other := by
  simp only [waiting_iff, Tasks.mark, List.mem_map]
  constructor
  · rintro ⟨-, ⟨entry, member, rfl⟩, waited⟩
    refine ⟨entry, member, ?_⟩
    by_cases same : entry.1 = id
    next => simpa [same, Tasks.apply_kind] using waited
    next => simpa [same] using waited
  · rintro ⟨entry, member, waited⟩
    refine ⟨_, ⟨entry, member, rfl⟩, ?_⟩
    by_cases same : entry.1 = id
    next => simpa [same, Tasks.apply_kind] using waited
    next => simpa [same] using waited

theorem waiting_mark_live {mark : Mark} (live : mark.status.isTerminal = false)
    (waits : waiting chatTask tasks other = true) :
    waiting chatTask (tasks.mark id mark) other = true := by
  obtain ⟨entry, member, running, waited⟩ := waiting_iff.mp waits
  refine waiting_mark.mpr ⟨entry, member, ?_, waited⟩
  split
  next => exact live
  next => exact running

theorem waiting_mark_other {mark : Mark} {row : Row} (distinct : tasks.ids.Nodup)
    (found : tasks.get id = some row) (apart : parentOf chatTask row.kind ≠ some other)
    (waits : waiting chatTask tasks other = true) :
    waiting chatTask (tasks.mark id mark) other = true := by
  obtain ⟨entry, member, running, waited⟩ := waiting_iff.mp waits
  refine waiting_mark.mpr ⟨entry, member, ?_, waited⟩
  split
  next same =>
    have here := Tasks.get_of_mem distinct member
    rw [same, found] at here
    rw [Option.some.inj here] at apart
    exact absurd waited.2 apart
  next => exact running

theorem waiting_mark_congr {mark like : Mark} (ends : mark.status.isTerminal = true)
    (likewise : like.status.isTerminal = true) :
    waiting chatTask (tasks.mark id mark) other = waiting chatTask (tasks.mark id like) other := by
  rw [Bool.eq_iff_iff, waiting_mark, waiting_mark]
  constructor
  all_goals
    rintro ⟨entry, member, running, waited⟩
    refine ⟨entry, member, ?_, waited⟩
    by_cases same : entry.1 = id
    next => simp [same, ends, likewise] at running
    next => simpa [same] using running

@[simp] theorem asksFor_mark (mark : Mark) :
    asksFor chatTask (tasks.mark id mark) other = asksFor chatTask tasks other := by
  unfold asksFor
  rw [Tasks.get_mark]
  cases tasks.get other with
  | none => rfl
  | some row => by_cases same : other = id <;> simp [same, Tasks.apply_kind]

theorem asksFor_of_resumes {row : Row} (resumes : tasks.resumes id = true)
    (found : tasks.get id = some row) : asksFor chatTask tasks id = parentOf chatTask row.kind := by
  have requests : tasks.requestsResume row.kind = true := by
    simpa [Tasks.resumes, found] using resumes
  simp [asksFor, found, requests]

end Waiting

section Invariant

variable (agentOf chatTask) (world : World)

def World.held : List Text := world.busy ++ world.closing

structure World.Consistent : Prop where
  distinct : world.tasks.ids.Nodup
  keys : (world.held.map (key agentOf)).Nodup
  present : ∀ id ∈ world.held, key agentOf id ∈ world.active.keys
  tight : ∀ id, loose chatTask world id = false

variable {agentOf chatTask} {world}

theorem loose_eq_false {id : Text} : loose chatTask world id = false ↔
    ∀ row, world.tasks.get id = some row → ordinary row.kind = true → row.status = .inProgress →
      attended chatTask world id = true := by
  unfold loose
  cases found : world.tasks.get id with
  | none => simp
  | some row =>
      by_cases status : row.status = .inProgress <;> cases kind : ordinary row.kind <;>
        simp [status, kind]

theorem attended_iff {id : Text} : attended chatTask world id = true ↔
    id ∈ world.asked ∨ id ∈ world.busy ∨ id ∈ world.paused ∨
      waiting chatTask world.tasks id = true ∨ due chatTask world id = true := by
  simp [attended, or_assoc]

theorem due_iff {id : Text} : due chatTask world id = true ↔
    ∃ child ∈ world.ending, asksFor chatTask world.tasks child = some id := by
  simp [due]

theorem selected_of_pending {id : Text} {row : Row} (member : (id, row) ∈ world.tasks)
    (kind : ordinary row.kind = true) (status : row.status = .pending) : Selected world id := by
  have plain : row.kind.isCron = false := by
    cases form : row.kind <;> simp_all [ordinary, TaskKind.isCron]
  cases runAt : row.runAt with
  | none =>
      refine ⟨world.now, le_refl _, .inl (List.mem_map.mpr ⟨(id, row), ?_, rfl⟩)⟩
      simp [member, status, runAt, kind]
  | some due =>
      refine ⟨max world.now due, le_max_left _ _, .inr (List.mem_map.mpr ⟨(id, row), ?_, rfl⟩)⟩
      simp [member, status, runAt, plain]

theorem consistent_sound (consistent : world.Consistent agentOf chatTask) :
    world.Sound agentOf chatTask := by
  intro entry member kind running
  have found := Tasks.get_of_mem consistent.distinct member
  cases status : entry.2.status with
  | completed | failed | cancelled => simp [status, TaskStatus.isTerminal] at running
  | pending => exact .inr (.inr (.inr (.inl (selected_of_pending member kind status))))
  | inProgress =>
      have holds := loose_eq_false.mp (consistent.tight entry.1) entry.2 found kind status
      obtain asked | busy | paused | waits | ends := attended_iff.mp holds
      next => exact .inr (.inr (.inr (.inr (.inl asked))))
      next => exact .inl (consistent.present _ (List.mem_append_left _ busy))
      next => exact .inr (.inl paused)
      next => exact .inr (.inr (.inl waits))
      next => exact .inr (.inr (.inr (.inr (.inr ends))))

end Invariant

section Steps

variable {world next : World}

theorem tight_mono (tight : ∀ id, loose chatTask world id = false)
    (tasks : next.tasks = world.tasks)
    (attends : ∀ id, attended chatTask world id = true → attended chatTask next id = true) :
    ∀ id, loose chatTask next id = false := by
  intro id
  rw [loose_eq_false, tasks]
  intro row found kind status
  exact attends id (loose_eq_false.mp (tight id) row found kind status)

theorem attended_mono {id : Text} (attends : attended chatTask world id = true)
    (asked : id ∈ world.asked → id ∈ next.asked) (busy : id ∈ world.busy → id ∈ next.busy)
    (paused : id ∈ world.paused → id ∈ next.paused ∨ id ∈ next.asked)
    (waits : waiting chatTask world.tasks id = true → waiting chatTask next.tasks id = true)
    (ends : due chatTask world id = true → due chatTask next id = true) :
    attended chatTask next id = true := by
  rw [attended_iff] at attends ⊢
  obtain here | here | here | here | here := attends
  next => exact .inl (asked here)
  next => exact .inr (.inl (busy here))
  next =>
    cases paused here with
    | inl stays => exact .inr (.inr (.inl stays))
    | inr called => exact .inl called
  next => exact .inr (.inr (.inr (.inl (waits here))))
  next => exact .inr (.inr (.inr (.inr (ends here))))

theorem keys_perm {held : List Text} (perm : held.Perm world.held)
    (keys : (world.held.map (key agentOf)).Nodup)
    (present : ∀ id ∈ world.held, key agentOf id ∈ world.active.keys) :
    (held.map (key agentOf)).Nodup ∧ ∀ id ∈ held, key agentOf id ∈ world.active.keys :=
  ⟨((perm.map _).nodup_iff).mpr keys, fun id member => present id (perm.mem_iff.mp member)⟩

theorem mem_erase_or {ids : List Text} {id other : Text} (member : other ∈ ids) :
    other ∈ ids.erase id ∨ other = id := by
  by_cases same : other = id
  next => exact .inr same
  next => exact .inl ((List.mem_erase_of_ne same).mpr member)

theorem consistent_enter {id : Text} {agent : Option Agent}
    (consistent : world.Consistent agentOf chatTask)
    (calm : (Event.enter id agent).calm agentOf chatTask maxConcurrentTasks world = true) :
    (world.enter agentOf maxConcurrentTasks id agent).Consistent agentOf chatTask := by
  have others : ∀ next : World, next.tasks = world.tasks → next.asked = world.asked.erase id →
      (∀ other ∈ world.busy, other ∈ next.busy) → next.paused = world.paused →
        next.ending = world.ending → loose chatTask next id = false →
          ∀ other, loose chatTask next other = false := by
    intro next tasks asked busy paused ending here other
    by_cases same : other = id
    next => rwa [same]
    next =>
      rw [loose_eq_false, tasks]
      intro row found kind status
      have before := loose_eq_false.mp (consistent.tight other) row found kind status
      refine attended_mono before ?_ (busy other) ?_ ?_ ?_
      · rw [asked]
        exact fun member => (mem_erase_or member).resolve_right same
      · rw [paused]
        exact .inl
      · rw [tasks]
        exact fun waits => waits
      · simp only [due, tasks, ending]
        exact fun ends => ends
  unfold World.enter
  split
  next passes =>
    obtain ⟨absent, -⟩ := admission_admitted passes
    have fresh : key agentOf id ∉ world.held.map (key agentOf) := by
      intro member
      obtain ⟨other, held, same⟩ := List.mem_map.mp member
      have taken := consistent.present other held
      rw [same] at taken
      exact absent taken
    refine ⟨consistent.distinct, ?_, ?_, ?_⟩
    · have keys : ((id :: world.held).map (key agentOf)).Nodup :=
        List.nodup_cons.mpr ⟨fresh, consistent.keys⟩
      simpa [World.held, World.busy] using keys
    · intro other member
      rw [ActiveTasks.keys_insert]
      by_cases same : key agentOf other = key agentOf id
      next => simp [same]
      next =>
        have held : other ∈ world.held := by
          have cases : other = id ∨ other ∈ world.held := by
            simpa [World.held, World.busy] using member
          exact cases.resolve_left fun equal => same (by rw [equal])
        simp [same, consistent.present other held]
    · refine others _ rfl rfl (fun other member => List.mem_cons_of_mem _ member) rfl rfl ?_
      rw [loose_eq_false]
      intro row found kind status
      exact attended_iff.mpr (.inr (.inl (by simp [World.busy])))
  all_goals
    next refused =>
      refine ⟨consistent.distinct, consistent.keys, consistent.present,
        others _ rfl rfl (fun _ member => member) rfl rfl ?_⟩
      simpa [Event.calm, refused] using calm

theorem held_check {id : Text} (member : id ∈ world.entered) :
    (world.entered.erase id ++ id :: world.checked ++ world.running ++ world.closing).Perm
        world.held ∧
      (world.entered.erase id ++ world.checked ++ world.running ++ id :: world.closing).Perm
        world.held := by
  have moved : (id :: (world.entered.erase id ++ world.checked ++ world.running ++
      world.closing)).Perm world.held := by
    simpa [World.held, World.busy] using ((List.perm_cons_erase member).symm.append_right
      (world.checked ++ (world.running ++ world.closing)))
  constructor
  · refine List.Perm.trans ?_ moved
    simp
  · exact List.perm_middle.trans moved

theorem held_begin {id : Text} (member : id ∈ world.checked) :
    (world.entered ++ world.checked.erase id ++ id :: world.running ++ world.closing).Perm
      world.held := by
  have moved : (world.entered ++ (world.checked.erase id ++ id :: world.running)).Perm
      (world.entered ++ (world.checked ++ world.running)) := by
    refine List.Perm.append_left _ (List.perm_middle.trans ?_)
    exact (List.perm_cons_erase member).symm.append_right world.running
  simpa [World.held, World.busy] using moved.append_right world.closing

theorem held_stop {id : Text} (member : id ∈ world.running) :
    (world.entered ++ world.checked ++ world.running.erase id ++ id :: world.closing).Perm
      world.held := by
  have moved : (world.entered ++ world.checked ++ (world.running.erase id ++
      id :: world.closing)).Perm (world.entered ++ world.checked ++
        (world.running ++ world.closing)) := by
    refine List.Perm.append_left _ (List.perm_middle.trans ?_)
    exact (List.perm_cons_erase member).symm.append_right world.closing
  simpa [World.held, World.busy] using moved

theorem consistent_check {id : Text} (consistent : world.Consistent agentOf chatTask)
    (member : id ∈ world.entered) : (world.check id).Consistent agentOf chatTask := by
  obtain ⟨goes, bails⟩ := held_check member
  unfold World.check
  split
  next cancelled =>
    obtain ⟨keys, present⟩ := keys_perm bails consistent.keys consistent.present
    refine ⟨consistent.distinct, keys, present, ?_⟩
    intro other
    rw [loose_eq_false]
    intro row found kind status
    have before := loose_eq_false.mp (consistent.tight other) row found kind status
    -- The cancelled task itself is not in progress.
    have apart : other ≠ id := by
      rintro rfl
      have found : world.tasks.get other = some row := found
      simp [found, status] at cancelled
    refine attended_mono before (fun here => here) ?_ .inl (fun waits => waits) (fun ends => ends)
    simp [World.busy, List.mem_erase_of_ne apart]
  next =>
    obtain ⟨keys, present⟩ := keys_perm goes consistent.keys consistent.present
    refine ⟨consistent.distinct, keys, present, ?_⟩
    refine tight_mono consistent.tight rfl fun other before => ?_
    refine attended_mono before (fun here => here) ?_ .inl (fun waits => waits) (fun ends => ends)
    by_cases same : other = id
    next => simp [World.busy, same]
    next => simp [World.busy, List.mem_erase_of_ne same, same]

structure Marked (world next : World) (id : Text) (mark : Mark) : Prop where
  tasks : next.tasks = world.tasks.mark id mark
  asked : next.asked = world.asked
  busy : ∀ other ≠ id, other ∈ world.busy → other ∈ next.busy
  paused : next.paused = world.paused
  ending : world.ending ⊆ next.ending

namespace Marked

variable {id : Text} {mark : Mark}

theorem due (marked : Marked world next id mark) {other : Text}
    (ends : due chatTask world other = true) : Redrive.due chatTask next other = true := by
  obtain ⟨child, member, asks⟩ := due_iff.mp ends
  exact due_iff.mpr ⟨child, marked.ending member, by rw [marked.tasks, asksFor_mark, asks]⟩

theorem attended (marked : Marked world next id mark) {other : Text} (apart : other ≠ id)
    (before : attended chatTask world other = true)
    (waits : waiting chatTask world.tasks other = true → Redrive.attended chatTask next other = true) :
    Redrive.attended chatTask next other = true := by
  obtain here | here | here | here | here := attended_iff.mp before
  next => exact attended_iff.mpr (.inl (marked.asked ▸ here))
  next => exact attended_iff.mpr (.inr (.inl (marked.busy other apart here)))
  next => exact attended_iff.mpr (.inr (.inr (.inl (marked.paused ▸ here))))
  next => exact waits here
  next => exact attended_iff.mpr (.inr (.inr (.inr (.inr (marked.due here)))))

theorem tight (marked : Marked world next id mark) (consistent : world.Consistent agentOf chatTask)
    (own : ∀ row, world.tasks.get id = some row → ordinary row.kind = true →
      mark.status = .inProgress → Redrive.attended chatTask next id = true)
    (waits : ∀ other row, other ≠ id → world.tasks.get other = some row →
      ordinary row.kind = true → row.status = .inProgress →
        waiting chatTask world.tasks other = true → Redrive.attended chatTask next other = true) :
    ∀ other, loose chatTask next other = false := by
  intro other
  rw [loose_eq_false, marked.tasks]
  intro row found kind status
  rw [Tasks.get_mark] at found
  obtain ⟨old, stored, rfl⟩ := Option.map_eq_some_iff.mp found
  by_cases same : other = id
  next =>
    subst same
    simp only [if_true, Tasks.apply_kind, Mark.apply_status] at kind status
    exact own old stored kind status
  next =>
    simp only [same, if_false] at kind status
    have before := loose_eq_false.mp (consistent.tight other) old stored kind status
    exact marked.attended same before (waits other old same stored kind status)

theorem tight_live (marked : Marked world next id mark)
    (consistent : world.Consistent agentOf chatTask) (live : mark.status.isTerminal = false)
    (own : ∀ row, world.tasks.get id = some row → ordinary row.kind = true →
      mark.status = .inProgress → Redrive.attended chatTask next id = true) :
    ∀ other, loose chatTask next other = false := by
  refine marked.tight consistent own fun other _ _ _ _ _ waits => ?_
  refine attended_iff.mpr (.inr (.inr (.inr (.inl ?_))))
  rw [marked.tasks]
  exact waiting_mark_live live waits

theorem waits_or_parent (marked : Marked world next id mark) {other : Text}
    (distinct : world.tasks.ids.Nodup) (waits : waiting chatTask world.tasks other = true) :
    waiting chatTask next.tasks other = true ∨
      ∃ row, world.tasks.get id = some row ∧ parentOf chatTask row.kind = some other := by
  rw [marked.tasks]
  cases found : world.tasks.get id with
  | none =>
      left
      obtain ⟨entry, member, running, waited⟩ := waiting_iff.mp waits
      refine waiting_mark.mpr ⟨entry, member, ?_, waited⟩
      split
      next same =>
        have here := Tasks.get_of_mem distinct member
        simp [same, found] at here
      next => exact running
  | some row =>
      by_cases parent : parentOf chatTask row.kind = some other
      next => exact .inr ⟨row, rfl, parent⟩
      next => exact .inl (waiting_mark_other distinct found parent waits)

theorem tight_ended (marked : Marked world next id mark)
    (consistent : world.Consistent agentOf chatTask) (ends : mark.status.isTerminal = true)
    (seen : world.tasks.resumes id = true ∧ id ∈ next.ending ∨
      sparesParent chatTask world id = true) :
    ∀ other, loose chatTask next other = false := by
  refine marked.tight consistent (fun row _ _ status => ?_) fun other row apart stored kind status
    waits => ?_
  · simp [status, TaskStatus.isTerminal] at ends
  · obtain stays | ⟨child, found, parent⟩ := marked.waits_or_parent consistent.distinct waits
    next => exact attended_iff.mpr (.inr (.inr (.inr (.inl stays))))
    next =>
      obtain ⟨resumes, ending⟩ | spares := seen
      next =>
        refine attended_iff.mpr (.inr (.inr (.inr (.inr (due_iff.mpr ⟨id, ending, ?_⟩)))))
        rw [marked.tasks, asksFor_mark, asksFor_of_resumes resumes found, parent]
      next =>
        simp only [sparesParent, found, parent, Option.all_some, apart, decide_false,
          Bool.false_or, Bool.not_eq_true'] at spares
        have after := loose_eq_false.mp spares row (by simp [Tasks.get_mark, stored, apart]) kind
          status
        obtain here | here | here | here | here := attended_iff.mp after
        next => exact attended_iff.mpr (.inl (marked.asked ▸ here))
        next => exact attended_iff.mpr (.inr (.inl (marked.busy other apart here)))
        next => exact attended_iff.mpr (.inr (.inr (.inl (marked.paused ▸ here))))
        next =>
          refine attended_iff.mpr (.inr (.inr (.inr (.inl ?_))))
          rwa [marked.tasks, waiting_mark_congr ends (rfl : Mark.cancelled.status.isTerminal = true)]
        next =>
          obtain ⟨asker, member, asks⟩ := due_iff.mp here
          refine attended_iff.mpr (.inr (.inr (.inr (.inr (marked.due (due_iff.mpr
            ⟨asker, member, ?_⟩))))))
          simpa using asks

end Marked

theorem consistent_begin {id : Text} (consistent : world.Consistent agentOf chatTask)
    (member : id ∈ world.checked) : (world.begin id).Consistent agentOf chatTask := by
  obtain ⟨keys, present⟩ := keys_perm (held_begin member) consistent.keys consistent.present
  refine ⟨by simpa [World.begin] using consistent.distinct, keys, present, ?_⟩
  have marked : Marked world (world.begin id) id (.inProgress none) := by
    refine ⟨rfl, rfl, fun other apart => ?_, rfl, List.Subset.refl _⟩
    simp [World.busy, World.begin, List.mem_erase_of_ne apart, apart]
  refine marked.tight_live consistent rfl fun _ _ _ _ => ?_
  exact attended_iff.mpr (.inr (.inl (by simp [World.busy, World.begin])))

theorem consistent_stop {id : Text} {outcome : Outcome}
    (consistent : world.Consistent agentOf chatTask) (member : id ∈ world.running)
    (calm : (Event.stop id outcome).calm agentOf chatTask maxConcurrentTasks world = true) :
    (world.stop id outcome).Consistent agentOf chatTask := by
  obtain ⟨keys, present⟩ := keys_perm (held_stop member) consistent.keys consistent.present
  have distinct : ∀ mark, (world.tasks.mark id mark).ids.Nodup := by
    intro mark
    simpa using consistent.distinct
  have busy : ∀ other ≠ id, other ∈ world.busy →
      other ∈ world.entered ++ world.checked ++ world.running.erase id := by
    intro other apart
    simp [World.busy, List.mem_erase_of_ne apart]
  have finished : ∀ (mark : Mark) (next : World), mark.status.isTerminal = true →
      Marked world next id mark → id ∈ next.ending →
        (world.tasks.resumes id || sparesParent chatTask world id) = true →
          ∀ other, loose chatTask next other = false := by
    intro mark next ends marked ending seen
    exact marked.tight_ended consistent ends
      ((Bool.or_eq_true_iff.mp seen).imp_left fun resumes => ⟨resumes, ending⟩)
  cases outcome with
  | completed summary =>
      exact ⟨distinct _, keys, present, finished (.completed summary) _ rfl
        ⟨rfl, rfl, busy, rfl, List.subset_cons_self _ _⟩ (List.mem_cons_self ..) calm⟩
  | failed error =>
      exact ⟨distinct _, keys, present, finished (.failed error) _ rfl
        ⟨rfl, rfl, busy, rfl, List.subset_cons_self _ _⟩ (List.mem_cons_self ..) calm⟩
  | cancelled =>
      have marked : Marked world (world.stop id .cancelled) id .cancelled :=
        ⟨rfl, rfl, busy, rfl, List.Subset.refl _⟩
      exact ⟨distinct _, keys, present, marked.tight_ended consistent rfl (.inr calm)⟩
  | deferred runAt =>
      have marked : Marked world (world.stop id (.deferred runAt)) id (.deferred runAt) :=
        ⟨rfl, rfl, busy, rfl, List.Subset.refl _⟩
      refine ⟨distinct _, keys, present, marked.tight_live consistent rfl fun _ _ _ status => ?_⟩
      cases status
  | paused =>
      refine ⟨consistent.distinct, keys, present, ?_⟩
      refine tight_mono consistent.tight rfl fun other before => ?_
      by_cases same : other = id
      next => exact attended_iff.mpr (.inr (.inr (.inl (by simp [World.stop, same]))))
      next =>
        exact attended_mono before (fun here => here) (busy other same)
          (fun here => .inl (List.mem_cons_of_mem _ here)) (fun waits => waits) (fun ends => ends)
  | ignored =>
      refine ⟨consistent.distinct, keys, present, ?_⟩
      intro other
      by_cases same : other = id
      next =>
        have quiet : loose chatTask { world with running := world.running.erase id } id = false := by
          simpa only [Event.calm, Bool.not_eq_true'] using calm
        rw [same]
        exact quiet
      next =>
        rw [loose_eq_false]
        intro row found kind status
        have before := loose_eq_false.mp (consistent.tight other) row found kind status
        exact attended_mono before (fun here => here) (busy other same) .inl (fun waits => waits)
          (fun ends => ends)

theorem consistent_write {id : Text} {mark : Mark} (consistent : world.Consistent agentOf chatTask)
    (may : mayWrite world.tasks id mark = true)
    (calm : (Event.write id mark).calm agentOf chatTask maxConcurrentTasks world = true) :
    World.Consistent agentOf chatTask { world with tasks := world.tasks.mark id mark } := by
  refine ⟨by simpa using consistent.distinct, consistent.keys, consistent.present, ?_⟩
  have marked : Marked world { world with tasks := world.tasks.mark id mark } id mark :=
    ⟨rfl, rfl, fun _ _ here => here, rfl, List.Subset.refl _⟩
  cases ends : mark.status.isTerminal with
  | true =>
      refine marked.tight_ended consistent ends (.inr ?_)
      simpa [Event.calm, ends] using calm
  | false =>
      refine marked.tight_live consistent ends fun row found kind status => ?_
      -- Only a signal is marked so, and none of them executes through `run_task`.
      simp only [mayWrite, found, Option.any_some, Bool.or_eq_true, decide_eq_true_eq] at may
      rcases may with cancelled | signal
      next =>
        rw [cancelled] at status
        cases status
      next =>
        cases form : row.kind <;> simp_all [ordinary, TaskKind.isSignal]

theorem consistent_finish {id : Text} {mark : Mark} (consistent : world.Consistent agentOf chatTask)
    (finishes : mark.status.isFinished = true)
    (calm : (Event.finish id mark).calm agentOf chatTask maxConcurrentTasks world = true) :
    World.Consistent agentOf chatTask
      { world with tasks := world.tasks.mark id mark, ending := id :: world.ending } := by
  refine ⟨by simpa using consistent.distinct, consistent.keys, consistent.present, ?_⟩
  have marked : Marked world
      { world with tasks := world.tasks.mark id mark, ending := id :: world.ending } id mark :=
    ⟨rfl, rfl, fun _ _ here => here, rfl, List.subset_cons_self _ _⟩
  exact marked.tight_ended consistent (TaskStatus.isTerminal_of_isFinished finishes)
    ((Bool.or_eq_true_iff.mp calm).imp_left fun resumes => ⟨resumes, List.mem_cons_self ..⟩)

theorem attended_of_query {id other : Text} (templates : templatesOver world.tasks id = true)
    (asks : asksFor chatTask world.tasks id = some other) (known : other ∈ world.tasks.ids) :
    other ∈ (resumed chatTask world.tasks id).toList ∨
      waiting chatTask world.tasks other = true := by
  cases found : world.tasks.get id with
  | none => simp [asksFor, found] at asks
  | some row =>
      by_cases done : ∀ entry ∈ world.tasks,
          entry.2.kind.sourceChatId = row.kind.sourceChatId → entry.2.status.isTerminal = true
      next =>
        left
        simp only [resumed, found]
        rw [if_pos done, asks]
        simp [known]
      next =>
        right
        simp only [not_forall, Bool.not_eq_true] at done
        obtain ⟨entry, member, chat, running⟩ := done
        have parent : parentOf chatTask row.kind = some other := by
          simp only [asksFor, found] at asks
          split at asks
          next => exact asks
          next => cases asks
        have plain : entry.2.kind.isCron = false := by
          cases cron : entry.2.kind.isCron with
          | false => rfl
          | true =>
              simp only [templatesOver, found, Option.all_some, List.all_eq_true] at templates
              have terminal := templates entry member
              simp [cron, chat, running] at terminal
        refine waiting_iff.mpr ⟨entry, member, running, plain, ?_⟩
        rw [← parent, parentOf, parentOf, chat]

theorem consistent_query {id : Text} (consistent : world.Consistent agentOf chatTask)
    (calm : (Event.query id).calm agentOf chatTask maxConcurrentTasks world = true) :
    World.Consistent agentOf chatTask
      { world with
        ending := world.ending.erase id
        asked := (resumed chatTask world.tasks id).toList ++ world.asked } := by
  refine ⟨consistent.distinct, consistent.keys, consistent.present, fun other => ?_⟩
  rw [loose_eq_false]
  intro row found kind status
  have found : world.tasks.get other = some row := found
  have before := loose_eq_false.mp (consistent.tight other) row found kind status
  have asked : ∀ name ∈ world.asked,
      name ∈ (resumed chatTask world.tasks id).toList ++ world.asked :=
    fun name here => List.mem_append_right _ here
  by_cases asks : asksFor chatTask world.tasks id = some other
  next =>
    rcases Bool.or_eq_true_iff.mp calm with templates | spares
    next =>
      obtain called | waits := attended_of_query templates asks (Tasks.mem_ids_of_get found)
      next => exact attended_iff.mpr (.inl (List.mem_append_left _ called))
      next => exact attended_iff.mpr (.inr (.inr (.inr (.inl waits))))
    next =>
      simp only [sparesAsked, asks, Option.all_some, Bool.not_eq_true'] at spares
      have after := loose_eq_false.mp spares row found kind status
      exact attended_mono after (asked other) (fun here => here) .inl (fun waits => waits)
        (fun ends => ends)
  next =>
    refine attended_mono before (asked other) (fun here => here) .inl (fun waits => waits) ?_
    intro ends
    obtain ⟨child, member, own⟩ := due_iff.mp ends
    refine due_iff.mpr ⟨child, (List.mem_erase_of_ne ?_).mpr member, own⟩
    rintro rfl
    exact asks own

theorem consistent_drop {id : Text} (consistent : world.Consistent agentOf chatTask)
    (member : id ∈ world.closing) :
    World.Consistent agentOf chatTask
      { world with
        closing := world.closing.erase id
        active := world.active.remove (key agentOf id) } := by
  have moved : (id :: (world.busy ++ world.closing.erase id)).Perm world.held :=
    List.perm_middle.symm.trans ((List.perm_cons_erase member).symm.append_left world.busy)
  obtain ⟨keys, present⟩ := keys_perm moved consistent.keys consistent.present
  simp only [List.map_cons, List.nodup_cons] at keys
  refine ⟨consistent.distinct, keys.2, ?_, ?_⟩
  · intro other held
    have apart : key agentOf other ≠ key agentOf id := by
      intro same
      exact keys.1 (List.mem_map.mpr ⟨other, held, same⟩)
    rw [ActiveTasks.keys_remove]
    simp [present other (List.mem_cons_of_mem _ held), apart]
  · exact tight_mono consistent.tight rfl fun _ before => before

theorem asksFor_append {tasks : Tasks} {entry : Text × Row} {child id : Text}
    (asks : asksFor chatTask tasks child = some id) :
    asksFor chatTask (tasks ++ [entry]) child = some id := by
  unfold asksFor at asks ⊢
  cases found : tasks.get child with
  | none => simp [found] at asks
  | some row =>
      rw [Tasks.get_append (Tasks.mem_ids_of_get found), found]
      simp only [found] at asks ⊢
      split at asks
      next requests => rw [if_pos (Tasks.requestsResume_of_append requests), asks]
      next => cases asks

theorem consistent_create {id : Text} {kind : TaskKind} {runAt : Option Nat}
    (consistent : world.Consistent agentOf chatTask) (fresh : id ∉ world.tasks.ids) :
    World.Consistent agentOf chatTask
      { world with tasks := world.tasks ++ [(id, Row.created kind runAt)] } := by
  refine ⟨?_, consistent.keys, consistent.present, ?_⟩
  · have apart : ∀ other ∈ world.tasks.ids, other ≠ id := by
      rintro other member rfl
      exact fresh member
    have ids : Tasks.ids (world.tasks ++ [(id, Row.created kind runAt)]) =
        world.tasks.ids ++ [id] := by
      simp [Tasks.ids]
    rw [ids, List.nodup_append]
    exact ⟨consistent.distinct, List.nodup_singleton id, by simpa using apart⟩
  · intro other
    rw [loose_eq_false]
    intro row found ordinary status
    by_cases known : other ∈ world.tasks.ids
    next =>
      have found : Tasks.get (world.tasks ++ [(id, Row.created kind runAt)]) other = some row := found
      rw [Tasks.get_append known] at found
      have before := loose_eq_false.mp (consistent.tight other) row found ordinary status
      refine attended_mono before (fun here => here) (fun here => here) .inl ?_ ?_
      · intro waits
        obtain ⟨entry, member, waited⟩ := waiting_iff.mp waits
        exact waiting_iff.mpr ⟨entry, List.mem_append_left _ member, waited⟩
      · intro ends
        obtain ⟨child, member, asks⟩ := due_iff.mp ends
        exact due_iff.mpr ⟨child, member, asksFor_append asks⟩
    next =>
      -- The new task is Pending.
      have stored := Tasks.mem_of_get found
      rcases List.mem_append.mp stored with old | new
      next => exact absurd (List.mem_map_of_mem old) known
      next =>
        simp only [List.mem_singleton, Prod.mk.injEq] at new
        simp [new.2, Row.created] at status

theorem consistent_step (event : Event) (consistent : world.Consistent agentOf chatTask)
    (calm : event.calm agentOf chatTask maxConcurrentTasks world = true)
    (taken : step agentOf chatTask maxConcurrentTasks event world = some next) :
    next.Consistent agentOf chatTask := by
  cases event with
  | ask id =>
      simp only [step, Option.ite_none_right_eq_some, Option.some.injEq] at taken
      obtain ⟨-, rfl⟩ := taken
      refine ⟨consistent.distinct, consistent.keys, consistent.present, ?_⟩
      exact tight_mono consistent.tight rfl fun _ before => attended_mono before
        (List.mem_cons_of_mem _) (fun here => here) .inl (fun waits => waits) (fun ends => ends)
  | enter id agent =>
      simp only [step, Option.ite_none_right_eq_some, Option.some.injEq] at taken
      obtain ⟨-, rfl⟩ := taken
      exact consistent_enter consistent calm
  | check id =>
      simp only [step, Option.ite_none_right_eq_some, Option.some.injEq] at taken
      obtain ⟨member, rfl⟩ := taken
      exact consistent_check consistent member
  | begin id =>
      simp only [step, Option.ite_none_right_eq_some, Option.some.injEq] at taken
      obtain ⟨member, rfl⟩ := taken
      exact consistent_begin consistent member
  | stop id outcome =>
      simp only [step, Option.ite_none_right_eq_some, Option.some.injEq] at taken
      obtain ⟨member, rfl⟩ := taken
      exact consistent_stop consistent member calm
  | write id mark =>
      simp only [step, Option.ite_none_right_eq_some, Option.some.injEq] at taken
      obtain ⟨may, rfl⟩ := taken
      exact consistent_write consistent may calm
  | finish id mark =>
      simp only [step, Option.ite_none_right_eq_some, Option.some.injEq] at taken
      obtain ⟨⟨-, finishes⟩, rfl⟩ := taken
      exact consistent_finish consistent finishes calm
  | query id =>
      simp only [step, Option.ite_none_right_eq_some, Option.some.injEq] at taken
      obtain ⟨-, rfl⟩ := taken
      exact consistent_query consistent calm
  | drop id =>
      simp only [step, Option.ite_none_right_eq_some, Option.some.injEq] at taken
      obtain ⟨member, rfl⟩ := taken
      exact consistent_drop consistent member
  | resolve id =>
      simp only [step, Option.ite_none_right_eq_some, Option.some.injEq] at taken
      obtain ⟨-, rfl⟩ := taken
      refine ⟨consistent.distinct, consistent.keys, consistent.present, ?_⟩
      refine tight_mono consistent.tight rfl fun other before => attended_mono before
        (List.mem_cons_of_mem _) (fun here => here) ?_ (fun waits => waits) (fun ends => ends)
      intro here
      cases mem_erase_or here with
      | inl stays => exact .inl stays
      | inr same => exact .inr (by simp [same])
  | poll =>
      obtain rfl := Option.some.inj taken
      refine ⟨consistent.distinct, consistent.keys, consistent.present, ?_⟩
      exact tight_mono consistent.tight rfl fun _ before => attended_mono before
        (fun here => List.mem_append_right _ (List.mem_append_right _ here)) (fun here => here)
        .inl (fun waits => waits) (fun ends => ends)
  | create id kind runAt =>
      simp only [step, Option.ite_none_right_eq_some, Option.some.injEq] at taken
      obtain ⟨fresh, rfl⟩ := taken
      exact consistent_create consistent fresh
  | tick seconds =>
      obtain rfl := Option.some.inj taken
      exact ⟨consistent.distinct, consistent.keys, consistent.present,
        tight_mono consistent.tight rfl fun _ before => before⟩

theorem consistent_restart {tasks : Tasks} {paused : List Text} {now : Nat}
    (distinct : tasks.ids.Nodup) (restartable : Restartable chatTask tasks paused now) :
    (restart tasks paused now).Consistent agentOf chatTask := by
  refine ⟨?_, List.nodup_nil, by simp [World.held, World.busy, restart], ?_⟩
  · simpa [restart, sweep, Tasks.ids, Function.comp_def] using distinct
  · intro id
    rw [loose_eq_false]
    intro row found kind status
    have found : Tasks.get (sweep tasks) id = some row := found
    rw [sweep, Tasks.get_map] at found
    obtain ⟨old, stored, rfl⟩ := Option.map_eq_some_iff.mp found
    have kept : orphaned old = false := by
      cases orphan : orphaned old with
      | false => rfl
      | true => simp [sweepRow, orphan, Mark.status] at status
    have same : sweepRow old = old := by simp [sweepRow, kept]
    rw [same] at kind status
    have member := Tasks.mem_of_get stored
    obtain orphan | runnable | waits | ⟨child, here, running, plain, run, parent⟩ :=
      restartable (id, old) member kind status
    next => simp [orphan] at kept
    next =>
      have plain : old.kind.isCron = false := by
        cases form : old.kind <;> simp_all [ordinary, TaskKind.isCron]
      refine attended_iff.mpr (.inl (List.mem_map.mpr ⟨(id, old), List.mem_filter.mpr ⟨?_, ?_⟩, rfl⟩))
      · exact List.mem_map.mpr ⟨(id, old), member, by rw [same]⟩
      · simp only [status, plain, runnable]
        decide
    next => exact attended_iff.mpr (.inr (.inr (.inl waits)))
    next =>
      have stays : sweepRow child.2 = child.2 := by simp [sweepRow, run]
      exact attended_iff.mpr (.inr (.inr (.inr (.inl (waiting_iff.mpr
        ⟨child, List.mem_map.mpr ⟨child, here, by rw [stays]⟩, running, plain, parent⟩)))))

end Steps

section Runs

def stored (status : TaskStatus) : Row := { Row.created (.direct none) none with status }

def interrupted : Tasks := [(['a'], stored .inProgress), (['b'], stored .inProgress)]

-- One agent has all of the tasks, and no chat belongs to a task.
def agent (_ : Text) : Text := "agent".toList

def noTask (_ : Text) : Option Text := none

def resumedRun : List Event :=
  [.enter ['a'] none, .check ['a'], .begin ['a'], .enter ['b'] none, .check ['b'], .begin ['b'],
    .stop ['a'] .paused, .drop ['a'], .stop ['b'] (.deferred 5), .drop ['b'], .resolve ['a'],
    .enter ['a'] none, .check ['a'], .begin ['a'], .tick 5, .poll, .enter ['b'] none, .check ['b'],
    .begin ['b'], .stop ['b'] (.completed none), .query ['b'], .drop ['b']]

end Runs

end Redrive

end Frona.Task
