import Frona.Machine.Lists
import Frona.Task.Siblings

set_option autoImplicit false

namespace Frona.Task

open Utf8 (Text)

namespace Tasks

variable {tasks : Tasks}

theorem mem_mark {id : Text} {mark : Mark} {entry : Text × Row} :
    entry ∈ tasks.mark id mark ↔ ∃ old ∈ tasks, old.1 = entry.1 ∧
      entry.2 = if entry.1 = id then mark.apply old.2 else old.2 := by
  simp only [Tasks.mark, List.mem_map]
  constructor
  next =>
    rintro ⟨old, member, rfl⟩
    exact ⟨old, member, rfl, rfl⟩
  next =>
    rintro ⟨old, member, same, row⟩
    refine ⟨old, member, Prod.ext same ?_⟩
    rw [row, same]

@[simp] theorem ids_mark (id : Text) (mark : Mark) : (tasks.mark id mark).ids = tasks.ids := by
  simp [Tasks.mark, Tasks.ids]

theorem apply_kind (mark : Mark) (row : Row) : (mark.apply row).kind = row.kind := by
  cases mark <;> rfl

theorem kind_mark (id other : Text) (mark : Mark) :
    ((tasks.mark id mark).get other).map Row.kind = (tasks.get other).map Row.kind := by
  simp only [Tasks.get, Tasks.mark, List.find?_map, Option.map_map]
  cases found : tasks.find? (fun entry => entry.1 = other) with
  | none => simp [Function.comp_def, found]
  | some entry =>
      by_cases same : entry.1 = id
      next => simp [Function.comp_def, found, same, apply_kind]
      next => simp [Function.comp_def, found, same]

@[simp] theorem requestsResume_mark (id : Text) (mark : Mark) (kind : TaskKind) :
    (tasks.mark id mark).requestsResume kind = tasks.requestsResume kind := by
  unfold requestsResume
  split <;> simp [kind_mark]

theorem resumes_eq (id : Text) : tasks.resumes id =
    match (tasks.get id).map Row.kind with
    | none => false
    | some kind => tasks.requestsResume kind := by
  unfold resumes
  cases tasks.get id <;> rfl

@[simp] theorem resumes_mark (id other : Text) (mark : Mark) :
    (tasks.mark id mark).resumes other = tasks.resumes other := by
  simp [resumes_eq, kind_mark]

theorem get_append {id : Text} (present : id ∈ tasks.ids) (entry : Text × Row) :
    Tasks.get (tasks ++ [entry]) id = tasks.get id := by
  obtain ⟨old, member, same⟩ := List.mem_map.mp present
  have found : (tasks.find? (fun entry => entry.1 = id)).isSome = true := by
    rw [List.find?_isSome]
    exact ⟨old, member, by simpa using same⟩
  obtain ⟨first, here⟩ := Option.isSome_iff_exists.mp found
  simp [Tasks.get, List.find?_append, here]

theorem requestsResume_append (entry : Text × Row) (kind : TaskKind)
    (template : ∀ id ∈ kind.template, id ∈ tasks.ids) :
    Tasks.requestsResume (tasks ++ [entry]) kind = tasks.requestsResume kind := by
  unfold requestsResume
  split
  next => rfl
  next => rfl
  next sourceCronId _ =>
    rw [get_append (template sourceCronId (by simp [TaskKind.template]))]
  all_goals rfl

theorem get_of_mem (distinct : tasks.ids.Nodup) {entry : Text × Row} (member : entry ∈ tasks) :
    tasks.get entry.1 = some entry.2 := by
  simp [Tasks.get, Machine.find_key Prod.fst distinct entry member]

theorem mem_of_get {id : Text} {row : Row} (found : tasks.get id = some row) : (id, row) ∈ tasks := by
  obtain ⟨entry, here, rfl⟩ := Option.map_eq_some_iff.mp found
  have named : entry.1 = id := by simpa using List.find?_some here
  rw [← named]
  exact List.mem_of_find?_eq_some here

theorem mem_ids_of_get {id : Text} {row : Row} (found : tasks.get id = some row) : id ∈ tasks.ids :=
  List.mem_map_of_mem (mem_of_get found)

theorem mem_finished {id : Text} :
    id ∈ tasks.finished ↔ ∃ row, (id, row) ∈ tasks ∧ row.status.isFinished = true := by
  simp [Tasks.finished]

end Tasks

theorem TaskStatus.isTerminal_of_isFinished {status : TaskStatus}
    (finished : status.isFinished = true) : status.isTerminal = true := by
  cases status <;> first | rfl | cases finished

namespace Siblings

section Parent

variable (chat : Text) (parent : Parent) (maxConcurrentTasks : Nat)

def SettledBut (id : Text) (tasks : Tasks) : Prop :=
  ∀ entry ∈ tasks, entry.1 ≠ id → entry.2.kind.isCron = false → entry.2.status.isTerminal = true

instance (id : Text) (tasks : Tasks) : Decidable (SettledBut id tasks) :=
  inferInstanceAs (Decidable (∀ entry ∈ tasks, entry.1 ≠ id → entry.2.kind.isCron = false →
    entry.2.status.isTerminal = true))

def CalmWrite (id : Text) (mark : Mark) (siblings : Siblings) : Prop :=
  (∀ entry ∈ siblings.tasks, entry.1 = id → entry.2.status.isTerminal = true →
    entry.2.status = .cancelled ∧ mark.status = .cancelled) ∧
  (mark.status = .cancelled → siblings.endings = [] → SettledBut id siblings.tasks →
    siblings.Covered)

def CalmStop (id : Text) (siblings : Siblings) : Prop :=
  (∀ entry ∈ siblings.tasks, entry.1 = id → entry.2.status.isTerminal = false) ∧
  (siblings.endings = [] → SettledBut id siblings.tasks →
    siblings.tasks.resumes id = false ∧ siblings.Covered)

def CalmCheck (index : Nat) (siblings : Siblings) : Prop :=
  ∀ ending ∈ siblings.endings[index]?, ending.Silent siblings.tasks →
    siblings.endings.length = 1 → Settled siblings.tasks → siblings.Covered

def CalmQuery (siblings : Siblings) : Prop :=
  siblings.endings.length = 1 → Settled siblings.tasks → siblings.tasks.allDone = true

def CalmResume (index : Nat) (agent : Option Agent) (active : ActiveTasks)
    (siblings : Siblings) : Prop :=
  (admitted parent maxConcurrentTasks agent active = true →
    ∀ ending ∈ siblings.endings.eraseIdx index, ending.Silent siblings.tasks) ∧
  (siblings.endings.length = 1 → Settled siblings.tasks →
    admitted parent maxConcurrentTasks agent active = true)

def Calm : Event → Siblings → Prop
  | .write id mark, siblings => CalmWrite id mark siblings
  | .stop id _, siblings => CalmStop id siblings
  | .restart, siblings => siblings.endings = []
  | .check index, siblings => CalmCheck index siblings
  | .query _, siblings => CalmQuery siblings
  | .resume index agent active, siblings =>
      CalmResume parent maxConcurrentTasks index agent active siblings
  | .delegate .., _ | .deliver _, _ => True

instance (id : Text) (mark : Mark) (siblings : Siblings) : Decidable (CalmWrite id mark siblings) :=
  inferInstanceAs (Decidable (_ ∧ _))

instance (id : Text) (siblings : Siblings) : Decidable (CalmStop id siblings) :=
  inferInstanceAs (Decidable (_ ∧ (_ → _ → _)))

instance (index : Nat) (siblings : Siblings) : Decidable (CalmCheck index siblings) :=
  inferInstanceAs (Decidable (∀ ending ∈ siblings.endings[index]?, _ → _ → _ → _))

instance (siblings : Siblings) : Decidable siblings.CalmQuery :=
  inferInstanceAs (Decidable (_ → _ → _))

instance (index : Nat) (agent : Option Agent) (active : ActiveTasks) (siblings : Siblings) :
    Decidable (CalmResume parent maxConcurrentTasks index agent active siblings) :=
  inferInstanceAs (Decidable (_ ∧ _))

instance : DecidableRel (Calm parent maxConcurrentTasks)
  | .write id mark, siblings => inferInstanceAs (Decidable (CalmWrite id mark siblings))
  | .stop id _, siblings => inferInstanceAs (Decidable (CalmStop id siblings))
  | .restart, siblings => inferInstanceAs (Decidable (siblings.endings = []))
  | .check index, siblings => inferInstanceAs (Decidable (CalmCheck index siblings))
  | .query _, siblings => inferInstanceAs (Decidable siblings.CalmQuery)
  | .resume index agent active, siblings => inferInstanceAs
      (Decidable (CalmResume parent maxConcurrentTasks index agent active siblings))
  | .delegate .., _ | .deliver _, _ => isTrue trivial

structure Consistent (siblings : Siblings) : Prop where
  distinct : siblings.tasks.ids.Nodup
  templates : ∀ entry ∈ siblings.tasks, ∀ id ∈ entry.2.kind.template, id ∈ siblings.tasks.ids
  due : Settled siblings.tasks → siblings.endings = [] → siblings.Covered
  ended : ∀ ending ∈ siblings.endings, ∃ row, (ending.id, row) ∈ siblings.tasks ∧
    row.status.isFinished = true
  fresh : ∀ ending ∈ siblings.endings, ending.Silent siblings.tasks ∨
    ∀ resume ∈ siblings.resumed, ending.id ∉ resume.finished
  past : ∀ resume ∈ siblings.resumed, ∀ id ∈ resume.finished,
    ∃ row, (id, row) ∈ siblings.tasks ∧ row.status.isTerminal = true
  pending : ∀ entry ∈ siblings.tasks, entry.2.status.isFinished = true →
    entry.1 ∈ siblings.delivered ∨ entry.1 ∈ siblings.stopped ∨
      .delivering entry.1 ∈ siblings.endings
  delivered : ∀ resume ∈ siblings.resumed, resume.undelivered = []
  once : siblings.resumed.Pairwise (fun later earlier =>
    ¬ ∀ id, id ∈ later.finished ↔ id ∈ earlier.finished)

theorem consistent_start : start.Consistent := by
  constructor <;> simp [start, Tasks.ids, Covered]

variable {chat parent maxConcurrentTasks} {siblings : Siblings}

theorem mem_ids {tasks : Tasks} {entry : Text × Row} (member : entry ∈ tasks) :
    entry.1 ∈ tasks.ids := List.mem_map_of_mem member

theorem consistent_delegate {id : Text} {kind : TaskKind} (consistent : siblings.Consistent)
    (may : mayDelegate chat siblings id kind) :
    Consistent { siblings with tasks := siblings.tasks ++ [(id, Row.created kind none)] } := by
  obtain ⟨_, new, template⟩ := may
  have split : ∀ {entry : Text × Row}, entry ∈ siblings.tasks ++ [(id, Row.created kind none)] →
      entry ∈ siblings.tasks ∨ entry = (id, Row.created kind none) := by
    intro entry member
    simpa using member
  have silent : ∀ ending ∈ siblings.endings, ending.Silent siblings.tasks →
      ending.Silent (siblings.tasks ++ [(id, Row.created kind none)]) := by
    intro ending among quiet
    obtain ⟨row, member, _⟩ := consistent.ended ending among
    cases ending with
    | checking other =>
        have still := Tasks.requestsResume_append (id, Row.created kind none) row.kind
          (consistent.templates _ member)
        have here := Tasks.get_of_mem consistent.distinct member
        simp only [Finishing.id] at here
        simp only [Finishing.Silent, Tasks.resumes, here] at quiet ⊢
        have found : Tasks.get (siblings.tasks ++ [(id, Row.created kind none)]) other = some row :=
          (Tasks.get_append (mem_ids member) (id, Row.created kind none)).trans here
        simp only [found]
        exact still.trans quiet
    | _ => exact quiet
  refine ⟨?_, ?_, fun settled none' => ?_, fun ending among => ?_, fun ending among => ?_,
    fun resume among other member => ?_, fun entry member finished => ?_, consistent.delivered,
    consistent.once⟩
  · simp only [Tasks.ids, List.map_append, List.map_cons, List.map_nil]
    exact Machine.nodup_snoc.mpr ⟨consistent.distinct, new⟩
  · intro entry member other from'
    simp only [Tasks.ids, List.map_append, List.mem_append]
    rcases split member with old | rfl
    · exact Or.inl (consistent.templates entry old other from')
    · exact Or.inl (template other from')
  · have covered := consistent.due (fun entry member => settled entry (by simp [member])) none'
    intro entry member asks finished
    rcases split member with old | rfl
    · have still := Tasks.requestsResume_append (id, Row.created kind none) entry.2.kind
        (consistent.templates entry old)
      exact covered entry old (still.symm.trans asks) finished
    · cases finished
  · obtain ⟨row, member, finished⟩ := consistent.ended ending among
    exact ⟨row, by simp [member], finished⟩
  · rcases consistent.fresh ending among with quiet | apart
    · exact Or.inl (silent ending among quiet)
    · exact Or.inr apart
  · obtain ⟨row, here, terminal⟩ := consistent.past resume among other member
    exact ⟨row, by simp [here], terminal⟩
  · rcases split member with old | rfl
    · exact consistent.pending entry old finished
    · cases finished

theorem silent_mark (id : Text) (mark : Mark) (tasks : Tasks) (ending : Finishing) :
    ending.Silent (tasks.mark id mark) ↔ ending.Silent tasks := by
  cases ending <;> simp [Finishing.Silent]

theorem consistent_write {id : Text} {mark : Mark} (consistent : siblings.Consistent)
    (present : id ∈ siblings.tasks.ids) (calm : CalmWrite id mark siblings) :
    (siblings.write id mark).Consistent := by
  obtain ⟨keeps, cancels⟩ := calm
  -- A finished child is not the one written to.
  have other : ∀ {name : Text} {row : Row}, (name, row) ∈ siblings.tasks →
      row.status.isFinished = true → name ≠ id := by
    rintro name row member finished rfl
    have terminal := TaskStatus.isTerminal_of_isFinished finished
    rw [(keeps _ member rfl terminal).1] at finished
    cases finished
  have moved : ∀ {name : Text} {row : Row}, (name, row) ∈ siblings.tasks → name ≠ id →
      (name, row) ∈ siblings.tasks.mark id mark := by
    intro name row member different
    exact Tasks.mem_mark.mpr ⟨_, member, rfl, by simp [different]⟩
  have wrote : ∃ row, (id, mark.apply row) ∈ siblings.tasks.mark id mark := by
    obtain ⟨old, member, rfl⟩ := List.mem_map.mp present
    exact ⟨old.2, Tasks.mem_mark.mpr ⟨old, member, rfl, by simp⟩⟩
  have endings : ∀ ending ∈ (siblings.write id mark).endings, ending ∈ siblings.endings ∨
      (ending = .delivering id ∧ mark.status.isFinished = true) := by
    intro ending among
    simp only [write] at among
    split at among
    next finishes =>
      rcases List.mem_append.mp among with before | last
      · exact Or.inl before
      · exact Or.inr ⟨List.mem_singleton.mp last, finishes⟩
    next => exact Or.inl among
  have before : ∀ ending ∈ siblings.endings, ending ∈ (siblings.write id mark).endings := by
    intro ending among
    simp only [write]
    split
    next => exact List.mem_append_left _ among
    next => exact among
  refine ⟨by simpa [write] using consistent.distinct, fun entry member template from' => ?_,
    fun settled none' => ?_, fun ending among => ?_, fun ending among => ?_,
    fun resume among name member => ?_, fun entry member finished => ?_, consistent.delivered,
    consistent.once⟩
  · obtain ⟨old, here, _, row⟩ := Tasks.mem_mark.mp member
    have kind : entry.2.kind = old.2.kind := by
      rw [row]
      split <;> simp [Tasks.apply_kind]
    simpa [write] using consistent.templates old here template (kind ▸ from')
  · have unfinished : mark.status.isFinished = false := by
      cases finishes : mark.status.isFinished with
      | false => rfl
      | true => simp [write, finishes] at none'
    have idle : siblings.endings = [] := by simpa [write, unfinished] using none'
    have rest : SettledBut id siblings.tasks := by
      intro entry member different child
      exact settled _ (moved member different) child
    have covered : siblings.Covered := by
      by_cases terminal : mark.status.isTerminal = true
      next =>
        have cancelled : mark.status = .cancelled := by
          cases status : mark.status <;> simp_all [TaskStatus.isTerminal, TaskStatus.isFinished]
        exact cancels cancelled idle rest
      next =>
        -- What is not terminal now is a template.
        obtain ⟨row, here⟩ := wrote
        refine consistent.due (fun entry member child => ?_) idle
        by_cases same : entry.1 = id
        next =>
          subst same
          have written : (entry.1, mark.apply entry.2) ∈ siblings.tasks.mark entry.1 mark :=
            Tasks.mem_mark.mpr ⟨entry, member, rfl, by simp⟩
          have done := settled _ written (by simpa [Tasks.apply_kind] using child)
          rw [Mark.apply_status] at done
          exact absurd done terminal
        next => exact rest entry member same child
    intro entry member asks finished
    obtain ⟨old, here, same, row⟩ := Tasks.mem_mark.mp member
    by_cases written : entry.1 = id
    next =>
      rw [row, if_pos written, Mark.apply_status, unfinished] at finished
      cases finished
    next =>
      rw [if_neg written] at row
      simp only [write, Tasks.requestsResume_mark, row] at asks
      obtain ⟨resume, among, listed⟩ := covered old here asks (row ▸ finished)
      exact ⟨resume, among, same ▸ listed⟩
  · rcases endings ending among with old | ⟨rfl, finishes⟩
    · obtain ⟨row, member, finished⟩ := consistent.ended ending old
      exact ⟨row, moved member (other member finished), finished⟩
    · obtain ⟨row, here⟩ := wrote
      exact ⟨mark.apply row, here, by rw [Mark.apply_status, finishes]⟩
  · rcases endings ending among with old | ⟨rfl, finishes⟩
    · rcases consistent.fresh ending old with quiet | apart
      · exact Or.inl ((silent_mark id mark siblings.tasks ending).mpr quiet)
      · exact Or.inr apart
    · refine Or.inr fun resume recorded member => ?_
      obtain ⟨row, here, terminal⟩ := consistent.past resume recorded id member
      rw [(keeps _ here rfl terminal).2] at finishes
      cases finishes
  · obtain ⟨row, here, terminal⟩ := consistent.past resume among name member
    by_cases same : name = id
    next =>
      subst same
      refine ⟨mark.apply row, Tasks.mem_mark.mpr ⟨_, here, rfl, by simp⟩, ?_⟩
      rw [Mark.apply_status, (keeps _ here rfl terminal).2]
      rfl
    next => exact ⟨row, moved here same, terminal⟩
  · obtain ⟨old, here, same, row⟩ := Tasks.mem_mark.mp member
    by_cases written : entry.1 = id
    next =>
      rw [row, if_pos written, Mark.apply_status] at finished
      right
      right
      simp [write, finished, written]
    next =>
      rw [if_neg written] at row
      rcases consistent.pending old here (row ▸ finished) with done | quiet | waits
      · exact Or.inl (same ▸ done)
      · exact Or.inr (Or.inl (same ▸ quiet))
      · exact Or.inr (Or.inr (same ▸ before _ waits))

theorem mem_set_of_ne {endings : List Finishing} {index : Nat} {old new ending : Finishing}
    (here : endings[index]? = some old) (member : ending ∈ endings) (different : ending ≠ old) :
    ending ∈ endings.set index new := by
  obtain ⟨place, found⟩ := List.mem_iff_getElem?.mp member
  have apart : index ≠ place := by
    rintro rfl
    exact different (Option.some.inj (found.symm.trans here))
  exact List.mem_iff_getElem?.mpr ⟨place, by rw [List.getElem?_set_ne apart, found]⟩

theorem mem_eraseIdx_of_ne {endings : List Finishing} {index : Nat} {old ending : Finishing}
    (here : endings[index]? = some old) (member : ending ∈ endings) (different : ending ≠ old) :
    ending ∈ endings.eraseIdx index := by
  obtain ⟨place, found⟩ := List.mem_iff_getElem?.mp member
  have apart : place ≠ index := by
    rintro rfl
    exact different (Option.some.inj (found.symm.trans here))
  exact List.mem_eraseIdx_iff_getElem?.mpr ⟨place, apart, found⟩

theorem consistent_advance {index : Nat} {old new : Finishing} {delivered : List Text}
    (consistent : siblings.Consistent) (here : siblings.endings[index]? = some old)
    (same : new.id = old.id) (loud : ¬ old.Silent siblings.tasks)
    (more : ∀ id ∈ siblings.delivered, id ∈ delivered)
    (now : ∀ id, old = .delivering id → id ∈ delivered) :
    Consistent
      { siblings with endings := siblings.endings.set index new, delivered } := by
  have among : old ∈ siblings.endings := List.mem_of_getElem? here
  refine ⟨consistent.distinct, consistent.templates, fun settled none' => ?_,
    fun ending member => ?_, fun ending member => ?_, consistent.past,
    fun entry member finished => ?_, consistent.delivered, consistent.once⟩
  · rw [List.set_eq_nil_iff] at none'
    rw [none'] at among
    cases among
  · rcases List.mem_or_eq_of_mem_set member with before | rfl
    · exact consistent.ended ending before
    · rw [same]
      exact consistent.ended old among
  · rcases List.mem_or_eq_of_mem_set member with before | rfl
    · exact consistent.fresh ending before
    · rw [same]
      exact Or.inr ((consistent.fresh old among).resolve_left loud)
  · rcases consistent.pending entry member finished with done | quiet | waits
    · exact Or.inl (more _ done)
    · exact Or.inr (Or.inl quiet)
    · by_cases this' : Finishing.delivering entry.1 = old
      next => exact Or.inl (now _ this'.symm)
      next => exact Or.inr (Or.inr (mem_set_of_ne here waits this'))

theorem consistent_end {index : Nat} {old : Finishing} {stopped : List Text}
    (consistent : siblings.Consistent) (here : siblings.endings[index]? = some old)
    (more : ∀ id ∈ siblings.stopped, id ∈ stopped)
    (done : ∀ id, old = .delivering id → id ∈ stopped)
    (due : siblings.endings.length = 1 → Settled siblings.tasks → siblings.Covered) :
    Consistent { siblings with endings := siblings.endings.eraseIdx index, stopped } := by
  obtain ⟨inside, _⟩ := List.getElem?_eq_some_iff.mp here
  refine ⟨consistent.distinct, consistent.templates, fun settled none' => ?_,
    fun ending member => consistent.ended ending (List.mem_of_mem_eraseIdx member),
    fun ending member => consistent.fresh ending (List.mem_of_mem_eraseIdx member),
    consistent.past, fun entry member finished => ?_, consistent.delivered, consistent.once⟩
  · have length := congrArg List.length none'
    rw [List.length_eraseIdx, if_pos inside, List.length_nil] at length
    exact due (by omega) settled
  · rcases consistent.pending entry member finished with stored | quiet | waits
    · exact Or.inl stored
    · exact Or.inr (Or.inl (more _ quiet))
    · by_cases this' : Finishing.delivering entry.1 = old
      next => exact Or.inr (Or.inl (done _ this'.symm))
      next => exact Or.inr (Or.inr (mem_eraseIdx_of_ne here waits this'))

theorem consistent_stop {id : Text} {mark : Mark} (consistent : siblings.Consistent)
    (may : mayStop siblings id mark) (calm : CalmStop id siblings) :
    (siblings.stop id mark).Consistent := by
  obtain ⟨finishes, known⟩ := may
  obtain ⟨live, waited⟩ := calm
  have present : id ∈ siblings.tasks.ids := by
    cases found : siblings.tasks.get id with
    | none => simp [found] at known
    | some row => exact Tasks.mem_ids_of_get found
  have written : (siblings.write id mark).Consistent := by
    refine consistent_write consistent present ⟨fun entry member same terminal => ?_, ?_⟩
    · rw [live entry member same] at terminal
      cases terminal
    · intro cancelled
      rw [cancelled] at finishes
      cases finishes
  have endings : (siblings.write id mark).endings = siblings.endings ++ [.delivering id] := by
    simp [write, finishes]
  have done : (siblings.write id mark).endings.eraseIdx siblings.endings.length =
      siblings.endings := by
    simp [endings, List.eraseIdx_append_of_length_le]
  have ended := consistent_end written
    (show (siblings.write id mark).endings[siblings.endings.length]? = some (.delivering id) by
      simp [endings])
    (fun _ member => List.mem_cons_of_mem id member) (by simp) ?_
  · rwa [done] at ended
  · intro alone settled
    have idle : siblings.endings = [] := by simpa [endings] using alone
    have rest : SettledBut id siblings.tasks := by
      intro entry member different child
      refine settled entry (Tasks.mem_mark.mpr ⟨entry, member, rfl, ?_⟩) child
      simp [different]
    obtain ⟨silent, covered⟩ := waited idle rest
    intro entry member asks finished
    obtain ⟨old, here, same, row⟩ := Tasks.mem_mark.mp member
    have kind : entry.2.kind = old.2.kind := by
      rw [row]
      split <;> simp [Tasks.apply_kind]
    simp only [write, Tasks.requestsResume_mark, kind] at asks
    by_cases own : entry.1 = id
    next =>
      -- The one that is stopped does not ask.
      have found := Tasks.get_of_mem consistent.distinct here
      rw [same, own] at found
      have silent : siblings.tasks.requestsResume old.2.kind = false := by
        simpa [Tasks.resumes, found] using silent
      rw [silent] at asks
      cases asks
    next =>
      rw [if_neg own] at row
      obtain ⟨resume, among, listed⟩ := covered old here asks (row ▸ finished)
      exact ⟨resume, among, same ▸ listed⟩

theorem consistent_resume {index : Nat} {id : Text} (consistent : siblings.Consistent)
    (here : siblings.endings[index]? = some (.resuming id))
    (alone : ∀ ending ∈ siblings.endings.eraseIdx index, ending.Silent siblings.tasks) :
    Consistent
      { siblings with
        endings := siblings.endings.eraseIdx index
        resumed := siblings.record :: siblings.resumed } := by
  have among : Finishing.resuming id ∈ siblings.endings := List.mem_of_getElem? here
  have stored : ∀ entry ∈ siblings.tasks, entry.2.status.isFinished = true →
      entry.1 ∈ siblings.delivered ∨ entry.1 ∈ siblings.stopped := by
    intro entry member finished
    rcases consistent.pending entry member finished with done | quiet | waits
    · exact Or.inl done
    · exact Or.inr quiet
    · exact absurd (alone _ (mem_eraseIdx_of_ne here waits (by simp))) (by simp [Finishing.Silent])
  refine ⟨consistent.distinct, consistent.templates, fun _ _ entry member _ finished => ?_,
    fun ending member => consistent.ended ending (List.mem_of_mem_eraseIdx member),
    fun ending member => Or.inl (alone ending member), fun resume recorded name member => ?_,
    fun entry member finished => (stored entry member finished).imp_right Or.inl,
    fun resume recorded => ?_, ?_⟩
  · exact ⟨siblings.record, by simp, Tasks.mem_finished.mpr ⟨entry.2, member, finished⟩⟩
  · rcases List.mem_cons.mp recorded with rfl | before
    · obtain ⟨row, present, finished⟩ := Tasks.mem_finished.mp member
      exact ⟨row, present, TaskStatus.isTerminal_of_isFinished finished⟩
    · exact consistent.past resume before name member
  · rcases List.mem_cons.mp recorded with rfl | before
    · simp only [record, List.filter_eq_nil_iff, decide_eq_true_eq]
      intro name member apart
      obtain ⟨row, present, finished⟩ := Tasks.mem_finished.mp member
      exact (stored _ present finished).elim apart.1 apart.2
    · exact consistent.delivered resume before
  · -- The child that ends is in none of the earlier resumes.
    refine List.pairwise_cons.mpr ⟨fun earlier before same => ?_, consistent.once⟩
    obtain ⟨row, present, finished⟩ := consistent.ended _ among
    have apart := (consistent.fresh _ among).resolve_left (by simp [Finishing.Silent])
    exact apart earlier before
      ((same id).mp (Tasks.mem_finished.mpr ⟨row, present, finished⟩))

theorem consistent_step {event : Event} {next : Siblings} (consistent : siblings.Consistent)
    (calm : Calm parent maxConcurrentTasks event siblings)
    (taken : step chat parent maxConcurrentTasks event siblings = some next) :
    next.Consistent := by
  cases event with
  | delegate id kind =>
      simp only [step] at taken
      split at taken
      next may =>
        cases taken
        exact consistent_delegate consistent may
      next => cases taken
  | write id mark =>
      simp only [step] at taken
      split at taken
      next present =>
        cases taken
        exact consistent_write consistent present calm
      next => cases taken
  | stop id mark =>
      simp only [step] at taken
      split at taken
      next may =>
        cases taken
        exact consistent_stop consistent may calm
      next => cases taken
  | restart =>
      cases taken
      have idle : siblings.endings = [] := calm
      rw [← idle]
      exact consistent
  | deliver index =>
      simp only [step] at taken
      split at taken
      next id here =>
        cases taken
        refine consistent_advance consistent here rfl (by simp [Finishing.Silent]) ?_ ?_
        · intro other member
          exact List.mem_cons_of_mem id member
        · rintro other same
          simp [Finishing.delivering.inj same]
      next => cases taken
  | check index =>
      simp only [step] at taken
      split at taken
      next id here =>
        cases taken
        by_cases asks : siblings.tasks.resumes id = true
        next =>
          rw [if_pos asks]
          exact consistent_advance consistent here rfl (by simp [Finishing.Silent, asks])
            (fun _ member => member) (by simp)
        next =>
          rw [if_neg asks]
          refine consistent_end consistent here (fun _ member => member) (by simp) fun alone settled => ?_
          exact calm (.checking id) (by simp [here]) (by simpa [Finishing.Silent] using asks)
            alone settled
      next => cases taken
  | query index =>
      simp only [step] at taken
      split at taken
      next id here =>
        cases taken
        by_cases done : siblings.tasks.allDone = true
        next =>
          rw [if_pos done]
          exact consistent_advance consistent here rfl (by simp [Finishing.Silent])
            (fun _ member => member) (by simp)
        next =>
          rw [if_neg done]
          refine consistent_end consistent here (fun _ member => member) (by simp) fun alone settled => ?_
          exact absurd (calm alone settled) done
      next => cases taken
  | resume index agent active =>
      simp only [step] at taken
      split at taken
      next id here =>
        cases taken
        by_cases room : admitted parent maxConcurrentTasks agent active = true
        next =>
          rw [if_pos room]
          exact consistent_resume consistent here (calm.1 room)
        next =>
          rw [if_neg room]
          refine consistent_end consistent here (fun _ member => member) (by simp) fun alone settled => ?_
          exact absurd (calm.2 alone settled) room
      next => cases taken

theorem Consistent.sound (consistent : siblings.Consistent) : siblings.Sound where
  resumed := fun idle settled => consistent.due settled idle
  delivered := consistent.delivered
  once := consistent.once

end Parent

-- The child that does not ask ends first, the one that asks last and while it holds a slot.
def twoChildren : List Event :=
  [.delegate ['d'] (.delegation ['c'] true), .delegate ['e'] (.direct (some ['c'])),
    .write ['d'] (.inProgress none), .write ['e'] (.completed none), .deliver 0, .check 0,
    .write ['d'] (.failed []), .deliver 0, .check 0, .query 0,
    .resume 0 none [(activeKey ['a'] ['d'], 0)]]

-- Two children that end together both see the other one done.
example : (Machine.run (step ['c'] .userChat 2)
    [.delegate ['d'] (.delegation ['c'] true), .delegate ['e'] (.delegation ['c'] true),
      .write ['d'] (.completed none), .write ['e'] (.completed none), .deliver 0, .deliver 1,
      .check 0, .check 1, .query 0, .query 1, .resume 0 none [], .resume 0 none []]
    start).map (fun last => last.resumed.map Resume.finished) =
      some [[['d'], ['e']], [['d'], ['e']]] := by
  decide +kernel

end Siblings

end Frona.Task
