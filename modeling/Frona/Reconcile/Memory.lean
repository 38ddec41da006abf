import Frona.Pkm.Store

set_option autoImplicit false

namespace Frona.Reconcile

open Utf8 (Text)
open Pkm (Disposition)

inductive EpisodeStatus where
  | planned | occurred | cancelled | unconfirmed
  deriving DecidableEq

inductive RelationType where
  | replace | duplicate | absorbed
  deriving DecidableEq

-- Every other source of evidence quotes a text.
inductive EvidenceSource where
  | taskLifecycle (taskId : Text)
  | quoted (quote : Text)
  deriving DecidableEq

structure MemoryRelation where
  relation : RelationType
  target : Text
  note : Text
  deriving DecidableEq

structure KnowledgeMemory where
  id : Text
  episode : Option EpisodeStatus
  content : Text
  relations : List MemoryRelation
  disposition : Disposition
  evidence : List EvidenceSource
  deriving DecidableEq

def EvidenceSource.task : EvidenceSource → Option Text
  | .taskLifecycle taskId => some taskId
  | .quoted _ => none

namespace KnowledgeMemory

def tasks (memory : KnowledgeMemory) : List Text := memory.evidence.filterMap EvidenceSource.task

def excluded (memory : KnowledgeMemory) : Bool :=
  memory.disposition = .erroneous ∨ memory.disposition = .suspect

def terminal (memory : KnowledgeMemory) : Bool :=
  memory.episode = some .occurred ∨ memory.episode = some .cancelled

def hasReplace (memory : KnowledgeMemory) : Bool :=
  memory.relations.any fun link => link.relation = .replace

def hasDrop (memory : KnowledgeMemory) : Bool :=
  memory.relations.any fun link => link.relation = .duplicate ∨ link.relation = .absorbed

def survivors (memory : KnowledgeMemory) : List Text :=
  (memory.relations.filter fun link => link.relation ≠ .replace).map MemoryRelation.target

/-- Retired by `Duplicate` or `Absorbed` only. -/
def dropped (memory : KnowledgeMemory) : Bool :=
  memory.disposition = .none && (memory.hasDrop && !memory.hasReplace)

end KnowledgeMemory

def terminalTasks (memories : List KnowledgeMemory) : List Text :=
  (memories.filter fun memory => !memory.excluded && memory.terminal).flatMap KnowledgeMemory.tasks

def terminalTaskPlanIds (memories : List KnowledgeMemory) : List Text :=
  (memories.filter fun memory => memory.episode = some .planned &&
    memory.tasks.any fun task => task ∈ terminalTasks memories).map KnowledgeMemory.id

section Classify

variable (memories : List KnowledgeMemory)

/-- `Outdated` and `Replace` come before `Duplicate` and `Absorbed`. -/
def isHistory (memory : KnowledgeMemory) : Bool :=
  memory.disposition = .outdated ||
    (memory.hasReplace || decide (memory.id ∈ terminalTaskPlanIds memories))

def classifyMemories : List KnowledgeMemory × List KnowledgeMemory :=
  (memories.filter fun memory => !memory.excluded && (!isHistory memories memory && !memory.hasDrop),
    memories.filter fun memory => !memory.excluded && isHistory memories memory)

def isCurrent (memory : KnowledgeMemory) : Bool :=
  memory.relations.isEmpty && (memory.disposition = .none &&
    decide (memory.id ∉ terminalTaskPlanIds memories))

def partitionReconcileMemories : List KnowledgeMemory × List KnowledgeMemory :=
  (memories.filter (isCurrent memories), memories.filter fun memory => !isCurrent memories memory)

def droppedMemoryIds : List Text :=
  (memories.filter KnowledgeMemory.dropped).map KnowledgeMemory.id

end Classify

section Roles

variable {memories : List KnowledgeMemory} {id : Text}

theorem mem_droppedMemoryIds :
    id ∈ droppedMemoryIds memories ↔ ∃ memory ∈ memories, memory.dropped ∧ memory.id = id := by
  simp [droppedMemoryIds, and_assoc]

theorem KnowledgeMemory.dropped_iff (memory : KnowledgeMemory) :
    memory.dropped ↔
      memory.disposition = .none ∧ memory.hasDrop = true ∧ memory.hasReplace = false := by
  simp [dropped]

theorem mem_terminalTasks {task : Text} :
    task ∈ terminalTasks memories ↔
      ∃ ending ∈ memories, (ending.excluded = false ∧ ending.terminal = true) ∧
        task ∈ ending.tasks := by
  simp [terminalTasks, and_assoc]

theorem mem_terminalTaskPlanIds :
    id ∈ terminalTaskPlanIds memories ↔
      ∃ plan ∈ memories, plan.id = id ∧ plan.episode = some .planned ∧
        ∃ ending ∈ memories, ending.excluded = false ∧ ending.terminal = true ∧
          ∃ task ∈ plan.tasks, task ∈ ending.tasks := by
  simp only [terminalTaskPlanIds, List.mem_map, List.mem_filter, List.any_eq_true,
    Bool.and_eq_true, decide_eq_true_eq, mem_terminalTasks]
  constructor
  · intro ⟨plan, ⟨held, planned, task, cited, ending, member, ⟨counted, ended⟩, same⟩, named⟩
    exact ⟨plan, held, named, planned, ending, member, counted, ended, task, cited, same⟩
  · intro ⟨plan, held, named, planned, ending, member, counted, ended, task, cited, same⟩
    exact ⟨plan, ⟨held, planned, task, cited, ending, member, ⟨counted, ended⟩, same⟩, named⟩

theorem dropped_classified (memories : List KnowledgeMemory) {memory : KnowledgeMemory}
    (dropped : memory.dropped) :
    memory ∉ (classifyMemories memories).1 ∧
      (memory ∈ (classifyMemories memories).2 ↔
        memory ∈ memories ∧ memory.id ∈ terminalTaskPlanIds memories) := by
  have ⟨disposition, drop, replace⟩ := memory.dropped_iff.mp dropped
  simp [classifyMemories, isHistory, KnowledgeMemory.excluded, disposition, drop, replace]

end Roles

end Frona.Reconcile
