import Frona.Reconcile.Memory

set_option autoImplicit false

namespace Frona.Reconcile

open Utf8 (Text)
open Pkm (Disposition)

section Superseders

variable (memories : List KnowledgeMemory)

def pointsAtErroneous (link : MemoryRelation) : Bool :=
  memories.any fun target => target.id = link.target && target.disposition = .erroneous

def cleared (memory : KnowledgeMemory) : KnowledgeMemory :=
  { memory with relations := memory.relations.filter fun link => !pointsAtErroneous memories link }

/-- Every memory is current, history or dropped exactly as it would be if no relation pointed at a
memory that was never true. -/
def ClassesStand : Prop :=
  ∀ memory ∈ memories,
    (memory ∈ (classifyMemories memories).1 ↔
      cleared memories memory ∈ (classifyMemories (memories.map (cleared memories))).1) ∧
    (memory ∈ (classifyMemories memories).2 ↔
      cleared memories memory ∈ (classifyMemories (memories.map (cleared memories))).2)

def retiredByRelations (memory : KnowledgeMemory) : Bool :=
  !memory.excluded && (memory.disposition ≠ .outdated &&
    decide (memory.id ∉ terminalTaskPlanIds memories))

/-- A memory with `Replace` links has one that does not point at an error. A memory with `Duplicate`
or `Absorbed` links only has one too. -/
def TrulySuperseded : Prop :=
  ∀ memory ∈ memories, retiredByRelations memories memory →
    (memory.hasReplace →
      ∃ link ∈ memory.relations, link.relation = .replace ∧ ¬pointsAtErroneous memories link) ∧
    (memory.hasReplace = false → memory.hasDrop →
      ∃ link ∈ memory.relations, ¬pointsAtErroneous memories link)

instance : Decidable (ClassesStand memories) :=
  inferInstanceAs (Decidable (∀ memory ∈ memories, _))

instance : Decidable (TrulySuperseded memories) :=
  inferInstanceAs (Decidable (∀ memory ∈ memories, _))

variable {memories} {memory : KnowledgeMemory}

@[simp] theorem cleared_id : (cleared memories memory).id = memory.id := rfl

@[simp] theorem cleared_disposition :
    (cleared memories memory).disposition = memory.disposition := rfl

@[simp] theorem cleared_excluded : (cleared memories memory).excluded = memory.excluded := rfl

theorem terminalTaskPlanIds_cleared :
    terminalTaskPlanIds (memories.map (cleared memories)) = terminalTaskPlanIds memories := by
  have ended : terminalTasks (memories.map (cleared memories)) = terminalTasks memories := by
    simp only [terminalTasks, List.filter_map, List.flatMap_map]
    rfl
  simp only [terminalTaskPlanIds, ended, List.filter_map, List.map_map]
  rfl

theorem hasReplace_cleared :
    (cleared memories memory).hasReplace ↔
      ∃ link ∈ memory.relations, link.relation = .replace ∧ ¬pointsAtErroneous memories link := by
  simp [KnowledgeMemory.hasReplace, cleared, and_comm]

theorem hasDrop_cleared :
    (cleared memories memory).hasDrop ↔
      ∃ link ∈ memory.relations, link.relation ≠ .replace ∧ ¬pointsAtErroneous memories link := by
  have kinds : ∀ kind : RelationType, kind = .duplicate ∨ kind = .absorbed ↔ kind ≠ .replace := by
    intro kind
    cases kind <;> simp
  simp [KnowledgeMemory.hasDrop, cleared, kinds, and_comm]

theorem hasReplace_eq_false :
    memory.hasReplace = false ↔ ∀ link ∈ memory.relations, link.relation ≠ .replace := by
  simp [KnowledgeMemory.hasReplace]

theorem hasReplace_of_cleared (held : (cleared memories memory).hasReplace) : memory.hasReplace := by
  obtain ⟨link, member, kind, -⟩ := hasReplace_cleared.mp held
  simpa [KnowledgeMemory.hasReplace] using ⟨link, member, kind⟩

theorem hasDrop_of_cleared (held : (cleared memories memory).hasDrop) : memory.hasDrop := by
  obtain ⟨link, member, kind, -⟩ := hasDrop_cleared.mp held
  cases relation : link.relation with
  | replace => exact absurd relation kind
  | duplicate | absorbed => simpa [KnowledgeMemory.hasDrop] using ⟨link, member, by simp [relation]⟩

theorem hasDrop_cleared_of_no_replace (none : memory.hasReplace = false) :
    (cleared memories memory).hasDrop ↔
      ∃ link ∈ memory.relations, ¬pointsAtErroneous memories link := by
  rw [hasDrop_cleared]
  refine exists_congr fun link => and_congr_right fun member => ?_
  simp [hasReplace_eq_false.mp none link member]

theorem mem_current_iff (member : memory ∈ memories) :
    memory ∈ (classifyMemories memories).1 ↔
      retiredByRelations memories memory ∧ memory.hasReplace = false ∧ memory.hasDrop = false := by
  simp only [classifyMemories, isHistory, retiredByRelations, List.mem_filter, member]
  grind

theorem mem_history_iff (member : memory ∈ memories) :
    memory ∈ (classifyMemories memories).2 ↔
      memory.excluded = false ∧ (retiredByRelations memories memory → memory.hasReplace) := by
  simp only [classifyMemories, isHistory, retiredByRelations, List.mem_filter, member]
  grind

theorem retiredByRelations_cleared :
    retiredByRelations (memories.map (cleared memories)) (cleared memories memory) =
      retiredByRelations memories memory := by
  unfold retiredByRelations
  rw [terminalTaskPlanIds_cleared]
  rfl

theorem classStands_iff (member : memory ∈ memories) :
    ((memory ∈ (classifyMemories memories).1 ↔
        cleared memories memory ∈ (classifyMemories (memories.map (cleared memories))).1) ∧
      (memory ∈ (classifyMemories memories).2 ↔
        cleared memories memory ∈ (classifyMemories (memories.map (cleared memories))).2)) ↔
    (retiredByRelations memories memory →
      (memory.hasReplace → (cleared memories memory).hasReplace) ∧
      (memory.hasReplace = false → memory.hasDrop → (cleared memories memory).hasDrop)) := by
  have kept := List.mem_map_of_mem (f := cleared memories) member
  have replaces := @hasReplace_of_cleared memories memory
  have drops := @hasDrop_of_cleared memories memory
  rw [mem_current_iff member, mem_history_iff member, mem_current_iff kept, mem_history_iff kept,
    retiredByRelations_cleared, cleared_excluded]
  cases alone : retiredByRelations memories memory with
  | false => simp
  | true =>
      have standing : memory.excluded = false := by
        simp only [retiredByRelations, Bool.and_eq_true, Bool.not_eq_true'] at alone
        exact alone.1
      simp only [standing]
      grind

/-- A relation to a memory that was never true is ignored exactly when it is not the one that
retires its memory. -/
theorem classesStand_iff : ClassesStand memories ↔ TrulySuperseded memories := by
  refine forall₂_congr fun memory member => ?_
  rw [classStands_iff member]
  refine imp_congr_right fun _ => and_congr (imp_congr_right fun _ => hasReplace_cleared) ?_
  exact imp_congr_right fun none => imp_congr_right fun _ => hasDrop_cleared_of_no_replace none

end Superseders

def corrected : List KnowledgeMemory :=
  [{ id := "older".toList, episode := none, content := "lives in Oslo".toList,
     relations := [⟨.replace, "newer".toList, []⟩], disposition := .none, evidence := [] },
   { id := "newer".toList, episode := none, content := "lives in Rome".toList,
     relations := [], disposition := .erroneous, evidence := [] }]

theorem older_stays_history : ¬ClassesStand corrected := by decide

end Frona.Reconcile
