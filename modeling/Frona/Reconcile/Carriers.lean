import Frona.Machine.Traps
import Frona.Reconcile.Relations
import Mathlib.Data.Char
import Mathlib.Data.List.Lex

set_option autoImplicit false

namespace Frona.Reconcile

open Utf8 (Text)

structure EntitySource where
  memoryId : Text
  entityPath : Text
  deriving DecidableEq

structure MemoryStore where
  memories : List KnowledgeMemory
  sources : List EntitySource
  distinct : (memories.map KnowledgeMemory.id).Nodup

namespace MemoryStore

-- The newest memory first.
def memoriesForEntity (store : MemoryStore) (path : Text) : List KnowledgeMemory :=
  (store.memories.filter fun memory => ⟨memory.id, path⟩ ∈ store.sources).reverse

def memoryEntities (store : MemoryStore) (proposed : Text → List Text)
    (all : List KnowledgeMemory) (id : Text) : Option (List Text) :=
  if id ∈ all.map KnowledgeMemory.id then
    let stored := (store.sources.filter fun source => source.memoryId = id).map
      EntitySource.entityPath
    some (((stored ++ proposed id).insertionSort (· ≤ ·)).destutter (· ≠ ·))
  else none

end MemoryStore

def addRelation (write : ReconcileMemoryRelationWrite) (memory : KnowledgeMemory) :
    KnowledgeMemory :=
  if memory.id ≠ write.subordinateId then memory
  else if memory.relations.any fun held =>
    held.relation = write.relation && held.target = write.targetId then memory
  else { memory with
    relations := memory.relations ++ [⟨write.relation, write.targetId, write.note⟩] }

@[simp] theorem addRelation_id (write : ReconcileMemoryRelationWrite) (memory : KnowledgeMemory) :
    (addRelation write memory).id = memory.id := by
  rw [addRelation]
  split
  · rfl
  · split <;> rfl

def MemoryStore.commitRelation (store : MemoryStore) (write : ReconcileMemoryRelationWrite) :
    MemoryStore where
  memories := store.memories.map (addRelation write)
  sources := store.sources
  distinct := by
    have same : KnowledgeMemory.id ∘ addRelation write = KnowledgeMemory.id :=
      funext (addRelation_id write)
    simpa [same] using store.distinct

def MemoryStore.commitRelations (store : MemoryStore)
    (writes : List ReconcileMemoryRelationWrite) : MemoryStore :=
  writes.foldl MemoryStore.commitRelation store

namespace MemoryStore

variable (store : MemoryStore)

def Holds (id : Text) : Prop := ∃ memory ∈ store.memories, memory.id = id

def FoldsInto (id survivor : Text) : Prop :=
  (∃ memory ∈ store.memories, memory.id = id ∧ survivor ∈ memory.survivors) ∧ store.Holds survivor

/-- What is collected is shown on no page, and its links lead to a memory that stays. -/
structure CarriersKept : Prop where
  unseen : ∀ id ∈ droppedMemoryIds store.memories, ∀ path, ⟨id, path⟩ ∈ store.sources →
    (∀ memory ∈ (classifyMemories (store.memoriesForEntity path)).1, memory.id ≠ id) ∧
      ∀ memory ∈ (classifyMemories (store.memoriesForEntity path)).2, memory.id ≠ id
  carried : ∀ id ∈ droppedMemoryIds store.memories,
    ∃ survivor, survivor ∉ droppedMemoryIds store.memories ∧
      Relation.TransGen store.FoldsInto id survivor

/-- A dropped memory plans a task that another memory of one of its pages saw end. -/
def EndedPlan (plan : KnowledgeMemory) (path : Text) : Prop :=
  plan.episode = some .planned ∧ ⟨plan.id, path⟩ ∈ store.sources ∧
    ∃ ending ∈ store.memories, ⟨ending.id, path⟩ ∈ store.sources ∧
      ending.excluded = false ∧ ending.terminal = true ∧
        ∃ task ∈ plan.tasks, task ∈ ending.tasks

/-- Dropped memories that are folded into nothing that exists but each other. -/
structure Circle (ids : Set Text) : Prop where
  nonempty : ids.Nonempty
  dropped : ∀ id ∈ ids, id ∈ droppedMemoryIds store.memories
  folded : ∀ memory ∈ store.memories, memory.id ∈ ids → ∀ survivor ∈ memory.survivors,
    store.Holds survivor → survivor ∈ ids

section Unseen

variable {store}

theorem mem_memoriesForEntity {memory : KnowledgeMemory} {path : Text} :
    memory ∈ store.memoriesForEntity path ↔
      memory ∈ store.memories ∧ ⟨memory.id, path⟩ ∈ store.sources := by
  simp [memoriesForEntity]

theorem eq_of_id {memory held : KnowledgeMemory} (first : memory ∈ store.memories)
    (second : held ∈ store.memories) (same : memory.id = held.id) : memory = held :=
  List.inj_on_of_nodup_map store.distinct first second same

theorem endedPlan_iff {plan : KnowledgeMemory} {path : Text} (held : plan ∈ store.memories)
    (attached : ⟨plan.id, path⟩ ∈ store.sources) :
    plan.id ∈ terminalTaskPlanIds (store.memoriesForEntity path) ↔ store.EndedPlan plan path := by
  rw [mem_terminalTaskPlanIds]
  constructor
  · intro ⟨other, member, same, planned, ending, found, counted, ended, shared⟩
    have member := mem_memoriesForEntity.mp member
    have found := mem_memoriesForEntity.mp found
    have same := eq_of_id member.1 held same
    subst same
    exact ⟨planned, attached, ending, found.1, found.2, counted, ended, shared⟩
  · intro ⟨planned, _, ending, found, linked, counted, ended, shared⟩
    exact ⟨plan, mem_memoriesForEntity.mpr ⟨held, attached⟩, rfl, planned, ending,
      mem_memoriesForEntity.mpr ⟨found, linked⟩, counted, ended, shared⟩

theorem unseen_iff {memory : KnowledgeMemory} {path : Text} (held : memory ∈ store.memories)
    (dropped : memory.dropped) (attached : ⟨memory.id, path⟩ ∈ store.sources) :
    ((∀ shown ∈ (classifyMemories (store.memoriesForEntity path)).1, shown.id ≠ memory.id) ∧
        ∀ shown ∈ (classifyMemories (store.memoriesForEntity path)).2, shown.id ≠ memory.id) ↔
      ¬ store.EndedPlan memory path := by
  have member : memory ∈ store.memoriesForEntity path :=
    mem_memoriesForEntity.mpr ⟨held, attached⟩
  have role := dropped_classified (store.memoriesForEntity path) dropped
  have only (shown : KnowledgeMemory) (on : shown ∈ store.memoriesForEntity path)
      (same : shown.id = memory.id) : shown = memory :=
    eq_of_id (mem_memoriesForEntity.mp on).1 held same
  rw [← endedPlan_iff held attached]
  constructor
  · intro ⟨_, past⟩ ended
    exact past memory (role.2.mpr ⟨member, ended⟩) rfl
  · intro running
    constructor
    · intro shown current same
      have := only shown (List.mem_of_mem_filter current) same
      exact role.1 (this ▸ current)
    · intro shown past same
      have := only shown (List.mem_of_mem_filter past) same
      exact running (role.2.mp (this ▸ past)).2

end Unseen

section Carried

variable {store}

theorem circle_iff {ids : Set Text} :
    store.Circle ids ↔
      (∀ id ∈ ids, id ∈ droppedMemoryIds store.memories) ∧ Machine.Trap store.FoldsInto ids := by
  constructor
  · intro circle
    refine ⟨circle.dropped, circle.nonempty, ?_⟩
    intro id member survivor ⟨⟨memory, held, same, folded⟩, present⟩
    exact circle.folded memory held (same ▸ member) survivor folded present
  · intro ⟨dropped, trap⟩
    refine ⟨trap.nonempty, dropped, ?_⟩
    intro memory held member survivor folded present
    exact trap.closed memory.id member survivor ⟨⟨memory, held, rfl, folded⟩, present⟩

theorem carried_iff :
    (∀ id ∈ droppedMemoryIds store.memories,
        ∃ survivor, survivor ∉ droppedMemoryIds store.memories ∧
          Relation.TransGen store.FoldsInto id survivor) ↔
      ∀ ids, ¬ store.Circle ids := by
  have leads := Machine.leads_out_iff store.FoldsInto {id | id ∈ droppedMemoryIds store.memories}
  refine leads.trans ⟨fun free ids circle => ?_, fun free trap within held => ?_⟩
  · have ⟨within, trap⟩ := circle_iff.mp circle
    exact free ids within trap
  · exact free trap (circle_iff.mpr ⟨within, held⟩)

end Carried

/-- Collection takes no fact away unless a plan has ended or memories are folded in a circle. -/
theorem carriersKept_iff :
    store.CarriersKept ↔
      (∀ memory ∈ store.memories, memory.dropped → ∀ path, ¬ store.EndedPlan memory path) ∧
        ∀ ids, ¬ store.Circle ids := by
  constructor
  · intro ⟨unseen, carried⟩
    refine ⟨?_, carried_iff.mp carried⟩
    intro memory held dropped path ended
    have collected := mem_droppedMemoryIds.mpr ⟨memory, held, dropped, rfl⟩
    exact (unseen_iff held dropped ended.2.1).mp (unseen _ collected path ended.2.1) ended
  · intro ⟨running, free⟩
    refine ⟨?_, carried_iff.mpr free⟩
    intro id collected path attached
    have ⟨memory, held, dropped, same⟩ := mem_droppedMemoryIds.mp collected
    subst same
    exact (unseen_iff held dropped attached).mpr (running memory held dropped path)

end MemoryStore

section Twins

def plainMemory (id content : String) : KnowledgeMemory where
  id := id.toList
  episode := none
  content := content.toList
  relations := []
  disposition := .none
  evidence := []

def twinStore : MemoryStore where
  memories := [plainMemory "a" "Bob lives in Oslo", plainMemory "b" "Bob's home is Oslo"]
  sources := [⟨"a".toList, "people/bob".toList⟩, ⟨"b".toList, "people/bob".toList⟩]
  distinct := by decide

def duplicateOf (target : String) : RelationInput where
  relation := .duplicate
  target := target.toList
  was := []
  now := []
  note := []
  derivedFromProperty := false

def twinVerdict : List Related :=
  [⟨"a".toList, [duplicateOf "b"]⟩, ⟨"b".toList, [duplicateOf "a"]⟩]

def twinPage : List KnowledgeMemory := twinStore.memoriesForEntity "people/bob".toList

def collapsedTwins : MemoryStore :=
  twinStore.commitRelations (acceptedRelations id (partitionReconcileMemories twinPage).1 twinPage
    twinVerdict)

theorem twins_collected :
    unsupportedScopeRelations (twinStore.memoryEntities (fun _ => []) twinPage)
        "people/bob".toList twinVerdict = [] ∧
      ¬ collapsedTwins.CarriersKept := by
  refine ⟨by decide, fun kept => ?_⟩
  have dropped : droppedMemoryIds collapsedTwins.memories = ["a".toList, "b".toList] := by
    decide
  refine MemoryStore.carried_iff.mp kept.carried {id | id ∈ ["a".toList, "b".toList]} ?_
  refine ⟨⟨"a".toList, by simp⟩, by simp [dropped], ?_⟩
  have folded : ∀ memory ∈ collapsedTwins.memories, ∀ survivor ∈ memory.survivors,
      survivor ∈ ["a".toList, "b".toList] := by
    decide
  intro memory held _ survivor into _
  exact folded memory held survivor into

end Twins

end Frona.Reconcile
