import Frona.Consolidate.Classified

set_option autoImplicit false

namespace Frona.Consolidate

open Utf8 (Text)
open Frona.Chat (Json)
open Frona.Ontology (PrefixMap)
open Frona.Reconcile (EntityProposal ProposalSet)

section Statements

abbrev Names := Json → Text → Prop

def valuesAt (attributes : Json) (key : Text) : List Json :=
  (heldAt (attributeFields attributes) key).elim [] values

variable (names : Names) (proposal : EntityProposal)

def curieOf (key : Text) : Text :=
  Moves.simultaneous (proposal.attrRekeys ++ proposal.promoted.map fun edge => (edge.1, edge.2.1)) key

def IsLinked (key : Text) (value : Json) : Prop :=
  ∃ edge ∈ proposal.promoted, edge.1 = key ∧ names value edge.2.2

def IsPromoted (key : Text) : Prop := key ∈ proposal.promoted.map Prod.fst

def KeepsValues (before after : Json) : Prop :=
  ∀ key, ∀ value ∈ valuesAt before key,
    IsLinked names proposal key value ∨ value ∈ valuesAt after (curieOf proposal key)

def lastMovedTo (attributes : Json) (key : Text) : Option Text :=
  Moves.moveAll (fun _ => true) (fun _ => true)
    (proposal.attrRekeys.filter fun edit => edit.1 ≠ edit.2)
    (Moves.ownKeys (heldAt (attributeFields attributes))) key

-- What comes last to a key replaces what is there, and a promoted key is gone with all its values.
def LastOnesHoldAll (attributes : Json) : Prop :=
  ∀ key, ∀ value ∈ valuesAt attributes key, ¬IsLinked names proposal key value →
    ¬IsPromoted proposal (curieOf proposal key) ∧
      ∃ last ∈ lastMovedTo proposal attributes (curieOf proposal key), value ∈ valuesAt attributes last

variable (proposals : ProposalSet KnowledgeConsolidationEntity) (entity : KnowledgeConsolidationEntity)

/-- Neither what is stored nor what is reasoned over misses a value. -/
structure ClassifiesLosslessly : Prop where
  projected : KeepsValues names proposal entity.attributes (projectEntity proposals entity).attributes
  reasoning : KeepsValues names proposal entity.attributes
    (projectReasoningEntity proposals entity).attributes

end Statements

section Entities

variable {proposal : EntityProposal} {proposals : ProposalSet KnowledgeConsolidationEntity}
  {entity : KnowledgeConsolidationEntity}

theorem shapedEntity_path : (shapedEntity proposals entity).path = entity.path := by
  unfold shapedEntity
  split <;> rfl

theorem shapedEntity_attributes : (shapedEntity proposals entity).attributes = entity.attributes := by
  unfold shapedEntity
  split <;> rfl

theorem projectEntity_attributes (proposed : proposals.byPath.lookup entity.path = some proposal) :
    (projectEntity proposals entity).attributes =
      mapFields (projectFields proposal.attrRekeys proposal.promoted) entity.attributes := by
  have found : proposals.byPath.lookup (shapedEntity proposals entity).path = some proposal := by
    rwa [shapedEntity_path]
  simp [projectEntity, found, shapedEntity_attributes]

theorem valuesAt_reasoningFields (rekeys : List (Text × Text)) (raw : Fields) (attributes : Json)
    (key : Text) :
    valuesAt attributes key ⊆ valuesAt (mapFields (reasoningFields rekeys raw) attributes) key := by
  cases attributes with
  | object fields =>
      intro value member
      cases stored : heldAt fields key with
      | none => simp [valuesAt, attributeFields, stored] at member
      | some held =>
          obtain ⟨more, found, grown⟩ := reasoningFields_keeps fields rekeys raw stored
          have inside : value ∈ values held := by
            simpa [valuesAt, attributeFields, stored] using member
          simpa [valuesAt, attributeFields, mapFields, heldAt, found] using grown.subset inside
  | null | bool | number | string | array => exact List.Subset.refl _

theorem valuesAt_reasoning (key : Text) :
    valuesAt (projectEntity proposals entity).attributes key ⊆
      valuesAt (projectReasoningEntity proposals entity).attributes key := by
  unfold projectReasoningEntity
  split
  next =>
    split
    next => exact valuesAt_reasoningFields _ _ _ key
    next => exact List.Subset.refl _
  next => exact List.Subset.refl _

theorem mem_valuesAt_project (fields : Fields) (key : Text) (value : Json) :
    value ∈ valuesAt (.object (projectFields proposal.attrRekeys proposal.promoted fields)) key ↔
      ¬IsPromoted proposal key ∧
        ∃ last ∈ lastMovedTo proposal (.object fields) key, value ∈ valuesAt (.object fields) last := by
  have split := lookup_projectFields fields proposal.attrRekeys proposal.promoted key
  by_cases removed : key ∈ proposal.promoted.map Prod.fst
  · rw [if_pos removed] at split
    simp [valuesAt, attributeFields, heldAt, split, IsPromoted, removed]
  · rw [if_neg removed, Moves.moveAll_ownKeys] at split
    simp only [valuesAt, attributeFields, heldAt, split, IsPromoted, removed, not_false_eq_true,
      true_and]
    unfold lastMovedTo
    simp only [attributeFields, heldAt]
    cases Moves.moveAll (fun _ => true) (fun _ => true)
      (proposal.attrRekeys.filter fun edit => edit.1 ≠ edit.2)
        (Moves.ownKeys (heldAt fields)) key with
    | none => simp
    | some last => simp [heldAt]

theorem keepsValues_project_iff (names : Names)
    (proposed : proposals.byPath.lookup entity.path = some proposal) :
    KeepsValues names proposal entity.attributes (projectEntity proposals entity).attributes ↔
      LastOnesHoldAll names proposal entity.attributes := by
  rw [projectEntity_attributes proposed]
  cases entity.attributes with
  | object fields =>
      unfold KeepsValues LastOnesHoldAll
      refine forall_congr' fun key => forall₂_congr fun value _ => ?_
      rw [mapFields, mem_valuesAt_project, or_iff_not_imp_left]
  | null | bool | number | string | array =>
      simp [KeepsValues, LastOnesHoldAll, valuesAt, attributeFields, heldAt]

/-- Classification loses no value exactly when the last key that comes under a CURIE has all the
values that should be there and did not become edges. -/
theorem classifiesLosslessly_iff (names : Names)
    (proposed : proposals.byPath.lookup entity.path = some proposal) :
    ClassifiesLosslessly names proposal proposals entity ↔
      LastOnesHoldAll names proposal entity.attributes := by
  rw [← keepsValues_project_iff names proposed]
  constructor
  · exact ClassifiesLosslessly.projected
  · intro keeps
    constructor
    · exact keeps
    · intro key value member
      cases keeps key value member with
      | inl linked => exact .inl linked
      | inr stands => exact .inr (valuesAt_reasoning _ stands)

end Entities

section Employers

-- Both employers of Ada, of which only the first is known.
def employers : Json := .object [("employer".toList, .array [.string "Acme".toList,
  .string "Initech".toList])]

def employed : KnowledgeConsolidationEntity :=
  { KnowledgeConsolidationEntity.pending ⟨fun _ => true, id⟩ 1 ['w'] ['c'] ['u']
      "people/ada".toList .concept [] [] with attributes := employers }

def employment : AttributeDecisions :=
  attributeEdits PrefixMap.standard "people/ada".toList ["employer".toList] ["orgs/acme".toList]
    [⟨"employer".toList, "frona:worksFor".toList, ["orgs/acme".toList]⟩]

def classified : EntityProposal :=
  { EntityProposal.empty with attrRekeys := employment.rekeys, promoted := employment.promoted }

def asProposed : ProposalSet KnowledgeConsolidationEntity :=
  ⟨AList.singleton employed.path classified, AList.singleton employed.path employed, ∅, [], ∅, ∅, []⟩

def namesAcme : Names := fun value path =>
  value = .string "Acme".toList ∧ path = "orgs/acme".toList

theorem classifiesLosslessly_employed :
    ClassifiesLosslessly namesAcme classified asProposed employed ↔
      LastOnesHoldAll namesAcme classified employed.attributes :=
  classifiesLosslessly_iff namesAcme rfl

theorem second_employer_lost : ¬ClassifiesLosslessly namesAcme classified asProposed employed := by
  intro lossless
  have held : Json.string "Initech".toList ∈ valuesAt employed.attributes "employer".toList := by
    decide
  have gone : Json.string "Initech".toList ∉ valuesAt (projectEntity asProposed employed).attributes
      (curieOf classified "employer".toList) := by
    decide
  cases lossless.projected _ _ held with
  | inl linked =>
      obtain ⟨_, _, _, names, _⟩ := linked
      exact absurd names (by decide)
  | inr stands => exact gone stands

end Employers

end Frona.Consolidate
