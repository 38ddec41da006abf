import Frona.Consolidate.AttributeUnion
import Frona.Consolidate.CurieKeys
import Frona.Consolidate.WorkItem
import Frona.Machine.Moves

set_option autoImplicit false

namespace Frona.Consolidate

open Utf8 (Text)
open Frona.Chat (Json)
open Frona.Ontology (PrefixMap)
open Frona.Reconcile (ProposalSet SchemaEdit)
open Frona.Text (trim)

section Edits

structure AttributeMapping where
  source : Text
  target : Text
  targets : List Text

structure AttributeDecisions where
  edits : List SchemaEdit := []
  rekeys : List (Text × Text) := []
  promoted : List (Text × Text × Text) := []

variable (m : PrefixMap) (entityPath : Text) (held known : List Text)

-- Each known entity other than this one, once.
def knownTargets (targets : List Text) : List Text :=
  (targets.map trim).foldl (fun found target =>
    if target ≠ [] ∧ target ≠ entityPath ∧ target ∈ known ∧ target ∉ found then found ++ [target]
    else found) []

def decideAttribute (decisions : AttributeDecisions) (mapping : AttributeMapping) :
    AttributeDecisions :=
  let source := trim mapping.source
  let target := trim mapping.target
  if source = [] ∨ target = [] ∨ source ∉ held then decisions
  else
    let isMint := "urn:frona:".toList.isPrefixOf (m.expand target)
    match knownTargets entityPath known mapping.targets with
    | [] =>
        { decisions with
          edits := if isMint then decisions.edits ++ [.declareDataProperty target]
            else decisions.edits
          rekeys := if source ≠ target then decisions.rekeys ++ [(source, target)]
            else decisions.rekeys }
    | targets =>
        { decisions with
          edits := if isMint then decisions.edits ++ [.declareObjectProperty target]
            else decisions.edits
          promoted := decisions.promoted ++ targets.map fun path => (source, target, path) }

def attributeEdits (mappings : List AttributeMapping) : AttributeDecisions :=
  mappings.foldl (decideAttribute m entityPath held known) {}

end Edits

section Fields

-- What `remove` does to the order of the fields that stay is left out.
def removeField (fields : Fields) (key : Text) : Fields := fields.filter fun entry => entry.1 ≠ key

def rekeyField (fields : Fields) (edit : Text × Text) : Fields :=
  if edit.1 ≠ edit.2 then
    match fields.lookup edit.1 with
    | some value => insertField (removeField fields edit.1) (edit.2, value)
    | none => fields
  else fields

def projectFields (rekeys : List (Text × Text)) (promoted : List (Text × Text × Text))
    (fields : Fields) : Fields :=
  promoted.foldl (fun fields edge => removeField fields edge.1) (rekeys.foldl rekeyField fields)

def reasoningFields (rekeys : List (Text × Text)) (raw fields : Fields) : Fields :=
  rekeys.foldl (fun fields edit =>
    match raw.lookup edit.1 with
    | some value => offer fields (edit.2, value)
    | none => fields) fields

end Fields

section Entities

variable (proposals : ProposalSet KnowledgeConsolidationEntity) (entity : KnowledgeConsolidationEntity)

def shapedEntity : KnowledgeConsolidationEntity :=
  match proposals.entityShapes.lookup entity.path with
  | some shape =>
      { entity with
        name := shape.name
        description := shape.description
        aliases := shape.aliases
        searchText := deriveSearchText shape.name shape.description shape.aliases }
  | none => entity

def mapFields (change : Fields → Fields) : Json → Json
  | .object fields => .object (change fields)
  | other => other

def projectEntity : KnowledgeConsolidationEntity :=
  let entity := shapedEntity proposals entity
  match proposals.byPath.lookup entity.path with
  | none => entity
  | some proposal =>
      { entity with
        kinds := proposal.classes.foldl (fun kinds kind =>
          if kind ∈ kinds then kinds else kinds ++ [kind]) entity.kinds
        attributes := mapFields (projectFields proposal.attrRekeys proposal.promoted)
          entity.attributes }

def projectReasoningEntity : KnowledgeConsolidationEntity :=
  let projected := projectEntity proposals entity
  match proposals.inputEntities.lookup entity.path, proposals.byPath.lookup entity.path with
  | some raw, some proposal =>
      match raw.attributes with
      | .object rawFields =>
          { projected with
            attributes := mapFields (reasoningFields proposal.attrRekeys rawFields)
              projected.attributes }
      | _ => projected
  | _, _ => projected

end Entities

section Lookups

variable (fields : Fields)

def heldAt (key : Text) : Option Json := fields.lookup key

theorem lookup_removeField (key other : Text) :
    (removeField fields key).lookup other = if key = other then none else fields.lookup other := by
  induction fields with
  | nil => simp [removeField]
  | cons first rest ih =>
      unfold removeField at ih ⊢
      by_cases here : first.1 = key
      · rw [List.filter_cons_of_neg (by simp [here]), ih, lookup_cons]
        by_cases same : key = other <;> simp [here, same]
      · rw [List.filter_cons_of_pos (by simp [here]), lookup_cons, ih, lookup_cons]
        by_cases same : key = other
        · simp [same, same ▸ here]
        · simp [same]

theorem lookup_rekeyField (edit : Text × Text) (apart : edit.1 ≠ edit.2) :
    heldAt (rekeyField fields edit) =
      Moves.moveOne (fun _ => true) (fun _ => true) edit (heldAt fields) := by
  funext key
  unfold heldAt
  rw [rekeyField, if_pos apart, Moves.moveOne]
  cases stored : fields.lookup edit.1 with
  | none => rfl
  | some value =>
      simp only [lookup_insertField, lookup_removeField, if_true]
      by_cases gone : edit.1 = key
      · simp [← gone, Ne.symm apart]
      · by_cases arrived : edit.2 = key
        · simp [← arrived, Ne.symm apart]
        · simp [gone, arrived, Ne.symm gone, Ne.symm arrived]

theorem lookup_rekeyFields (rekeys : List (Text × Text)) :
    heldAt (rekeys.foldl rekeyField fields) =
      Moves.moveAll (fun _ => true) (fun _ => true) (rekeys.filter fun edit => edit.1 ≠ edit.2)
        (heldAt fields) := by
  induction rekeys generalizing fields with
  | nil => rfl
  | cons edit rest ih =>
      rw [List.foldl_cons, ih]
      by_cases apart : edit.1 = edit.2
      · simp [rekeyField, apart]
      · rw [List.filter_cons_of_pos (by simpa using apart), lookup_rekeyField fields edit apart]
        rfl

theorem lookup_projectFields (rekeys : List (Text × Text)) (promoted : List (Text × Text × Text))
    (key : Text) :
    (projectFields rekeys promoted fields).lookup key =
      if key ∈ promoted.map Prod.fst then none
      else Moves.moveAll (fun _ => true) (fun _ => true) (rekeys.filter fun edit => edit.1 ≠ edit.2)
        (heldAt fields) key := by
  rw [projectFields, ← lookup_rekeyFields, heldAt]
  generalize rekeys.foldl rekeyField fields = start
  induction promoted generalizing start with
  | nil => simp
  | cons edge rest ih =>
      rw [List.foldl_cons, ih, lookup_removeField]
      simp only [List.map_cons, List.mem_cons]
      by_cases later : key ∈ rest.map Prod.fst
      · simp [later]
      · by_cases here : edge.1 = key
        · simp [here]
        · simp [later, here, Ne.symm here]

theorem reasoningFields_keeps (rekeys : List (Text × Text)) (raw : Fields) {key : Text}
    {held : Json} (projected : fields.lookup key = some held) :
    ∃ more, (reasoningFields rekeys raw fields).lookup key = some more ∧
      values held <+: values more := by
  unfold reasoningFields
  induction rekeys generalizing fields held with
  | nil => exact ⟨held, projected, List.prefix_rfl⟩
  | cons edit rest ih =>
      rw [List.foldl_cons]
      cases said : raw.lookup edit.1 with
      | none => exact ih fields projected
      | some value =>
          by_cases here : edit.2 = key
          · have offered : (offer fields (edit.2, value)).lookup key =
                some (mergeConsolidationAttributeValues held value) := by
              simp [lookup_offer, here, projected]
            obtain ⟨more, found, grown⟩ := ih (offer fields (edit.2, value)) offered
            exact ⟨more, found, (values_prefix_foldl (values value) held).trans grown⟩
          · have other : (offer fields (edit.2, value)).lookup key = some held := by
              simp [lookup_offer, here, projected]
            exact ih (offer fields (edit.2, value)) other

end Lookups

end Frona.Consolidate
