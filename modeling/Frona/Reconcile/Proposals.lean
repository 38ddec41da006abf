import Mathlib.Data.List.AList
import Frona.Reconcile.Memory

set_option autoImplicit false

namespace Frona.Reconcile

open Utf8 (Text)
open Frona.Text (trim)

-- A `HashMap` or a `BTreeMap` by text.
abbrev Table (A : Type) := AList fun _ : Text => A

namespace Table

variable {A : Type}

/-- `get_mut`: what is missing stays missing. -/
def modify (table : Table A) (key : Text) (change : A → A) : Table A :=
  match table.lookup key with
  | some value => table.insert key (change value)
  | none => table

def values (table : Table A) : List A := table.entries.map Sigma.snd

end Table

inductive JsonValue where
  | string (text : Text)
  | other (json : Text)
  deriving DecidableEq

inductive Attributes where
  | object (entries : Table JsonValue)
  | other (json : Text)
  deriving DecidableEq

namespace Attributes

def insert (key : Text) (value : JsonValue) : Attributes → Attributes
  | object entries => object (entries.insert key value)
  | other json => other json

def keys : Attributes → List Text
  | object entries => entries.keys
  | other _ => []

-- `attributes.remove(old)`, and an insertion of what was there.
def rekey (old new : Text) : Attributes → Attributes
  | object entries =>
      match entries.lookup old with
      | some value => if old = new then object entries else object ((entries.erase old).insert new value)
      | none => object entries
  | other json => other json

def remove (key : Text) : Attributes → Attributes
  | object entries => object (entries.erase key)
  | other json => other json

end Attributes

structure AttributeSource (Value : Type) where
  property : Text
  value : Value
  sourceMemoryIds : List Text
  deriving DecidableEq

inductive LinkOrigin where
  | asserted | inferred
  deriving DecidableEq

structure EntityLink where
  target : Text
  relation : Text
  origin : LinkOrigin
  sourceMemoryIds : List Text

-- The other edits of the schema are not looked into here.
inductive SchemaEdit where
  | declareObjectProperty (property : Text)
  | declareDataProperty (property : Text)
  | other (edit : Text)
  deriving DecidableEq

structure OntologyDeclaration where
  term : Text
  description : Text
  edits : List SchemaEdit
  deriving DecidableEq

structure ReconcilePromotion where
  key : Text
  property : Text
  target : Text
  sourceMemoryIds : List Text
  declaration : Option OntologyDeclaration
  deriving DecidableEq

structure EntityShape where
  name : Text
  description : Text
  aliases : List Text
  deriving DecidableEq

structure WorkingEntity where
  path : Text
  name : Text
  description : Text
  aliases : List Text
  attributes : Attributes
  attributeSources : List (AttributeSource JsonValue)
  sourceMemoryIds : List Text
  deriving DecidableEq

structure EntityProposal where
  classes : List Text
  edits : List SchemaEdit
  attrRekeys : List (Text × Text)
  promoted : List (Text × Text × Text)
  promotedSources : List ((Text × Text) × List Text)
  retracted : List (Text × Text)
  deriving DecidableEq

def EntityProposal.empty : EntityProposal := ⟨[], [], [], [], [], []⟩

-- The proposals of a pass, with its entities as the part at hand reads them.
structure ProposalSet (Entity : Type) where
  byPath : Table EntityProposal
  inputEntities : Table Entity
  stagedEntities : Table Entity
  proposedEdits : List SchemaEdit
  declarationDescriptions : Table Text
  entityShapes : Table EntityShape
  reconciledPaths : List Text
  deriving DecidableEq

structure PrefixMap where
  expand : Text → Text
  repairProperty : Text → Option Text

def minted : Text := "urn:frona:".toList

def pushNew {A : Type} [DecidableEq A] (held : List A) (value : A) : List A :=
  if value ∈ held then held else held ++ [value]

section Lists

variable {A : Type} [DecidableEq A]

theorem mem_pushNew (held : List A) (value other : A) :
    other ∈ pushNew held value ↔ other ∈ held ∨ other = value := by
  rw [pushNew]
  split
  next present =>
    constructor
    · exact Or.inl
    · rintro (member | rfl)
      · exact member
      · exact present
  next => simp

theorem mem_foldl_pushNew (held values : List A) (other : A) :
    other ∈ values.foldl pushNew held ↔ other ∈ held ∨ other ∈ values := by
  induction values generalizing held with
  | nil => simp
  | cons value values ih =>
      rw [List.foldl_cons, ih, mem_pushNew]
      simp [or_assoc]

end Lists

namespace ProposalSet

variable (proposals : ProposalSet WorkingEntity)

def rebuildEdits : ProposalSet WorkingEntity :=
  { proposals with proposedEdits :=
      (proposals.byPath.values.flatMap EntityProposal.edits).foldl pushNew [] }

/-- `by_path.entry(path).or_default()`. -/
def entry (path : Text) : EntityProposal := (proposals.byPath.lookup path).getD EntityProposal.empty

def promotionsFor (path : Text) : List (Text × Text × Text) :=
  ((proposals.byPath.lookup path).map EntityProposal.promoted).getD []

def describe (declaration : OntologyDeclaration) : ProposalSet WorkingEntity :=
  { proposals with declarationDescriptions :=
      proposals.declarationDescriptions.insert declaration.term declaration.description }

section Apply

variable (name description : Text) (attributes : Attributes) (sources : List (AttributeSource JsonValue))

def reconciledShape (shape : EntityShape) : EntityShape :=
  { shape with name := if trim name = [] then shape.name else name, description }

def reconciledEntity (entity : WorkingEntity) : WorkingEntity :=
  { entity with
    name := if trim name = [] then entity.name else name
    description, attributes, attributeSources := sources }

/-- `apply_reconciled_entity`: an empty name keeps the old one. -/
def applyReconciledEntity (path : Text) : ProposalSet WorkingEntity :=
  { proposals with
    reconciledPaths := pushNew proposals.reconciledPaths path
    entityShapes := proposals.entityShapes.modify path (reconciledShape name description)
    inputEntities := proposals.inputEntities.modify path
      (reconciledEntity name description attributes sources)
    stagedEntities := proposals.stagedEntities.modify path
      (reconciledEntity name description attributes sources) }

end Apply

variable (prefixes : PrefixMap) (path : Text)

def declares (edits : List SchemaEdit) (property : Text) : Bool :=
  edits.any fun edit => match edit with
    | .declareDataProperty held => prefixes.expand held = prefixes.expand property
    | _ => false

def attributeEdits (attributes : Attributes) (declarations : List OntologyDeclaration) :
    List SchemaEdit :=
  attributes.keys.foldl (fun edits key => match prefixes.repairProperty key with
    | none => edits
    | some property =>
        if minted.isPrefixOf (prefixes.expand property) && !declares prefixes edits property then
          edits ++ [.declareDataProperty property]
        else edits) (declarations.flatMap OntologyDeclaration.edits)

def addReconcileAttributes (attributes : Attributes) (declarations : List OntologyDeclaration) :
    ProposalSet WorkingEntity :=
  let described := declarations.foldl describe proposals
  let proposal := described.entry path
  let edits := (attributeEdits prefixes attributes declarations).foldl pushNew proposal.edits
  { described with byPath := described.byPath.insert path { proposal with edits } }.rebuildEdits

section Promotions

def promotionEdits (promotion : ReconcilePromotion) : List SchemaEdit :=
  if minted.isPrefixOf (prefixes.expand promotion.property) then
    match promotion.declaration with
    | some declaration => declaration.edits
    | none => [.declareObjectProperty promotion.property]
  else []

-- An edge is promoted once, and its sources are those of the last promotion.
def promote (proposal : EntityProposal) (promotion : ReconcilePromotion) : EntityProposal :=
  let edge := (promotion.property, promotion.target)
  { proposal with
    attrRekeys := proposal.attrRekeys.filter fun rekey => rekey.1 ≠ promotion.key
    promoted :=
      if proposal.promoted.any fun held => held.2 = edge then proposal.promoted
      else proposal.promoted ++ [(promotion.key, edge)]
    promotedSources := (edge, promotion.sourceMemoryIds) ::
      proposal.promotedSources.filter fun held => held.1 ≠ edge
    edits := (promotionEdits prefixes promotion).foldl pushNew proposal.edits }

def retiredDataTerms (promotions : List ReconcilePromotion) (rekeys : List (Text × Text)) :
    List Text :=
  (rekeys.filter fun rekey => promotions.any fun promotion => promotion.key = rekey.1).map Prod.snd

def keepsEdit (retired : List Text) : SchemaEdit → Bool
  | .declareDataProperty property => property ∉ retired
  | _ => true

def describePromotion (promotion : ReconcilePromotion) : ProposalSet WorkingEntity :=
  match promotion.declaration with
  | some declaration =>
      if minted.isPrefixOf (prefixes.expand promotion.property) then proposals.describe declaration
      else proposals
  | none => proposals

def promoteAll (promotions : List ReconcilePromotion) (retractions : List (Text × Text))
    (proposal : EntityProposal) : EntityProposal :=
  let retracting := { proposal with retracted := retractions.foldl pushNew proposal.retracted }
  let promoting := promotions.foldl (promote prefixes) retracting
  let retired := retiredDataTerms promotions proposal.attrRekeys
  { promoting with edits := promoting.edits.filter (keepsEdit retired) }

/-- `add_reconcile_promotions`. -/
def addReconcilePromotions (promotions : List ReconcilePromotion)
    (retractions : List (Text × Text)) : ProposalSet WorkingEntity :=
  if promotions.isEmpty && retractions.isEmpty then proposals
  else
    let described := promotions.foldl (fun set promotion => set.describePromotion prefixes promotion)
      proposals
    let proposal := promoteAll prefixes promotions retractions (described.entry path)
    { described with byPath := described.byPath.insert path proposal }.rebuildEdits

end Promotions

/-- `project_entity`: the shape first, then what the proposal makes of the attributes. -/
def projectEntity (entity : WorkingEntity) : WorkingEntity :=
  let shaped := match proposals.entityShapes.lookup entity.path with
    | some shape =>
        { entity with name := shape.name, description := shape.description, aliases := shape.aliases }
    | none => entity
  match proposals.byPath.lookup entity.path with
  | none => shaped
  | some proposal =>
      let rekeyed := proposal.attrRekeys.foldl (fun attributes rekey =>
        attributes.rekey rekey.1 rekey.2) shaped.attributes
      { shaped with attributes := proposal.promoted.foldl (fun attributes promoted =>
          attributes.remove promoted.1) rekeyed }

def inputEntity : Option WorkingEntity :=
  (proposals.inputEntities.lookup path).map proposals.projectEntity

end ProposalSet

end Frona.Reconcile
