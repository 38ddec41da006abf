import Frona.Consolidate.AttributeValues
import Frona.Machine.Run
import Frona.Reconcile.Proposals
import Frona.Text.Words
import Mathlib.Data.Char
import Mathlib.Data.List.Lex

set_option autoImplicit false

namespace Frona.Consolidate

open Utf8 (Text)
open Frona.Chat (Json)
open Frona.Pkm (EntityOrigin)
open Frona.Reconcile (AttributeSource EvidenceSource)
open Frona.Text (trim words)

inductive EntityCategory where
  | concept | playbook

inductive ConsolidationEntityLifecycle where
  | pending | active | coalesced | discarded
  deriving DecidableEq

def ConsolidationEntityLifecycle.searchable : ConsolidationEntityLifecycle → Bool
  | pending | active => true
  | coalesced | discarded => false

-- A `BTreeSet` is a list in order, a `HashSet` a list in any order.
structure PendingEntityContribution where
  name : Text
  description : Text
  aliases : List Text
  attributes : Json
  attributeEvidence : List (Text × List EvidenceSource)
  sourceMemoryIds : List Text
  existingOnly : Bool
  occurrenceCount : Nat

inductive ClassificationProgress where
  | pending
  | accepted (decision : Json)
  | discarded (reason : Text) (at_ : Nat)

inductive IdentityProgress where
  | pending
  | distinct (fingerprint : Text) (evidence : Json)
  | coalesced (canonicalPath : Text) (evidence : Option Json)
  | unresolved (fingerprint : Text) (diagnostic : Json)

inductive ReconciliationProgress where
  | pending
  | accepted (promotions : Json) (retractions : List (Text × Text))

inductive PlaybookResolutionProgress where
  | pending
  | accepted (proposal : Json)
  | failed (error : Text)

structure ConsolidationEntityProgress where
  classification : ClassificationProgress := .pending
  classificationDiagnostic : Option Json := none
  identity : IdentityProgress := .pending
  reconciliation : ReconciliationProgress := .pending
  playbookResolution : PlaybookResolutionProgress := .pending

structure ConsolidationEntityLink where
  relation : Text
  targetPath : Text
  sourceMemoryIds : List Text

-- What a committed row and the work item for it have in common.
structure EntityContent where
  origin : EntityOrigin := .internal
  category : EntityCategory
  kinds : List Text := []
  name : Text := []
  description : Text := []
  identityEvidence : List EvidenceSource := []
  attributeSources : List (AttributeSource Json) := []
  sourceMemoryIds : List Text
  body : Text := []
  syncContent : Option Text := none
  mirroredRev : Option Text := none
  extractedRev : Option Text := none
  relatedPlaybooks : List Text := []
  searchText : Text := []
  searchNames : List Text := []
  searchNameTokens : List Text := []
  searchAssertions : List Text := []
  attributes : Json := .object []
  useCount : Int := 0
  aliases : List Text := []
  rev : Option Text := none
  updatedAt : Nat
  renderedAt : Nat := 0

structure KnowledgeEntity extends EntityContent where
  id : Text
  userId : Text
  path : Text

structure KnowledgeConsolidationEntity extends EntityContent where
  consolidationEntityId : Text
  entityId : Option Text
  consolidationId : Text
  userId : Text
  path : Text
  lifecycle : ConsolidationEntityLifecycle
  searchable : Bool
  canonicalPath : Option Text
  contributions : List PendingEntityContribution
  outgoingLinks : List ConsolidationEntityLink := []
  progress : ConsolidationEntityProgress := {}
  checkpointRevision : Nat := 0

section Search

/-- `char::is_alphanumeric` and `str::to_lowercase`. -/
structure Letters where
  isAlphanumeric : Char → Bool
  lowercase : Text → Text

variable (letters : Letters)

/-- A `BTreeSet` from its items. -/
def sortedSet (items : List Text) : List Text :=
  (items.mergeSort fun a b => decide (a ≤ b)).dedup

def normalizeIdentityName (value : Text) : Text :=
  List.intercalate [' '] (((value.splitOnP fun c => !letters.isAlphanumeric c).filter
    fun token => !token.isEmpty).map letters.lowercase)

def deriveSearchText (name description : Text) (aliases : List Text) : Text :=
  name ++ '\n' :: description ++
    if aliases.isEmpty then [] else '\n' :: List.intercalate [' '] (sortedSet aliases)

def flattenResolutionAttribute (property : Text) (value : Json) : List Text :=
  (leaves value).filterMap fun leaf =>
    match leaf with
    | .null | .object _ => none
    | leaf => some (Json.array [.string "attribute".toList, .string property, leaf]).render

def relationAssertion (link : ConsolidationEntityLink) : Text :=
  (Json.array [.string "relation".toList, .string link.relation, .string link.targetPath]).render

def attributeFields : Json → Fields
  | .object fields => fields
  | _ => []

-- Names, the words in them, and assertions.
def deriveResolutionSearch (name : Text) (aliases : List Text) (attributes : Json)
    (links : List ConsolidationEntityLink) : List Text × List Text × List Text :=
  let names := sortedSet (((name :: aliases).map (normalizeIdentityName letters)).filter
    fun value => !value.isEmpty)
  (names, sortedSet (names.flatMap words),
    sortedSet ((attributeFields attributes).flatMap
      (fun entry => flattenResolutionAttribute entry.1 entry.2) ++ links.map relationAssertion))

end Search

namespace KnowledgeConsolidationEntity

section Staged

variable (item : KnowledgeConsolidationEntity)

-- All that the contributions say, one after the other.
def contributed : Fields := item.contributions.flatMap fun c => attributeFields c.attributes

def stagedAttributes : Json := .object (item.contributed.foldl offer [])

theorem stagedAttributes_lookup (key : Text) :
    (attributeFields item.stagedAttributes).lookup key =
      match offersFor key item.contributed with
      | [] => none
      | first :: rest => some (mergeAll first rest) := by
  rw [stagedAttributes, attributeFields, lookup_foldl_offer]
  cases offersFor key item.contributed <;> rfl

end Staged

section Operations

variable (letters : Letters) (now : Nat)

def adopted (item : KnowledgeConsolidationEntity) : KnowledgeConsolidationEntity :=
  { item with
    name := if item.name.isEmpty then
        ((item.contributions.map fun c => trim c.name).find? fun value => !value.isEmpty).getD []
      else item.name
    description := if item.description.isEmpty then
        List.intercalate ['\n'] ((item.contributions.map fun c => trim c.description).filter
          fun value => !value.isEmpty)
      else item.description
    aliases := if item.aliases.isEmpty then
        (item.contributions.flatMap fun c => c.aliases).dedup
      else item.aliases }

def rederiveSearch (item : KnowledgeConsolidationEntity) : KnowledgeConsolidationEntity :=
  let item := item.adopted
  -- A placeholder for an existing entity keeps the search text that it has.
  if item.name.isEmpty && item.contributions.any (·.existingOnly) && item.description.isEmpty &&
      item.aliases.isEmpty && !item.searchText.isEmpty then
    { item with searchable := item.lifecycle.searchable, updatedAt := now }
  else
    let derived := deriveResolutionSearch letters item.name item.aliases item.attributes
      item.outgoingLinks
    { item with
      searchText := deriveSearchText item.name item.description item.aliases
      searchNames := derived.1
      searchNameTokens := derived.2.1
      searchAssertions := derived.2.2
      searchable := item.lifecycle.searchable
      updatedAt := now }

def pending (newId consolidationId userId path : Text) (category : EntityCategory)
    (contributions : List PendingEntityContribution) (sourceMemoryIds : List Text) :
    KnowledgeConsolidationEntity :=
  rederiveSearch letters now
    { consolidationEntityId := newId
      entityId := none
      consolidationId := consolidationId
      userId := userId
      path := path
      category := category
      lifecycle := .pending
      searchable := true
      canonicalPath := none
      contributions := contributions
      sourceMemoryIds := sourceMemoryIds
      updatedAt := now }

def repeats (incoming held : PendingEntityContribution) : Bool :=
  held.name = incoming.name && (held.description = incoming.description &&
    (held.aliases = incoming.aliases && (held.attributes = incoming.attributes &&
      (held.attributeEvidence = incoming.attributeEvidence &&
        held.existingOnly = incoming.existingOnly))))

def addContribution (incoming : PendingEntityContribution) :
    List PendingEntityContribution → List PendingEntityContribution
  | [] => [incoming]
  | held :: rest =>
      if repeats incoming held then
        { held with
          sourceMemoryIds := sortedSet (held.sourceMemoryIds ++ incoming.sourceMemoryIds)
          occurrenceCount := held.occurrenceCount + max incoming.occurrenceCount 1 } :: rest
      else held :: addContribution incoming rest

def mergeContribution (incoming : PendingEntityContribution) (item : KnowledgeConsolidationEntity) :
    KnowledgeConsolidationEntity :=
  rederiveSearch letters now
    { item with
      sourceMemoryIds := sortedSet (item.sourceMemoryIds ++ incoming.sourceMemoryIds)
      contributions := addContribution incoming item.contributions }

def applyCommitted (entity : KnowledgeEntity) (item : KnowledgeConsolidationEntity) :
    KnowledgeConsolidationEntity :=
  let item := rederiveSearch letters now
    { item with
      toEntityContent := { entity.toEntityContent with
        updatedAt := item.updatedAt, renderedAt := item.renderedAt }
      entityId := some entity.id }
  { item with
    searchAssertions := sortedSet (item.searchAssertions ++ entity.searchAssertions)
    updatedAt := entity.updatedAt
    renderedAt := entity.renderedAt }

def markCoalesced (canonicalPath : Text) (evidence : Option Json)
    (item : KnowledgeConsolidationEntity) : KnowledgeConsolidationEntity :=
  { item with
    lifecycle := .coalesced
    searchable := false
    canonicalPath := some canonicalPath
    progress := { item.progress with identity := .coalesced canonicalPath evidence }
    updatedAt := now }

def markDiscarded (reason : Text) (item : KnowledgeConsolidationEntity) :
    KnowledgeConsolidationEntity :=
  { item with
    lifecycle := .discarded
    searchable := false
    canonicalPath := none
    progress := { item.progress with classification := .discarded reason now }
    updatedAt := now }

/-- What `commit_authored_page` does to the row of the page. -/
def commitAuthored (entity : KnowledgeEntity) (item : KnowledgeConsolidationEntity) :
    KnowledgeConsolidationEntity :=
  rederiveSearch letters now <| applyCommitted letters now entity
    { item with
      lifecycle := .active
      canonicalPath := none
      category := entity.category
      sourceMemoryIds := entity.sourceMemoryIds
      entityId := some entity.id }

end Operations

inductive ValidateError where
  | searchable (lifecycle : ConsolidationEntityLifecycle) (required : Bool)
  | missingCanonicalPath
  | strayCanonicalPath
  deriving DecidableEq

def validate (item : KnowledgeConsolidationEntity) : Except ValidateError Unit :=
  if item.searchable ≠ item.lifecycle.searchable then
    .error (.searchable item.lifecycle item.lifecycle.searchable)
  else if item.lifecycle = .coalesced ∧ item.canonicalPath.all List.isEmpty then
    .error .missingCanonicalPath
  else if item.lifecycle ≠ .coalesced ∧ item.canonicalPath.isSome then
    .error .strayCanonicalPath
  else .ok ()

end KnowledgeConsolidationEntity

end Frona.Consolidate
