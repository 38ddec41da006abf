import Frona.Reconcile.Proposals
import Frona.Reconcile.Relations

set_option autoImplicit false

namespace Frona.Reconcile

open Utf8 (Text)
open Frona.Text (trim)

-- Entity-to-entity facts, each under the key of `attributes` whose value names the target.
structure EntityRelation where
  attributeKey : Text
  value : Text
  property : Text
  target : Text
  sourceMemoryIds : List Text

structure EntityRetraction where
  property : Text
  target : Text

structure Move where
  source : Text
  target : Text

structure EntityVerdict where
  relations : List Related
  entityRelations : List EntityRelation
  relationRetractions : List EntityRetraction
  outdated : List Outdated
  attributes : Attributes
  attributeSources : List (AttributeSource JsonValue)
  name : Text
  description : Text
  moves : List Move
  declarations : List OntologyDeclaration

structure ReconciledEntityUpdate where
  name : Text
  description : Text
  attributes : Attributes
  attributeSources : List (AttributeSource JsonValue)
  declarations : List OntologyDeclaration

structure ReconcileEntityLinkSourceWrite where
  source : Text
  target : Text
  relation : Text
  sourceMemoryIds : List Text
  deriving DecidableEq

-- The entity of a commit is added once its update is staged.
structure ReconcileCommit where
  memoryRelations : List ReconcileMemoryRelationWrite
  outdatedMemories : List ReconcileOutdatedWrite
  entityLinkSources : List ReconcileEntityLinkSourceWrite
  deriving DecidableEq

structure EntityOutcome where
  reconcileDirty : Bool
  promotions : List ReconcilePromotion
  retractions : List (Text × Text)
  pageUpdate : Option ReconciledEntityUpdate
  commit : ReconcileCommit

def EntityOutcome.skipped : EntityOutcome := ⟨false, [], [], none, ⟨[], [], []⟩⟩

structure Pass where
  prefixes : PrefixMap
  lower : Text → Text
  normalizePath : Text → Option Text
  dataProperties : List Text
  entityByPath : Text → Option WorkingEntity
  entityInPass : ProposalSet WorkingEntity → Text → Option WorkingEntity

structure EntityState where
  path : Text
  entity : WorkingEntity
  links : List EntityLink
  allMemories : List KnowledgeMemory
  memoryEntities : Text → Option (List Text)
  proposals : ProposalSet WorkingEntity

def EntityState.current (state : EntityState) : List KnowledgeMemory :=
  (partitionReconcileMemories state.allMemories).1

def EntityState.historical (state : EntityState) : List KnowledgeMemory :=
  (partitionReconcileMemories state.allMemories).2

section Keys

variable (prefixes : PrefixMap)

def stdAttributeCuries : List (Text × Text) := [
  ("name".toList, "schema:name".toList),
  ("email".toList, "schema:email".toList),
  ("url".toList, "schema:url".toList),
  ("website".toList, "schema:url".toList),
  ("homepage".toList, "schema:url".toList),
  ("telephone".toList, "schema:telephone".toList),
  ("phone".toList, "schema:telephone".toList),
  ("address".toList, "schema:address".toList),
  ("description".toList, "schema:description".toList),
  ("givenname".toList, "schema:givenName".toList),
  ("familyname".toList, "schema:familyName".toList),
  ("jobtitle".toList, "schema:jobTitle".toList),
  ("role".toList, "schema:roleName".toList),
  ("timezone".toList, "schema:timezone".toList)]

-- `eq_ignore_ascii_case`: every key of the table is lower case.
def standardCurie (key : Text) : Option Text :=
  if ':' ∈ key then none
  else (stdAttributeCuries.find? fun entry => entry.1 = key.map Char.toLower).map Prod.snd

/-- `key.rsplit(':').next()`. -/
def localName (key : Text) : Text := (key.reverse.takeWhile fun c => c != ':').reverse

def fallbackCurie : Text := "frona:attribute".toList

def curieKey (key : Text) : Text :=
  match standardCurie key with
  | some curie => curie
  | none =>
      match prefixes.repairProperty key with
      | some term => term
      | none => (prefixes.repairProperty (localName key)).getD fallbackCurie

def curieKeyAttributes : Attributes → Attributes
  | .object entries => .object (entries.entries.foldl (fun out entry =>
      out.insert (curieKey prefixes (trim entry.1)) entry.2) ∅)
  | .other json => .other json

variable (lower : Text → Text)

def namesLinked (linkedNames : List Text) : JsonValue → Bool
  | .string text => comparisonKey lower text ∈ linkedNames
  | .other _ => false

def dropKeysHeldAsRelations (links : List EntityLink) (linkedNames : List Text) :
    Attributes → Attributes
  | .object entries =>
      let held := links.map fun link => prefixes.expand link.relation
      .object (entries.entries.foldl (fun out entry =>
        if prefixes.expand entry.1 ∉ held ∧ ¬ namesLinked lower linkedNames entry.2 then
          out.insert entry.1 entry.2
        else out) ∅)
  | .other json => .other json

end Keys

section Lookups

variable (pass : Pass) (state : EntityState) (verdict : EntityVerdict)

def WorkingEntity.goesBy (entity : WorkingEntity) (key : Text) : Bool :=
  comparisonKey pass.lower entity.name = key ||
    entity.aliases.any fun other => comparisonKey pass.lower other = key

def linkedNames : List Text :=
  state.links.flatMap fun link => match pass.entityInPass state.proposals link.target with
    | some target => (target.name :: target.aliases).map (comparisonKey pass.lower)
    | none => []

def keyedSources : List (AttributeSource JsonValue) :=
  verdict.attributeSources.map fun source =>
    { source with property := curieKey pass.prefixes source.property }

def keyedAttributes : Attributes :=
  dropKeysHeldAsRelations pass.prefixes pass.lower state.links (linkedNames pass state)
    (curieKeyAttributes pass.prefixes verdict.attributes)

def acceptedPromotion (relation : EntityRelation) : Option ReconcilePromotion :=
  let attributeKey := trim relation.attributeKey
  let value := trim relation.value
  let target := trim relation.target
  let key := comparisonKey pass.lower value
  if attributeKey = [] ∨ value = [] ∨ target = [] ∨ target = state.path then none
  else if ¬ ∃ memory ∈ state.current, key <:+: comparisonKey pass.lower memory.content then none
  else match pass.entityInPass state.proposals target with
  | none => none
  | some entity =>
      if ¬(entity.goesBy pass key ∨ pass.normalizePath value = some entity.path) then none
      else match pass.prefixes.repairProperty (trim relation.property) with
      | none => none
      | some property =>
          if property ∈ pass.dataProperties then none
          else some {
            key := curieKey pass.prefixes attributeKey
            property, target
            sourceMemoryIds := relation.sourceMemoryIds
            declaration := verdict.declarations.find? fun declaration =>
              pass.prefixes.expand declaration.term = pass.prefixes.expand property }

def samePromotion (left right : ReconcilePromotion) : Bool :=
  left.key = right.key && (left.property = right.property && left.target = right.target)

def acceptedPromotions : List ReconcilePromotion :=
  (verdict.entityRelations.filterMap (acceptedPromotion pass state verdict)).foldl
    (fun out promotion => if out.any (samePromotion promotion) then out else out ++ [promotion]) []

def replacedEdges (promotion : ReconcilePromotion) (link : RelationInput) : List (Text × Text) :=
  let was := comparisonKey pass.lower link.was
  let now := comparisonKey pass.lower link.now
  match pass.entityInPass state.proposals promotion.target with
  | none => []
  | some new =>
      if !new.goesBy pass now then []
      else
        (state.links.filter fun old => old.origin = .asserted ∧ old.relation = promotion.property ∧
          old.target ≠ promotion.target).filterMap (fun old =>
            match pass.entityByPath old.target with
            | some page => if page.goesBy pass was then some (promotion.property, old.target) else none
            | none => none) ++
        -- The first component of a pending promotion is its key.
        ((state.proposals.promotionsFor state.path).filter fun held =>
          held.2.2 ≠ promotion.target ∧ held.1 = promotion.property).filterMap fun held =>
            match pass.entityInPass state.proposals held.2.2 with
            | some page => if page.goesBy pass was then some (promotion.property, held.2.2) else none
            | none => none

def namesEntity (content : Text) (entity : WorkingEntity) : Bool :=
  (entity.name :: entity.aliases).any fun name => comparisonKey pass.lower name <:+: content

def outdatedEdges (promotion : ReconcilePromotion) (outdated : Outdated) : List (Text × Text) :=
  match state.current.find? fun memory => memory.id = trim outdated.memory with
  | none => []
  | some memory =>
      (state.links.filter fun old => old.origin = .asserted ∧ old.relation = promotion.property ∧
        old.target ≠ promotion.target).filterMap fun old =>
          match pass.entityByPath old.target with
          | some page =>
              if namesEntity pass (comparisonKey pass.lower memory.content) page then
                some (promotion.property, old.target)
              else none
          | none => none

def replacementRetractions (promotions : List ReconcilePromotion) : List (Text × Text) :=
  let replaced := verdict.relations.flatMap fun related =>
    (related.links.filter fun link => link.relation = .replace).flatMap fun link =>
      promotions.flatMap fun promotion => replacedEdges pass state promotion link
  let retired := promotions.flatMap fun promotion =>
    verdict.outdated.flatMap (outdatedEdges pass state promotion)
  (replaced ++ retired).foldl pushNew []

def mergeExplicitRetractions (retractions : List (Text × Text)) : List (Text × Text) :=
  ((verdict.relationRetractions.map fun item => (trim item.property, trim item.target)).filter
    fun item => item.1 ≠ [] ∧ item.2 ≠ []).foldl pushNew retractions

end Lookups

section Trial

variable (pass : Pass) (state : EntityState) (verdict : EntityVerdict)

def memoryIds (memories : List KnowledgeMemory) : List Text := memories.map KnowledgeMemory.id

def trialRetires : Bool :=
  (verdict.outdated.any fun item => trim item.memory ∈ memoryIds state.current) ||
    verdict.relations.any fun related =>
      trim related.memory ∈ memoryIds state.current &&
        related.links.any fun link =>
          trim link.target != [] && trim link.target ∈ memoryIds state.current

structure Trial where
  update : Option ReconciledEntityUpdate
  promotions : List ReconcilePromotion
  retractions : List (Text × Text)

def trialUpdate : Option ReconciledEntityUpdate :=
  if trialRetires state verdict then none
  else some {
    name := trim verdict.name
    description :=
      if trim verdict.description = [] then state.entity.description else verdict.description
    attributes := keyedAttributes pass state verdict
    attributeSources := keyedSources pass verdict
    declarations := verdict.declarations }

def tryVerdict : Trial where
  update := trialUpdate pass state verdict
  promotions := acceptedPromotions pass state verdict
  retractions := mergeExplicitRetractions verdict
    (replacementRetractions pass state verdict (acceptedPromotions pass state verdict))

def applyUpdate (path : Text) (update : Option ReconciledEntityUpdate) (proposals : ProposalSet WorkingEntity) :
    ProposalSet WorkingEntity :=
  match update with
  | none => proposals
  | some update =>
      (proposals.applyReconciledEntity update.name update.description update.attributes
        update.attributeSources path).addReconcileAttributes pass.prefixes path update.attributes
        update.declarations

def reconcileTrial : ProposalSet WorkingEntity :=
  let trial := tryVerdict pass state verdict
  (applyUpdate pass state.path trial.update state.proposals).addReconcilePromotions pass.prefixes
    state.path trial.promotions trial.retractions

end Trial

section Gate

structure Gate where
  otherRejections : EntityState → EntityVerdict → List Text
  projectionValid : ProposalSet WorkingEntity → Bool

variable (pass : Pass) (gate : Gate) (state : EntityState) (verdict : EntityVerdict)

/-- The submission is accepted: no check rejects it, and what it would stage is consistent. -/
def passesValidation : Bool :=
  (unsupportedReplaces pass.lower verdict.relations state.current).isEmpty &&
    ((unsupportedScopeRelations state.memoryEntities state.path verdict.relations).isEmpty &&
      ((gate.otherRejections state verdict).isEmpty &&
        gate.projectionValid (reconcileTrial pass state verdict)))

end Gate

section Run

variable (pass : Pass) (state : EntityState)

def noMemories : Text := "(no memories yet)".toList

def emptyUpdate : ReconciledEntityUpdate := ⟨[], noMemories, .object ∅, [], []⟩

def stageVerdict (parsed : EntityVerdict) : EntityOutcome :=
  let relations := acceptedRelations pass.lower state.current state.allMemories parsed.relations
  let outdated := acceptedOutdated state.current parsed.outdated
  let promotions := acceptedPromotions pass state parsed
  let retractions := mergeExplicitRetractions parsed
    (replacementRetractions pass state parsed promotions)
  if relations ≠ [] ∨ outdated ≠ [] then
    ⟨true, promotions, retractions, none, ⟨relations, outdated, []⟩⟩
  else {
    reconcileDirty := false
    promotions, retractions
    pageUpdate := some {
      name := trim parsed.name
      description :=
        if trim parsed.description = [] then state.entity.description else parsed.description
      attributes := keyedAttributes pass state parsed
      attributeSources := keyedSources pass parsed
      declarations := parsed.declarations }
    commit := ⟨[], [], parsed.entityRelations.map fun relation => {
      source := state.path
      target := trim relation.target
      relation :=
        (pass.prefixes.repairProperty (trim relation.property)).getD (trim relation.property)
      sourceMemoryIds := relation.sourceMemoryIds }⟩ }

/-- `reconcile_entity`: a verdict is asked for only when the entity has a current memory. -/
def reconcileEntity (answer : Option EntityVerdict) : EntityOutcome :=
  if state.current = [] then { EntityOutcome.skipped with pageUpdate := some emptyUpdate }
  else match answer with
  | none => EntityOutcome.skipped
  | some parsed => stageVerdict pass state parsed

/-- What `run` makes of the proposals with the outcome. -/
def stageOutcome (path : Text) (outcome : EntityOutcome) (proposals : ProposalSet WorkingEntity) : ProposalSet WorkingEntity :=
  (applyUpdate pass path outcome.pageUpdate proposals).addReconcilePromotions pass.prefixes path
    outcome.promotions outcome.retractions

end Run

end Frona.Reconcile
