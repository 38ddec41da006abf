import Frona.Reconcile.Memory
import Mathlib.Data.List.Destutter
import Mathlib.Data.List.Sort

set_option autoImplicit false

namespace Frona.Reconcile

open Utf8 (Text)
open Frona.Text (trim isWhitespace)

structure RelationInput where
  relation : RelationType
  target : Text
  was : Text
  now : Text
  note : Text
  derivedFromProperty : Bool

structure Related where
  memory : Text
  links : List RelationInput

structure Outdated where
  memory : Text
  note : Text

structure ReconcileMemoryRelationWrite where
  subordinateId : Text
  relation : RelationType
  targetId : Text
  note : Text
  deriving DecidableEq

structure ReconcileOutdatedWrite where
  memoryId : Text
  reason : Text
  deriving DecidableEq

/-- `split_whitespace`, joined by single blanks. -/
def joinWords (text : Text) : Text :=
  List.intercalate [' '] ((text.splitOnP isWhitespace).filter fun word => !word.isEmpty)

section Support

-- `str::to_lowercase`
variable (lower : Text → Text)

def comparisonKey (text : Text) : Text := lower (joinWords text)

def contentOf (memories : List KnowledgeMemory) (id : Text) : Option Text :=
  (memories.find? fun memory => memory.id = id).map fun memory => comparisonKey lower memory.content

def replaceIsSupported (link : RelationInput) (older newer : Text)
    (memories : List KnowledgeMemory) : Bool :=
  let was := comparisonKey lower link.was
  let now := comparisonKey lower link.now
  if was.isEmpty || (now.isEmpty || decide (was = now)) then false
  else match contentOf lower memories older, contentOf lower memories newer with
    | some old, some new => decide (was <:+: old) && decide (now <:+: new)
    | _, _ => false

def unsupportedReplace (memories : List KnowledgeMemory) (subordinate : Text)
    (link : RelationInput) : Bool :=
  link.relation = .replace && (!link.derivedFromProperty &&
    !replaceIsSupported lower link subordinate (trim link.target) memories)

def unsupportedReplaces (relations : List Related) (memories : List KnowledgeMemory) :
    List (Text × RelationInput) :=
  relations.flatMap fun related =>
    (related.links.filter (unsupportedReplace lower memories (trim related.memory))).map
      fun link => (trim related.memory, link)

end Support

structure ScopeRejection where
  relation : RelationType
  subordinate : Text
  subordinatePages : List Text
  survivor : Text
  survivorPages : List Text

section Scope

variable (memoryEntities : Text → Option (List Text)) (currentPage : Text)

def scopeIsSafe (relation : RelationType) (subordinatePages survivorPages : List Text) : Bool :=
  match relation with
  | .replace => decide (currentPage ∈ subordinatePages) && decide (currentPage ∈ survivorPages)
  | .duplicate | .absorbed => decide (subordinatePages = survivorPages)

def scopeRejection (subordinate : Text) (subordinatePages : List Text) (link : RelationInput) :
    Option ScopeRejection :=
  match memoryEntities (trim link.target) with
  | none => none
  | some survivorPages =>
      if scopeIsSafe currentPage link.relation subordinatePages survivorPages then none
      else some ⟨link.relation, subordinate, subordinatePages, trim link.target, survivorPages⟩

def unsupportedScopeRelations (relations : List Related) : List ScopeRejection :=
  relations.flatMap fun related =>
    match memoryEntities (trim related.memory) with
    | none => []
    | some pages =>
        related.links.filterMap (scopeRejection memoryEntities currentPage (trim related.memory)
          pages)

end Scope

section Accept

variable (lower : Text → Text) (memories allMemories : List KnowledgeMemory)

def acceptedLink (subordinate : Text) (link : RelationInput) :
    Option ReconcileMemoryRelationWrite :=
  let target := trim link.target
  if target = [] ∨ target = subordinate ∨ target ∉ allMemories.map KnowledgeMemory.id then none
  else if unsupportedReplace lower memories subordinate link then none
  else some ⟨subordinate, link.relation, target, trim link.note⟩

def acceptedRelations (relations : List Related) : List ReconcileMemoryRelationWrite :=
  relations.flatMap fun related =>
    if trim related.memory ∈ memories.map KnowledgeMemory.id then
      related.links.filterMap (acceptedLink lower memories allMemories (trim related.memory))
    else []

def acceptedOutdated (outdated : List Outdated) : List ReconcileOutdatedWrite :=
  outdated.filterMap fun item =>
    if trim item.memory ∈ memories.map KnowledgeMemory.id then
      some ⟨trim item.memory, trim item.note⟩
    else none

end Accept

end Frona.Reconcile
