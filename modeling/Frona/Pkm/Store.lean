import Frona.Pkm.Path

set_option autoImplicit false

namespace Frona.Pkm

open Utf8 (Text)

inductive EntityOrigin where
  | internal
  | external
  deriving DecidableEq

structure KnowledgeEntity where
  id : Nat
  path : Text
  origin : EntityOrigin
  name : Text
  body : Text
  syncContent : Option Text
  mirroredRev : Option Text
  extractedRev : Option Text
  rev : Option Text
  deriving DecidableEq

structure KnowledgeEntityLink where
  fromEntityPath : Text
  toEntityPath : Text
  relation : Text

structure KnowledgeEntitySource where
  memoryId : Nat
  entityPath : Text
  deriving DecidableEq

inductive MemoryKind where
  | identity | preference | fact | reference | episodic | procedural
  deriving DecidableEq

inductive Disposition where
  | none | outdated | erroneous | suspect
  deriving DecidableEq

inductive EvidenceSource where
  | humanEdit (pagePath quote : Text)
  | externalNote (note : Text)
  | conversation
  deriving DecidableEq

-- Only `Replace` is added by a page edit.
structure MemoryRelation where
  target : Nat
  note : Text
  deriving DecidableEq

structure KnowledgeMemory where
  id : Nat
  kind : MemoryKind
  content : Text
  disposition : Disposition
  replacedBy : List MemoryRelation
  evidence : List EvidenceSource
  deriving DecidableEq

structure Database where
  entities : List KnowledgeEntity
  links : List KnowledgeEntityLink
  sources : List KnowledgeEntitySource
  memories : List KnowledgeMemory
  nextId : Nat

def Database.paths (db : Database) : List Text := db.entities.map KnowledgeEntity.path

def Database.entityByPath (db : Database) (path : Text) : Option KnowledgeEntity :=
  db.entities.find? fun row => row.path = path

def Database.entitiesLinkingTo (db : Database) (path : Text) : List Text :=
  (db.links.filter fun link => link.toEntityPath = path).map KnowledgeEntityLink.fromEntityPath

-- The newest memory first.
def Database.memoriesForEntity (db : Database) (path : Text) : List KnowledgeMemory :=
  (db.memories.filter fun memory => ⟨memory.id, path⟩ ∈ db.sources).reverse

def Database.setDisposition (db : Database) (id : Nat) (disposition : Disposition) : Database :=
  { db with memories := db.memories.map fun memory =>
      if memory.id = id then { memory with disposition } else memory }

def Database.deleteEntity (db : Database) (path : Text) : Database :=
  { db with
    entities := db.entities.filter fun row => row.path ≠ path
    links := db.links.filter fun link => link.fromEntityPath ≠ path ∧ link.toEntityPath ≠ path }

def Database.deleteMemory (db : Database) (id : Nat) : Database :=
  { db with
    sources := db.sources.filter fun source => source.memoryId ≠ id
    memories := db.memories.filter fun memory => memory.id ≠ id }

def Database.setPageProjection (db : Database) (path content rev : Text) : Database :=
  { db with entities := db.entities.map fun row =>
      if row.path = path then { row with rev := some rev, syncContent := some content } else row }

def repoint (source target path : Text) : Text := if path = source then target else path

def Database.repointEdges (db : Database) (source target : Text) : Database :=
  { db with
    sources := db.sources.map fun row =>
      { row with entityPath := repoint source target row.entityPath }
    links := db.links.map fun link =>
      { link with
        fromEntityPath := repoint source target link.fromEntityPath
        toEntityPath := repoint source target link.toEntityPath } }

def Database.moveRow (db : Database) (source target : Text) : Database :=
  { db with entities := db.entities.map fun row =>
      { row with path := repoint source target row.path } }

/-- `(user_id, path)` is unique: a row cannot be moved onto another one. -/
def Database.Occupied (db : Database) (source target : Text) : Prop :=
  source ≠ target ∧ source ∈ db.paths ∧ target ∈ db.paths

instance (db : Database) (source target : Text) : Decidable (db.Occupied source target) :=
  inferInstanceAs (Decidable (_ ∧ _))

/--
`rename_entities`: the moves one after the other in one transaction. No statement is checked on
its own: one that breaks the unique index either makes the commit fail or leaves its row behind.
-/
def Database.renameEntities (db : Database) (uniqueAborts : Bool) :
    List (Text × Text) → Option Database
  | [] => some db
  | (source, target) :: rest =>
      let moved := db.repointEdges source target
      if db.Occupied source target then
        if uniqueAborts then none else moved.renameEntities uniqueAborts rest
      else (moved.moveRow source target).renameEntities uniqueAborts rest

inductive PageEditBase where
  | missing
  | revision (rev : Text)
  deriving DecidableEq

inductive PageEditMemoryOp where
  | add (kind : MemoryKind) (content : Text)
  | supersede (olderId : Nat) (kind : MemoryKind) (content note : Text)
  | setDisposition (memoryId : Nat) (disposition : Disposition)
  deriving DecidableEq

structure PageEditWrite where
  base : PageEditBase
  newPageName : Option Text
  body : Text
  content : Text
  rev : Text
  memoryOps : List PageEditMemoryOp
  deriving DecidableEq

inductive PageEditCommit where
  | applied
  | conflict (headRev headContent : Option Text)

def matchesBase : PageEditBase → Option KnowledgeEntity → Bool
  | .missing, none => true
  | .revision expected, some row => row.rev == some expected && expected != []
  | _, _ => false

def PageEditMemoryOp.memoryId? : PageEditMemoryOp → Option Nat
  | .add _ _ => none
  | .supersede olderId _ _ _ => some olderId
  | .setDisposition memoryId _ => some memoryId

-- Every memory that an edit names is still attached to the page.
def Database.attached (db : Database) (path : Text) (ops : List PageEditMemoryOp) : Bool :=
  ops.all fun op => match op.memoryId? with
    | none => true
    | some id => ⟨id, path⟩ ∈ db.sources

def Database.insertEntity (db : Database) (path name : Text) (origin : EntityOrigin)
    (body : Text) (rev : Option Text) : Database :=
  { db with
    entities := db.entities ++ [{
      id := db.nextId, path, origin, name, body
      syncContent := none, mirroredRev := none, extractedRev := none, rev }]
    nextId := db.nextId + 1 }

def Database.insertHumanMemory (db : Database) (path : Text) (kind : MemoryKind)
    (content : Text) : Database :=
  { db with
    memories := db.memories ++ [{
      id := db.nextId, kind, content, disposition := .none, replacedBy := []
      evidence := [.humanEdit path content] }]
    sources := db.sources ++ [⟨db.nextId, path⟩]
    nextId := db.nextId + 1 }

def Database.memoryEntityPaths (db : Database) (id : Nat) : List Text :=
  ((db.sources.filter fun source => source.memoryId = id).map
    KnowledgeEntitySource.entityPath).dedup

def Database.supersede (db : Database) (path : Text) (olderId : Nat) (kind : MemoryKind)
    (content note : Text) : Database :=
  let newerId := db.nextId
  let inserted := db.insertHumanMemory path kind content
  let others := (inserted.memoryEntityPaths olderId).filter fun other => other ≠ path
  { inserted with
    sources := inserted.sources ++ others.map fun other => ⟨newerId, other⟩
    memories := inserted.memories.map fun memory =>
      if memory.id = olderId then
        { memory with replacedBy := memory.replacedBy ++ [⟨newerId, note⟩] }
      else memory }

def Database.applyMemoryOp (db : Database) (path : Text) : PageEditMemoryOp → Database
  | .add kind content => db.insertHumanMemory path kind content
  | .supersede olderId kind content note => db.supersede path olderId kind content note
  | .setDisposition memoryId disposition => db.setDisposition memoryId disposition

def Database.writePage (db : Database) (path : Text) (write : PageEditWrite) : Database :=
  { db with entities := db.entities.map fun row =>
      if row.path = path then
        { row with body := write.body, syncContent := some write.content, rev := some write.rev }
      else row }

def Database.insertMissing (db : Database) (path : Text) (write : PageEditWrite) : Database :=
  match db.entityByPath path with
  | none => db.insertEntity path (write.newPageName.getD path) .internal [] none
  | some _ => db

/-- What `try_commit_page_edit_cas` writes once its checks have passed. -/
def Database.applyPageEdit (db : Database) (path : Text) (write : PageEditWrite) : Database :=
  (write.memoryOps.foldl (fun db op => db.applyMemoryOp path op)
    (db.insertMissing path write)).writePage path write

/-- `try_commit_page_edit_cas`: one transaction, or a conflict that changes nothing. -/
def Database.tryCommitPageEdit (db : Database) (path : Text) (write : PageEditWrite) :
    PageEditCommit × Database :=
  let current := db.entityByPath path
  if matchesBase write.base current && db.attached path write.memoryOps then
    (.applied, db.applyPageEdit path write)
  else (.conflict (current.bind KnowledgeEntity.rev) (current.bind KnowledgeEntity.syncContent), db)

structure ExternalPageProgress where
  rev : Text
  mirrorPending : Bool
  extractionPending : Bool
  deriving DecidableEq

def ExternalPageProgress.isComplete (progress : ExternalPageProgress) : Bool :=
  !progress.mirrorPending && !progress.extractionPending

def externalPageProgress (row : KnowledgeEntity) (rev : Text) : ExternalPageProgress :=
  ⟨rev, row.mirroredRev != some rev, row.extractedRev != some rev⟩

def cannotReplace (path : Text) : Text :=
  "cannot replace Internal PKM entity ".toList ++ path ++ " with an External note".toList

def Database.updateExternal (db : Database) (path body rev : Text) : Database :=
  { db with entities := db.entities.map fun row =>
      if row.path = path then { row with body, rev := some rev } else row }

/-- `path.rsplit('/').next()`. -/
def lastSegment (path : Text) : Text := (path.reverse.takeWhile fun c => !isSlash c).reverse

-- What an external note's row becomes; nothing when its revision is already stored.
inductive ExternalUpsert where
  | refused (message : Text)
  | unchanged (progress : ExternalPageProgress)
  | stored (db : Database)

def Database.upsertExternalPage (db : Database) (path body rev : Text) : ExternalUpsert :=
  match db.entityByPath path with
  | some row =>
      if row.origin ≠ .external then .refused (cannotReplace path)
      else if row.rev = some rev then .unchanged (externalPageProgress row rev)
      else .stored (db.updateExternal path body rev)
  | none => .stored (db.insertEntity path (lastSegment path) .external body (some rev))

def KnowledgeEntity.mirrors (row : KnowledgeEntity) (path rev : Text) : Bool :=
  row.path == path && row.origin == .external && row.rev == some rev

def Database.markExternalPageMirrored (db : Database) (path rev : Text) : Bool × Database :=
  (db.entities.any fun row => row.mirrors path rev,
    { db with entities := db.entities.map fun row =>
        if row.mirrors path rev then { row with mirroredRev := some rev } else row })

def Database.derivedMemories (db : Database) (note : Text) : List Nat :=
  (db.memories.filter fun memory => .externalNote note ∈ memory.evidence).map KnowledgeMemory.id

def Database.deleteExternalRow (db : Database) (path : Text) : Database :=
  { db with entities := db.entities.filter fun row => ¬(row.path = path ∧ row.origin = .external) }

end Frona.Pkm
