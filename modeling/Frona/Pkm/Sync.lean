import Frona.Pkm.Call

set_option autoImplicit false

namespace Frona.Pkm

open Utf8 (Text stripPrefix)
open Frona.Text (trim isWhitespace)

inductive EditGate where
  | apply (cleanPath headContent : Text)
  | new (cleanPath : Text)
  | conflict (headRev headContent : Text)

inductive EditOp where
  | upsert (path : Text) (baseRev : Option Text) (content : Text)
  | delete (path : Text)

def EditOp.path : EditOp → Text
  | .upsert path _ _ => path
  | .delete path => path

inductive EditResult where
  | accepted (rev : Text)
  | created (rev : Text)
  | conflict (headRev headContent : Text)
  | removed
  | indexed
  | unchanged
  | renamed (count : Nat)
  deriving DecidableEq

structure PageContent where
  path : Text
  rev : Text
  content : Text

def splitOnce (pattern : Text) : Text → Option (Text × Text)
  | [] => if pattern = [] then some ([], []) else none
  | c :: rest =>
      if pattern.isPrefixOf (c :: rest) then some ([], (c :: rest).drop pattern.length)
      else (splitOnce pattern rest).map fun (before, after) => (c :: before, after)

def history : Text := "\n## History".toList

def frontmatterStart : Text := "---\n".toList

def frontmatterEnd : Text := "\n---\n".toList

def dropFrontmatter (page : Text) : Text :=
  (((stripPrefix frontmatterStart page).bind (splitOnce frontmatterEnd)).map Prod.snd).getD page

def dropTitle (body : Text) : Text :=
  match stripPrefix ['#', ' '] body, splitOnce ['\n'] body with
  | some _, some (_, rest) => rest.dropWhile isWhitespace
  | _, _ => body

def extractBody (page : Text) : Text :=
  let body := dropTitle ((dropFrontmatter page).dropWhile isWhitespace)
  trim (((splitOnce history body).map Prod.fst).getD body)

def resetMessage : Text := "PKM reset is in progress".toList

def notUnderMemory (path : Text) : Text :=
  "path not under the Memory directory: ".toList ++ path

def renameNotInMemory (role path : Text) : Text :=
  "rename ".toList ++ role ++ " not in Memory: ".toList ++ path

def noPages (path : Text) : Text := "no pages under directory: ".toList ++ path

def targetExists (path : Text) : Text := "rename target already exists: ".toList ++ path

def pageNameRequired : Text := "new page edit requires a page name".toList

structure PkmSyncService where
  vault : VaultScope
  sha256Hex : Text → Text

namespace PkmSyncService

variable (service : PkmSyncService) (env : Environment)

-- The bytes stored with a revision, when they hash to it; else the file.
def headContent (row : KnowledgeEntity) (rev path : Text) (files : Files) : Option Text :=
  (row.syncContent.filter fun content => service.sha256Hex content = rev).or
    (service.vault.readPage path files)

def getPage (world : World) (vaultPath : Text) : Option PageContent := do
  let clean ← service.vault.pageFromAny vaultPath
  let page ← world.db.entityByPath clean
  let rev ← page.rev
  let content ← service.headContent page rev clean world.files
  return ⟨service.vault.vaultPath clean, rev, content⟩

def getPages (world : World) (vaultPaths : List Text) : List PageContent :=
  vaultPaths.filterMap (service.getPage world)

def gate (path : Text) (baseRev : Option Text) (world : World) : EditGate :=
  match world.db.entityByPath path with
  | none => .new path
  | some page =>
      let headRev := page.rev.getD []
      let head := (service.headContent page headRev path world.files).getD []
      if baseRev = some headRev ∧ headRev ≠ [] then .apply path head else .conflict headRev head

def checkEdit (vaultPath : Text) (baseRev : Option Text) : Call EditGate := do
  match service.vault.pageFromAny vaultPath with
  | none => Call.fail (.validation (notUnderMemory vaultPath))
  | some clean => return service.gate clean baseRev (← Call.get)

/-- `commit_page_edit_cas`. -/
def commitPageEditCas (path : Text) (write : PageEditWrite) : Call PageEditCommit :=
  if write.base = .missing ∧ write.newPageName = none then
    Call.fail (.validation pageNameRequired)
  else statement env .pageEdit fun db => db.tryCommitPageEdit path write

def commitEdit (path head : Text) (base : PageEditBase) (newPageName : Option Text)
    (content : Text) : Call EditResult := do
  let memoryOps ← Call.fromExcept (env.plan path head content)
  let rev := service.sha256Hex content
  let write : PageEditWrite :=
    { base, newPageName, body := extractBody content, content, rev, memoryOps }
  match ← commitPageEditCas env path write with
  | .applied =>
      service.vault.writePage env path content
      return if newPageName.isSome then .created rev else .accepted rev
  | .conflict headRev headContent =>
      let stored := headContent.or (service.vault.readPage path (← Call.get).files)
      return .conflict (headRev.getD []) (stored.getD [])

def upsertPage (path : Text) (baseRev : Option Text) (content : Text) : Call EditResult := do
  match ← service.checkEdit path baseRev with
  | .new clean => service.commitEdit env clean [] .missing (some (lastSegment clean)) content
  | .apply clean head =>
      service.commitEdit env clean head (.revision (baseRev.getD [])) none content
  | .conflict headRev headContent => return .conflict headRev headContent

-- Every memory in turn, each with a statement of its own.
def markErroneous : List KnowledgeMemory → Call Unit
  | [] => pure ()
  | memory :: memories => do
      if memory.disposition ≠ .erroneous then
        update env (.disposition memory.id) fun db => db.setDisposition memory.id .erroneous
      markErroneous memories

def deletePage (path : Text) : Call EditResult := do
  markErroneous env ((← Call.get).db.memoriesForEntity path)
  update env .deleteEntity fun db => db.deleteEntity path
  Call.attempt (service.vault.deletePage env path)
  return .removed

def dropDerivedMemories : List Nat → Call Unit
  | [] => pure ()
  | id :: ids => do
      update env (.deleteMemory id) fun db => db.deleteMemory id
      dropDerivedMemories ids

def upsertExternal (path content rev : Text) : Call ExternalPageProgress := fun world =>
  match world.db.upsertExternalPage path content rev with
  | .refused message => (.error (.conflict message), world)
  | .unchanged progress => (.ok progress, world)
  | .stored db =>
      if env.refuses .externalPage then (.error .database, world)
      else (.ok ⟨rev, true, true⟩, { world with db })

-- Extraction may fail, and then changes nothing.
def extractExternal (path content : Text) : Call Unit := fun world =>
  match env.extract path content world.db with
  | .ok db => (.ok (), { world with db })
  | .error _ => (.ok (), world)

-- Whether the note is still the one that was accepted.
def mirrorNote (path content rev : Text) : Call Bool := do
  writeUserNote env path content
  statement env .externalMirrored fun db => db.markExternalPageMirrored path rev

def finishIngest (path content : Text) (progress : ExternalPageProgress) : Call EditResult := do
  if progress.extractionPending then extractExternal env path content
  return .indexed

def ingestUpsert (path content : Text) : Call EditResult := do
  let rev := service.sha256Hex content
  let progress ← upsertExternal env path content rev
  if progress.isComplete then return .unchanged
  if progress.mirrorPending then
    if ← mirrorNote env path content progress.rev then finishIngest env path content progress
    else return .indexed
  else finishIngest env path content progress

def ingestDelete (path : Text) : Call EditResult := do
  dropDerivedMemories env ((← Call.get).db.derivedMemories path)
  update env .deleteExternal fun db => db.deleteExternalRow path
  Call.attempt (deleteUserNote env path)
  return .removed

def ingestExternal : EditOp → Call EditResult
  | .upsert path _ content => service.ingestUpsert env (trimEndMd path) content
  | .delete path => ingestDelete env (trimEndMd path)

def applyEdit (op : EditOp) : Call EditResult := do
  if env.resetInProgress then Call.fail (.conflict resetMessage)
  else match service.vault.pageFromAny op.path with
  | none => service.ingestExternal env op
  | some clean =>
      match op with
      | .delete _ => service.deletePage env clean
      | .upsert path baseRev content => service.upsertPage env path baseRev content

def writePageAndRev (path file : Text) : Call Text := do
  setPageProjection env path file (service.sha256Hex file)
  service.vault.writePage env path file
  return service.sha256Hex file

def restampRev (path : Text) : Call (Option Text) := do
  match service.vault.readPage path (← Call.get).files with
  | none => return none
  | some content =>
      setPageProjection env path content (service.sha256Hex content)
      return some (service.sha256Hex content)

def pageEverywhere (source target : Text) : Call Unit := do
  let linkers := (← Call.get).db.entitiesLinkingTo source
  renameEntities env [(source, target)]
  Call.attempt (service.vault.movePageFile env source target)
  service.vault.rewriteLinks env linkers source target

def rewriteLinksAfterMove (source target : Text) : Call Unit := do
  service.vault.rewriteLinks env ((← Call.get).db.entitiesLinkingTo target) source target

def movePage (source target : Text) : Call Text := do
  service.pageEverywhere env source target
  return (← service.restampRev env target).getD []

def vaultToPage (role vaultPath : Text) : Except AppError Text :=
  match service.vault.pageFromAny vaultPath with
  | some page => .ok page
  | none => .error (.validation (renameNotInMemory role vaultPath))

def sourceRole : Text := "source".toList

def targetRole : Text := "target".toList

def renameOne (fromPath toPath : Text) : Call EditResult := do
  let source ← Call.fromExcept (service.vaultToPage sourceRole fromPath)
  let target ← Call.fromExcept (service.vaultToPage targetRole toPath)
  let world ← Call.get
  match world.db.entityByPath target with
  | some occupant =>
      return .conflict (occupant.rev.getD []) ((service.vault.readPage target world.files).getD [])
  | none => return .accepted (← service.movePage env source target)

/-- Every page under `source/` with its place under `target/`. -/
def dirMoves (source target : Text) (db : Database) : List (Text × Text) :=
  db.paths.filterMap fun old =>
    (stripPrefix (source ++ ['/']) old).map fun rest => (old, target ++ '/' :: rest)

-- The first target that is a page which does not move itself.
def occupiedTarget (moves : List (Text × Text)) (db : Database) : Option Text :=
  (moves.map Prod.snd).find? fun new =>
    new ∉ moves.map Prod.fst ∧ (db.entityByPath new).isSome

def moveFiles : List (Text × Text) → Call Unit
  | [] => pure ()
  | (old, new) :: rest => do
      Call.attempt (service.vault.movePageFile env old new)
      let _ ← service.restampRev env new
      moveFiles rest

def relinkMoves : List (Text × Text) → Call Unit
  | [] => pure ()
  | (old, new) :: rest => do
      service.rewriteLinksAfterMove env old new
      relinkMoves rest

def moveDir (moves : List (Text × Text)) : Call EditResult := do
  renameEntities env moves
  service.moveFiles env moves
  service.relinkMoves env moves
  return .renamed moves.length

def renameDir (fromPath toPath : Text) : Call EditResult := do
  let source ← Call.fromExcept (service.vaultToPage sourceRole fromPath)
  let target ← Call.fromExcept (service.vaultToPage targetRole toPath)
  let db := (← Call.get).db
  let moves := dirMoves source target db
  if moves = [] then Call.fail (.notFound (noPages fromPath))
  else match occupiedTarget moves db with
  | some new => Call.fail (.conflict (targetExists new))
  | none => service.moveDir env moves

-- `trim_end_matches('/')`, then `ends_with(".md")`.
def namesFile (path : Text) : Bool :=
  ['d', 'm', '.'].isPrefixOf (path.reverse.dropWhile isSlash)

/-- A source that ends in `.md` is a page; any other is a directory. -/
def rename (fromPath toPath : Text) : Call EditResult := do
  if env.resetInProgress then Call.fail (.conflict resetMessage)
  else if namesFile fromPath then service.renameOne env fromPath toPath
  else service.renameDir env fromPath toPath

end PkmSyncService

end Frona.Pkm
