import Frona.Pkm.CallSpec
import Frona.Text.Words

set_option autoImplicit false

namespace Frona.Pkm

open Utf8 (Text stripPrefix)
open Frona.Text (trim)

def Call.result {A : Type} (call : Call A) : Call (Except AppError A) := fun world =>
  (.ok (call world).1, (call world).2)

@[simp] theorem Call.result_apply {A : Type} (call : Call A) (world : World) :
    Call.result call world = (.ok (call world).1, (call world).2) := rfl

section Frontmatter

def uidLine (line : Text) : Option Text :=
  (stripPrefix "uid:".toList line).bind fun value => nonEmpty (trim value)

/-- The `uid:` of a file's frontmatter. -/
def parseUid (content : Text) : Option Text := do
  let rest ← stripPrefix "---\n".toList content
  let stop ← Utf8.find rest "\n---".toList
  let head ← Utf8.slice rest 0 stop
  (lines head).findSome? uidLine

end Frontmatter

-- `Path::extension` is `md`: a file named `.md` has no extension.
def isMarkdown (name : Text) : Bool := extension.isSuffixOf name && name != extension

structure ReconcileReport where
  relocated : Nat
  rerendered : Nat
  deduped : Nat
  deriving DecidableEq

structure Recovery extends PkmSyncService where
  fingerprint : Text → Text
  recordId : Nat → Text

structure Boot extends Environment where
  vaultFound : Bool
  walk : Files → List (List Text)
  composePage : KnowledgeEntity → Database → Text

namespace Recovery

variable (recovery : Recovery) (boot : Boot)

def contentFingerprint (content : Text) : Text := recovery.fingerprint content

def pageFingerprint (path : Text) : Call (Option Text) := do
  let key ← Call.fromExcept (recovery.vault.pageKey path)
  return ((← Call.get).files key).map recovery.fingerprint

/-- Every `.md` file below the Memory directory, as its page path and its `uid`. -/
def listPageFiles (files : Files) : List (Text × Option Text) :=
  (boot.walk files).filterMap fun rel =>
    if rel.getLast?.any isMarkdown && trimEndMd (joinSlash rel) != [] then
      some (trimEndMd (joinSlash rel),
        (files (components recovery.vault.directory ++ rel)).bind parseUid)
    else none

def adoptLegacyFile (page : KnowledgeEntity) : Call Unit := do
  match recovery.vault.readPage page.path (← Call.get).files with
  | none => pure ()
  | some content =>
      setPageProjection boot.toEnvironment page.path content (recovery.sha256Hex content)

def mirrorPage (page : KnowledgeEntity) (report : ReconcileReport) :
    Call (Bool × ReconcileReport) := do
  match ← recovery.pageFingerprint page.path with
  | none => return (true, report)
  | some held =>
      match page.syncContent with
      | some content =>
          if held ≠ recovery.contentFingerprint content then
            recovery.vault.writePage boot.toEnvironment page.path content
            return (false, { report with rerendered := report.rerendered + 1 })
          else return (false, report)
      | none =>
          recovery.adoptLegacyFile boot page
          return (false, report)

def mirrorPages : List KnowledgeEntity → ReconcileReport → Call (Bool × ReconcileReport)
  | [], report => return (false, report)
  | page :: pages, report => do
      let (missing, report) ← recovery.mirrorPage boot page report
      let (others, report) ← mirrorPages pages report
      return (missing || others, report)

def deleteAll : List Text → Call Nat
  | [] => return 0
  | copy :: copies => do
      let deleted ← Call.result (recovery.vault.deletePage boot.toEnvironment copy)
      let count ← deleteAll copies
      return match deleted with
        | .ok _ => count + 1
        | .error _ => count

def renderPageFromDb (page : KnowledgeEntity) : Call Text := do
  match page.syncContent.filter fun content => page.rev = some (recovery.sha256Hex content) with
  | some content => recovery.writePageAndRev boot.toEnvironment page.path content
  | none =>
      let file := boot.composePage page (← Call.get).db
      recovery.writePageAndRev boot.toEnvironment page.path file

section Copies

variable (listed : List (Text × Option Text)) (page : KnowledgeEntity)

/-- Where the files with the page's `uid` are. -/
def locations : List Text :=
  (listed.filter fun item => item.2 = some (recovery.recordId page.id)).map Prod.fst

def stale : List Text := (recovery.locations listed page).filter fun copy => copy ≠ page.path

def dedup (copies : List Text) (report : ReconcileReport) : Call ReconcileReport := do
  let deleted ← recovery.deleteAll boot copies
  return { report with deduped := report.deduped + deleted }

def relocate (source : Text) (report : ReconcileReport) : Call ReconcileReport := do
  match ← Call.result (recovery.vault.movePageFile boot.toEnvironment source page.path) with
  | .error _ => return report
  | .ok _ =>
      recovery.adoptLegacyFile boot page
      return { report with relocated := report.relocated + 1 }

def restorePage (report : ReconcileReport) : Call ReconcileReport := do
  let stale := recovery.stale listed page
  if page.path ∈ recovery.locations listed page then recovery.dedup boot stale report
  else match page.syncContent with
  | some content =>
      recovery.vault.writePage boot.toEnvironment page.path content
      recovery.dedup boot stale { report with rerendered := report.rerendered + 1 }
  | none =>
      match stale with
      | source :: copies =>
          let report ← recovery.relocate boot page source report
          recovery.dedup boot copies report
      | [] =>
          match ← Call.result (recovery.renderPageFromDb boot page) with
          | .ok _ => return { report with rerendered := report.rerendered + 1 }
          | .error _ => return report

end Copies

def restorePages (listed : List (Text × Option Text)) :
    List KnowledgeEntity → ReconcileReport → Call ReconcileReport
  | [], report => return report
  | page :: pages, report => do
      let report ← recovery.restorePage boot listed page report
      restorePages listed pages report

def reconcileUserFiles (pages : List KnowledgeEntity) : Call ReconcileReport := do
  if !boot.vaultFound then return ⟨0, 0, 0⟩
  else
    let (missing, report) ← recovery.mirrorPages boot pages ⟨0, 0, 0⟩
    if !missing then return report
    else
      let listed := recovery.listPageFiles boot (← Call.get).files
      recovery.restorePages boot listed pages report

end Recovery

/-- `all_internal_entities` of one user. -/
def Database.internalEntities (db : Database) : List KnowledgeEntity :=
  db.entities.filter fun row => row.origin = .internal

end Frona.Pkm
