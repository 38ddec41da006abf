import Frona.Machine.Run
import Frona.Pkm.Store

set_option autoImplicit false

namespace Frona.Pkm

open Utf8 (Text)
open Frona.Text (trim)

structure Basis where
  edits : List Nat
  memories : List Nat
  deriving DecidableEq

structure PageRow where
  name : Text
  description : Text
  attributes : Text
  body : Text
  syncContent : Option Text
  rev : Option Text
  updatedAt : Int
  renderedAt : Int
  basis : Basis
  deriving DecidableEq

structure WorkingRow where
  page : PageRow
  existingOnly : Bool
  since : Nat

structure AuthoredPageWrite where
  name : Text
  description : Text
  attributes : Text
  body : Text
  content : Text
  rev : Text

inductive PageCall where
  | idle
  | authoring
  | entityRead (page : PageRow) (since : Nat)
  | stateRead (page : PageRow) (memories : List Nat) (since : Nat) (seen : Option Nat)
  | editing (now : Int) (write : PageEditWrite)
  | inserting (now : Int)
  deriving DecidableEq

structure PageWorld where
  path : Text
  row : PageRow
  working : Option WorkingRow
  memories : List Nat
  edits : List Nat
  nextId : Nat
  calls : Nat → PageCall

structure Answer where
  fails : Bool
  body : Text
  content : Text

inductive PageAction where
  | author (id : Nat)
  | edit (id : Nat) (now : Int) (write : PageEditWrite)
  | insert (id : Nat) (now : Int)
  | openWorking (existingOnly : Bool)
  | nextPass
  | turn (id : Nat) (now : Int) (answer : Answer)

def peopleMe : Text := "people/me".toList

namespace PageWorld

variable (world : PageWorld)

def hasSource : Bool := world.path = peopleMe || world.memories ≠ []

/-- `entities_needing_reconciliation_by_category`. -/
def needsReconciliation : Bool :=
  world.hasSource && decide (world.row.renderedAt < world.row.updatedAt)

def goOn (id : Nat) (call : PageCall) : PageWorld :=
  { world with calls := Function.update world.calls id call }

def entityByPath : PageRow :=
  match world.working with
  | none => world.row
  | some working => if working.existingOnly then world.row else working.page

def viewSince : Nat :=
  match world.working with
  | none => world.edits.length
  | some working => if working.existingOnly then world.edits.length else working.since

def named (new old : Text) : Text := if trim new = [] then old else new

/-- Neither a revision nor a time is compared, and `updated_at` is kept. -/
def commitAuthoredPage (write : AuthoredPageWrite) (basis : Basis) (now : Int) : PageWorld :=
  let row : PageRow := { world.row with
    name := named write.name world.row.name
    description := named write.description world.row.description
    attributes := write.attributes
    body := write.body
    rev := some write.rev
    syncContent := some write.content
    renderedAt := now
    basis }
  { world with row, working := some ⟨row, false, world.edits.length⟩ }

/-- `try_create_sourced_memory`. -/
def createSourcedMemory (now : Int) : PageWorld :=
  { world with
    memories := world.memories ++ [world.nextId]
    nextId := world.nextId + 1
    row := { world.row with updatedAt := now } }

def insertHumanMemory (now : Int) : PageWorld :=
  let basis : Basis :=
    { world.row.basis with memories := world.row.basis.memories ++ [world.nextId] }
  { world.createSourcedMemory now with row := { world.row with updatedAt := now, basis } }

def applyEditOp (now : Int) (world : PageWorld) : PageEditMemoryOp → PageWorld
  | .add _ _ | .supersede _ _ _ _ => world.insertHumanMemory now
  | .setDisposition _ _ => { world with row := { world.row with updatedAt := now } }

def matchesBase (write : PageEditWrite) : Bool :=
  match write.base with
  | .missing => false
  | .revision expected => world.row.rev == some expected && expected != []

def attached (write : PageEditWrite) : Bool :=
  write.memoryOps.all fun op => match op.memoryId? with
    | none => true
    | some id => id ∈ world.memories

def accepts (write : PageEditWrite) : Bool := world.matchesBase write && world.attached write

def applyPageEdit (now : Int) (write : PageEditWrite) : PageWorld :=
  let changed := write.memoryOps.foldl (applyEditOp now) world
  { changed with
    row := { changed.row with
      body := write.body
      syncContent := some write.content
      rev := some write.rev
      basis := { changed.row.basis with edits := changed.row.basis.edits ++ [changed.nextId] } }
    edits := changed.edits ++ [changed.nextId]
    nextId := changed.nextId + 1 }

/-- `try_commit_page_edit_cas`: a conflict changes nothing. -/
def tryCommitPageEdit (now : Int) (write : PageEditWrite) : PageWorld :=
  if world.accepts write then world.applyPageEdit now write else world

end PageWorld

section Steps

variable (sha256Hex : Text → Text)

/-- What `author_page` publishes: the metadata that it has read, and an article of the model. -/
def authoredWrite (page : PageRow) (answer : Answer) : AuthoredPageWrite where
  name := page.name
  description := page.description
  attributes := page.attributes
  body := answer.body
  content := answer.content
  rev := sha256Hex answer.content

def pageTurn (world : PageWorld) (id : Nat) (now : Int) (answer : Answer) : Option PageWorld :=
  match world.calls id with
  | .idle => none
  | .authoring =>
      if answer.fails then some (world.goOn id .idle)
      else some (world.goOn id (.entityRead world.entityByPath world.viewSince))
  | .entityRead page since =>
      -- memories that cannot be read are taken for none
      if answer.fails then some (world.goOn id (.stateRead page [] since none))
      else some (world.goOn id
        (.stateRead page world.memories since (some world.memories.length)))
  | .stateRead page memories _ _ =>
      if answer.fails then some (world.goOn id .idle)
      else
        let basis : Basis := { edits := page.basis.edits, memories }
        some ((world.commitAuthoredPage (authoredWrite sha256Hex page answer) basis now).goOn id
          .idle)
  | .editing stamp write =>
      if answer.fails then some (world.goOn id .idle)
      else some ((world.tryCommitPageEdit stamp write).goOn id .idle)
  | .inserting stamp =>
      if answer.fails then some (world.goOn id .idle)
      else some ((world.createSourcedMemory stamp).goOn id .idle)

def PageWorld.begin (world : PageWorld) (id : Nat) (call : PageCall) : Option PageWorld :=
  if world.calls id = .idle then some (world.goOn id call) else none

def pageStep (action : PageAction) (world : PageWorld) : Option PageWorld :=
  match action with
  | .author id => world.begin id .authoring
  | .edit id now write => world.begin id (.editing now write)
  | .insert id now => world.begin id (.inserting now)
  | .openWorking existingOnly =>
      some { world with working := some ⟨world.row, existingOnly, world.edits.length⟩ }
  | .nextPass => some { world with working := none }
  | .turn id now answer => pageTurn sha256Hex world id now answer

end Steps

end Frona.Pkm
