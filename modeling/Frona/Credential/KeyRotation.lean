import Mathlib.Data.List.AList
import Mathlib.Logic.Function.Basic
import Frona.Machine.Run
import Frona.Text.Utf8

set_option autoImplicit false

namespace Frona.Credential

open Utf8 (Text)

structure Sealed (Key : Type) where
  key : Key
  plaintext : Text

section Reencrypt

variable {Key : Type} [DecidableEq Key]

def decryptWithKey (blob : Sealed Key) (key : Key) : Option Text :=
  if blob.key = key then some blob.plaintext else none

def encryptWithKey (plaintext : Text) (key : Key) : Sealed Key := ⟨key, plaintext⟩

inductive RotateError where
  | alreadyRotated
  | failed

structure KeyRotation (Key : Type) where
  oldKey : Key
  newKey : Key
  newSecret : Text

def KeyRotation.reencrypt (rotation : KeyRotation Key) (blob : Sealed Key) :
    Except RotateError (Sealed Key) :=
  match decryptWithKey blob rotation.oldKey with
  | some plaintext => .ok (encryptWithKey plaintext rotation.newKey)
  | none =>
      match decryptWithKey blob rotation.newKey with
      | some _ => .error .alreadyRotated
      | none => .error .failed

end Reencrypt

inductive RecordTable where
  | vaultConnection
  | credential
  | keypair
  | managedCredential
  deriving DecidableEq

def RecordTable.all : List RecordTable := [vaultConnection, credential, keypair, managedCredential]

-- Only there the response of an update is checked for errors of its statement.
def RecordTable.checks : RecordTable → Bool
  | managedCredential => true
  | _ => false

structure RotationCounts where
  success : Nat
  skipped : Nat
  failed : Nat

abbrev RotationReport : Type := RecordTable → RotationCounts

def RotationReport.empty : RotationReport := fun _ => ⟨0, 0, 0⟩

def RotationReport.allSucceeded (report : RotationReport) : Prop :=
  ∀ table ∈ RecordTable.all, (report table).failed = 0

instance (report : RotationReport) : Decidable report.allSucceeded :=
  inferInstanceAs (Decidable (∀ table ∈ RecordTable.all, (report table).failed = 0))

inductive RowResult where
  | success
  | skipped
  | failed
  deriving DecidableEq

def RotationCounts.add (counts : RotationCounts) : RowResult → RotationCounts
  | .success => { counts with success := counts.success + 1 }
  | .skipped => { counts with skipped := counts.skipped + 1 }
  | .failed => { counts with failed := counts.failed + 1 }

def RotationReport.add (report : RotationReport) (table : RecordTable) (result : RowResult) :
    RotationReport :=
  Function.update report table ((report table).add result)

inductive Outcome where
  | done
  | failed
  | refused
  deriving DecidableEq

section Server

variable (Key : Type)

abbrev Records : Type := AList fun _ : Text => Option (Sealed Key)

inductive Phase where
  | down
  -- The rows of a table that are left, and the tables after it.
  | rotating (rotation : KeyRotation Key) (table : RecordTable)
      (rows : List (Text × Option (Sealed Key))) (later : List RecordTable)
      (report : RotationReport)
  -- `store_secret`, in front of one of its statements.
  | storing (secret : Text) (deleted : Bool)
  | serving

structure Server where
  records : RecordTable → Records Key
  stored : Option Text
  -- The secret of the latest start, and the report of its rotation.
  configured : Option Text
  report : Option RotationReport
  phase : Phase Key
  -- Some update that had no effect was counted as a success. No step reads this.
  miscounted : Bool

end Server

inductive Event where
  | start (secret : Text)
  | next (outcome : Outcome)
  | crash
  | write (table : RecordTable) (id plaintext : Text)
  | remove (table : RecordTable) (id : Text)

section Step

variable {Key : Type} [DecidableEq Key] (deriveKey : Text → Key)

def selectRows (table : RecordTable) (records : Records Key) :
    List (Text × Option (Sealed Key)) :=
  (records.entries.map fun entry => (entry.1, entry.2)).filter fun row =>
    match table with
    | .vaultConnection | .managedCredential => row.2.isSome
    | .credential | .keypair => true

def KeyRotation.rotateRow (rotation : KeyRotation Key) (table : RecordTable)
    (content : Option (Sealed Key)) (outcome : Outcome) : RowResult × Option (Sealed Key) :=
  match content with
  | none => (.skipped, none)
  | some blob =>
      match rotation.reencrypt blob with
      | .error .alreadyRotated => (.skipped, none)
      | .error .failed => (.failed, none)
      | .ok fresh =>
          match outcome with
          | .done => (.success, some fresh)
          | .failed => (.failed, none)
          | .refused => (if table.checks then .failed else .success, none)

def setRecord (records : RecordTable → Records Key) (table : RecordTable) (id : Text)
    (blob : Sealed Key) : RecordTable → Records Key :=
  Function.update records table (AList.insert id (some blob) (records table))

def eraseRecord (records : RecordTable → Records Key) (table : RecordTable) (id : Text) :
    RecordTable → Records Key :=
  Function.update records table (AList.erase id (records table))

namespace Server

variable (server : Server Key)

def put (table : RecordTable) (id : Text) (blob : Sealed Key) : Server Key :=
  { server with records := setRecord server.records table id blob }

/-- `KeyRotation::check`. -/
def start (secret : Text) : Server Key :=
  let begun := { server with configured := some secret, report := none }
  match server.stored with
  | none => { begun with phase := .storing secret false }
  | some stored =>
      if stored = secret then { begun with phase := .serving }
      else { begun with
        phase := .rotating ⟨deriveKey stored, deriveKey secret, secret⟩ .vaultConnection []
          RecordTable.all RotationReport.empty }

/-- The next statement of `KeyRotation::run`. -/
def rotate (rotation : KeyRotation Key) (table : RecordTable)
    (rows : List (Text × Option (Sealed Key))) (later : List RecordTable)
    (report : RotationReport) (outcome : Outcome) : Server Key :=
  match rows, later with
  | [], [] =>
      { server with
        report := some report
        phase := if report.allSucceeded then .storing rotation.newSecret false else .serving }
  | [], selected :: after =>
      if outcome = .done then
        { server with
          phase := .rotating rotation selected (selectRows selected (server.records selected)) after
            report }
      else
        { server with phase := .rotating rotation selected [] after (report.add selected .failed) }
  | (id, content) :: rest, _ =>
      let (result, stored) := rotation.rotateRow table content outcome
      let written := match stored with
        | some blob => server.put table id blob
        | none => server
      { written with
        phase := .rotating rotation table rest later (report.add table result)
        miscounted := server.miscounted || (decide (result = .success) && stored.isNone) }

-- The key of the table is unique: what is not deleted keeps its place.
def store (secret : Text) (deleted : Bool) (outcome : Outcome) : Server Key :=
  match deleted, outcome with
  | _, .failed => { server with phase := .down }
  | false, .done => { server with stored := none, phase := .storing secret true }
  | false, .refused => { server with phase := .storing secret true }
  | true, .done =>
      { server with stored := server.stored.orElse fun _ => some secret, phase := .serving }
  | true, .refused => { server with phase := .serving }

end Server

def step : Event → Server Key → Option (Server Key)
  | .start secret, server => some (server.start deriveKey secret)
  | .crash, server => some { server with phase := .down }
  | .next outcome, server =>
      match server.phase with
      | .rotating rotation table rows later report =>
          some (server.rotate rotation table rows later report outcome)
      | .storing secret deleted => some (server.store secret deleted outcome)
      | _ => none
  | .write table id plaintext, server =>
      match server.phase, server.configured with
      | .serving, some secret =>
          some (server.put table id (encryptWithKey plaintext (deriveKey secret)))
      | _, _ => none
  | .remove table id, server =>
      match server.phase with
      | .serving =>
          some { server with records := eraseRecord server.records table id }
      | _ => none

def Server.new : Server Key where
  records _ := (∅ : AList fun _ : Text => Option (Sealed Key))
  stored := none
  configured := none
  report := none
  phase := .down
  miscounted := false

end Step

end Frona.Credential
