import Frona.Policy.Sandbox

set_option autoImplicit false

namespace Frona.Policy

open Cedar

inductive AppError where
  | notFound (message : String)
  | validation (message : String)
  | database (message : String)
  | forbidden (message : String)
  | internal (message : String)
  deriving DecidableEq

/-- A row of the policy table; `T` is the type of policy texts. -/
structure StoredPolicy (T : Type) where
  id : String
  userId : Option String
  name : String
  description : String
  policyText : T
  enabled : Bool
  createdAt : Nat
  updatedAt : Nat
  deriving DecidableEq

inductive AccessIntent where
  | allow
  | deny
  | default
  deriving DecidableEq

inductive EntityRef where
  | agent (id : String)
  | mcp (id : String)
  | app (id : String)
  | user (id : String)
  | path (id : String)
  | tool (id : String)
  | toolGroup (id : String)
  | networkDestination (id : String)
  deriving DecidableEq

def EntityRef.cedarType : EntityRef → String
  | .agent _ => entityTypeName "Agent"
  | .mcp _ => entityTypeName "Mcp"
  | .app _ => entityTypeName "App"
  | .user _ => entityTypeName "User"
  | .path _ => entityTypeName "Path"
  | .tool _ => entityTypeName "Tool"
  | .toolGroup _ => entityTypeName "ToolGroup"
  | .networkDestination _ => entityTypeName "NetworkDestination"

def EntityRef.id : EntityRef → String
  | .agent s | .mcp s | .app s | .user s | .path s | .tool s | .toolGroup s
  | .networkDestination s => s

structure AccessOverride where
  resource : EntityRef
  intent : AccessIntent

structure AccessGroup where
  principal : EntityRef
  action : String
  default : Option AccessIntent
  overrides : List AccessOverride

inductive Edit (T : Type) where
  | create (name : String) (policyText : T)
  | delete (policyId : String)
  deriving DecidableEq

inductive ConflictReason where
  | allowBlockedByForbid
  | denyBlockedByPermit
  deriving DecidableEq

structure BlockerPolicy where
  policyId : String
  policyName : String
  deriving DecidableEq

structure GroupConflict where
  principal : EntityRef
  action : String
  failingResource : Option EntityRef
  blockers : List BlockerPolicy
  reason : ConflictReason
  deriving DecidableEq

structure PolicyReconciliationPlan (T : Type) where
  userId : String
  fingerprint : UInt64
  edits : List (Edit T)
  conflicts : List GroupConflict

structure PolicyReconciliationResult where
  created : Nat
  deleted : Nat
  deriving DecidableEq

inductive PolicyReconciliationError where
  | stalePlan
  | conflicts (conflicts : List GroupConflict)
  | db (error : AppError)

section Fingerprint

variable {T : Type}

def fingerprint (digest : List (String × Nat × T) → UInt64) (policies : List (StoredPolicy T)) :
    UInt64 :=
  digest ((policies.mergeSort fun a b => decide (a.id ≤ b.id)).map fun p =>
    (p.id, p.updatedAt, p.policyText))

end Fingerprint

section Repository

variable {T : Type}

/-- What the repository answers from: which of its operations fail and with what error, and the
ids and times that new rows get, by the number of the operation. -/
structure Backend where
  fails : Nat → Bool
  failure : Nat → AppError
  newId : Nat → String
  now : Nat → Nat

structure Repo (T : Type) where
  rows : List (StoredPolicy T)
  ops : Nat
  deriving DecidableEq

abbrev Answer (T A : Type) := Except AppError A × Repo T

def Repo.tick (repo : Repo T) : Repo T := { repo with ops := repo.ops + 1 }

@[simp] theorem Repo.tick_rows (repo : Repo T) : repo.tick.rows = repo.rows := rfl

@[simp] theorem Repo.tick_ops (repo : Repo T) : repo.tick.ops = repo.ops + 1 := rfl

def Repo.query {A : Type} (backend : Backend) (repo : Repo T)
    (read : List (StoredPolicy T) → A) : Answer T A :=
  if backend.fails repo.ops then (.error (backend.failure repo.ops), repo.tick)
  else (.ok (read repo.rows), repo.tick)

def findByUserId (backend : Backend) (userId : String) (repo : Repo T) :
    Answer T (List (StoredPolicy T)) :=
  repo.query backend fun rows => rows.filter fun p => decide (p.userId = some userId)

def findSystemPolicies (backend : Backend) (repo : Repo T) : Answer T (List (StoredPolicy T)) :=
  repo.query backend fun rows => rows.filter fun p => decide (p.userId = none)

def findById (backend : Backend) (id : String) (repo : Repo T) :
    Answer T (Option (StoredPolicy T)) :=
  repo.query backend fun rows => rows.find? fun p => decide (p.id = id)

def delete (backend : Backend) (id : String) (repo : Repo T) : Answer T Unit :=
  if backend.fails repo.ops then (.error (backend.failure repo.ops), repo.tick)
  else (.ok (), ⟨repo.rows.filter fun p => decide (p.id ≠ id), repo.ops + 1⟩)

-- The id is the key of the table, and its index keeps names unique for each user.
def Clashes (rows : List (StoredPolicy T)) (policy : StoredPolicy T) : Prop :=
  ∃ p ∈ rows, p.id = policy.id ∨ p.userId = policy.userId ∧ p.name = policy.name

instance (rows : List (StoredPolicy T)) (policy : StoredPolicy T) :
    Decidable (Clashes rows policy) :=
  inferInstanceAs (Decidable (∃ p ∈ rows, _))

def create (backend : Backend) (policy : StoredPolicy T) (repo : Repo T) :
    Answer T (StoredPolicy T) :=
  if backend.fails repo.ops = true ∨ Clashes repo.rows policy then (.error (backend.failure repo.ops), repo.tick)
  else (.ok policy, ⟨repo.rows ++ [policy], repo.ops + 1⟩)

end Repository

section Commit

variable {T : Type}

def newRow (backend : Backend) (userId name : String) (policyText : T) (op : Nat) :
    StoredPolicy T where
  id := backend.newId op
  userId := some userId
  name := name
  description := ""
  policyText := policyText
  enabled := true
  createdAt := backend.now op
  updatedAt := backend.now op

def commitEdit (backend : Backend) (userId : String) (result : PolicyReconciliationResult) :
    Edit T → Repo T → Answer T PolicyReconciliationResult
  | .delete policyId, repo =>
      match findById backend policyId repo with
      | (.error e, repo) => (.error e, repo)
      | (.ok none, repo) => (.ok result, repo)
      | (.ok (some _), repo) =>
          match delete backend policyId repo with
          | (.error e, repo) => (.error e, repo)
          | (.ok _, repo) => (.ok { result with deleted := result.deleted + 1 }, repo)
  | .create name policyText, repo =>
      match create backend (newRow backend userId name policyText repo.ops) repo with
      | (.error e, repo) => (.error e, repo)
      | (.ok _, repo) => (.ok { result with created := result.created + 1 }, repo)

def commitEdits (backend : Backend) (userId : String) (result : PolicyReconciliationResult) :
    List (Edit T) → Repo T → Answer T PolicyReconciliationResult
  | [], repo => (.ok result, repo)
  | edit :: edits, repo =>
      match commitEdit backend userId result edit repo with
      | (.error e, repo) => (.error e, repo)
      | (.ok result, repo) => commitEdits backend userId result edits repo

def commit (backend : Backend) (digest : List (String × Nat × T) → UInt64)
    (plan : PolicyReconciliationPlan T) (repo : Repo T) :
    Except PolicyReconciliationError PolicyReconciliationResult × Repo T :=
  if !plan.conflicts.isEmpty then (.error (.conflicts plan.conflicts), repo)
  else match findByUserId backend plan.userId repo with
    | (.error e, repo) => (.error (.db e), repo)
    | (.ok userPolicies, repo) =>
        match findSystemPolicies backend repo with
        | (.error e, repo) => (.error (.db e), repo)
        | (.ok systemPolicies, repo) =>
            if fingerprint digest (userPolicies ++ systemPolicies) ≠ plan.fingerprint then
              (.error .stalePlan, repo)
            else match commitEdits backend plan.userId ⟨0, 0⟩ plan.edits repo with
              | (.error e, repo) => (.error (.db e), repo)
              | (.ok result, repo) => (.ok result, repo)

end Commit

end Frona.Policy
