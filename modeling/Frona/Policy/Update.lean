import Frona.Policy.Authorize
import Frona.Policy.Model

set_option autoImplicit false

namespace Frona.Policy

section Invalidate

variable {T S : Type}

def invalidateCache (userId : String) (state : ServiceState T S) : ServiceState T S where
  rows := state.rows
  policyCache := state.policyCache.retain fun key => decide (key ≠ userId)
  decisionCache := state.decisionCache.retain fun key => !keyOf userId key
  agentToolsCache := state.agentToolsCache.retain fun key => !keyOf userId key

end Invalidate

section Update

variable {T S M : Type} (service : PolicyService T S M)

structure Stamp where
  id : String
  now : Nat
  clash : AppError

def findByName (userId name : String) (rows : List (StoredPolicy T)) : Option (StoredPolicy T) :=
  rows.find? fun p => decide (p.userId = some userId ∧ p.name = name)

def nameTaken (name : String) : AppError :=
  .validation ("Policy with @id \"" ++ name ++ "\" already exists")

-- The row of a policy that the user may change.
def ownPolicy (userId id : String) (rows : List (StoredPolicy T)) :
    Except AppError (StoredPolicy T) :=
  match rows.find? fun p => decide (p.id = id) with
  | none => .error (.notFound "Policy not found")
  | some policy =>
      if policy.userId ≠ some userId then .error (.forbidden "Not your policy") else .ok policy

def createPolicy (userId : String) (policyText : T) (stamp : Stamp) (state : ServiceState T S) :
    Except AppError (StoredPolicy T) × ServiceState T S :=
  match service.engine.parse [policyText] with
  | .error e => (.error (.validation ("Invalid policy syntax: " ++ e)), state)
  | .ok _ =>
      match service.engine.annotations policyText with
      | (none, _) => (.error (.validation "Policy must have an @id annotation"), state)
      | (some name, description) =>
          if (findByName userId name state.rows).isSome then (.error (nameTaken name), state)
          else
            let policy : StoredPolicy T := {
              id := stamp.id, userId := some userId, name, description := description.getD "",
              policyText, enabled := true, createdAt := stamp.now, updatedAt := stamp.now }
            if Clashes state.rows policy then (.error stamp.clash, state)
            else (.ok policy, invalidateCache userId { state with rows := state.rows ++ [policy] })

def updatePolicy (userId id : String) (policyText : T) (now : Nat) (state : ServiceState T S) :
    Except AppError (StoredPolicy T) × ServiceState T S :=
  match service.engine.parse [policyText] with
  | .error e => (.error (.validation ("Invalid policy syntax: " ++ e)), state)
  | .ok _ =>
      match ownPolicy userId id state.rows with
      | .error e => (.error e, state)
      | .ok policy =>
          let (name, description) := service.engine.annotations policyText
          let newName := name.getD policy.name
          if newName ≠ policy.name ∧ (findByName userId newName state.rows).isSome then
            (.error (nameTaken newName), state)
          else
            let updated := { policy with
              policyText, name := newName, description := description.getD policy.description,
              updatedAt := now }
            let rows := state.rows.map fun p => if p.id = id then updated else p
            (.ok updated, invalidateCache userId { state with rows })

def deletePolicy (userId id : String) (state : ServiceState T S) :
    Except AppError Unit × ServiceState T S :=
  match ownPolicy userId id state.rows with
  | .error e => (.error e, state)
  | .ok _ =>
      let rows := state.rows.filter fun p => decide (p.id ≠ id)
      (.ok (), invalidateCache userId { state with rows })

def deletePolicyByName (userId name : String) (state : ServiceState T S) :
    Except AppError Unit × ServiceState T S :=
  match findByName userId name state.rows with
  | none => (.error (.notFound ("Policy with @id \"" ++ name ++ "\" not found")), state)
  | some policy =>
      let rows := state.rows.filter fun p => decide (p.id ≠ policy.id)
      (.ok (), invalidateCache userId { state with rows })

def Settled {A : Type} (userId : String) (state : ServiceState T S)
    (answer : Except AppError A × ServiceState T S) : Prop :=
  (∃ e, answer.1 = .error e ∧ answer.2 = state) ∨
    ∃ value rows, answer.1 = .ok value ∧ answer.2 = invalidateCache userId { state with rows }

theorem createPolicy_settled (userId : String) (policyText : T) (stamp : Stamp)
    (state : ServiceState T S) :
    Settled userId state (createPolicy service userId policyText stamp state) := by
  unfold createPolicy
  split
  next => exact .inl ⟨_, rfl, rfl⟩
  next =>
    split
    next => exact .inl ⟨_, rfl, rfl⟩
    next =>
      split
      next => exact .inl ⟨_, rfl, rfl⟩
      next =>
        dsimp only
        split
        next => exact .inl ⟨_, rfl, rfl⟩
        next => exact .inr ⟨_, _, rfl, rfl⟩

theorem updatePolicy_settled (userId id : String) (policyText : T) (now : Nat)
    (state : ServiceState T S) :
    Settled userId state (updatePolicy service userId id policyText now state) := by
  unfold updatePolicy
  split
  next => exact .inl ⟨_, rfl, rfl⟩
  next =>
    split
    next => exact .inl ⟨_, rfl, rfl⟩
    next =>
      dsimp only
      split
      next => exact .inl ⟨_, rfl, rfl⟩
      next => exact .inr ⟨_, _, rfl, rfl⟩

theorem deletePolicy_settled (userId id : String) (state : ServiceState T S) :
    Settled userId state (deletePolicy userId id state) := by
  unfold deletePolicy
  split
  next => exact .inl ⟨_, rfl, rfl⟩
  next => exact .inr ⟨_, _, rfl, rfl⟩

theorem deletePolicyByName_settled (userId name : String) (state : ServiceState T S) :
    Settled userId state (deletePolicyByName userId name state) := by
  unfold deletePolicyByName
  split
  next => exact .inl ⟨_, rfl, rfl⟩
  next => exact .inr ⟨_, _, rfl, rfl⟩

end Update

end Frona.Policy
