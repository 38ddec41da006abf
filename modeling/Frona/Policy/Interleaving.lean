import Frona.Machine.Run
import Frona.Policy.CacheTransparent

set_option autoImplicit false

namespace Frona.Policy

open Cedar

variable {T S M : Type}

section World

structure Stamped (V : Type) where
  value : V
  version : Nat
  call : Call

/-- Where an `authorize` call is between two of its atomic steps. A policy set is held with the
version of the table that it was loaded from. -/
inductive Stage (S : Type) where
  | decisionLookup
  | policyLookup
  | policyLoad
  | policyInsert (policySet : S) (version : Nat)
  | toolsLookup (policySet : S) (version : Nat)
  | toolsInsert (policySet : S) (version : Nat) (tools : List String)
  | decisionInsert (decision : AuthorizationDecision) (version : Nat)
  | done (answer : Except AppError AuthorizationDecision) (version : Nat)

-- The floor is the newest version whose update had returned when the call started.
structure ActiveCall (S : Type) where
  call : Call
  floor : Nat
  stage : Stage S

inductive RowWrite (T : Type) where
  | create (policy : StoredPolicy T)
  | update (policy : StoredPolicy T)
  | delete (policyId : String)

def RowWrite.apply (rows : List (StoredPolicy T)) : RowWrite T → List (StoredPolicy T)
  | .create policy => rows ++ [policy]
  | .update policy => rows.map fun p => if p.id = policy.id then policy else p
  | .delete policyId => rows.filter fun p => decide (p.id ≠ policyId)

inductive WriterStage where
  | writing
  | invalidated
  | returned
  | failed

structure Writer (T : Type) where
  writes : List (RowWrite T)
  written : Nat
  stage : WriterStage

structure World (T S : Type) where
  past : List (List (StoredPolicy T))
  rows : List (StoredPolicy T)
  policyCache : Cache.Table String (Stamped S)
  decisionCache : Cache.Table String (Stamped AuthorizationDecision)
  agentToolsCache : Cache.Table String (Stamped (List String))
  returned : Nat
  invalidated : Nat
  calls : List (ActiveCall S)
  writers : List (Writer T)

def World.version (world : World T S) : Nat := world.past.length

def World.table (world : World T S) (version : Nat) : Option (List (StoredPolicy T)) :=
  (world.past ++ [world.rows])[version]?

def World.initial (rows : List (StoredPolicy T)) : World T S where
  past := []
  rows := rows
  policyCache := .empty
  decisionCache := .empty
  agentToolsCache := .empty
  returned := 0
  invalidated := 0
  calls := []
  writers := []

end World

section Steps

variable (service : PolicyService T S M) (userId : String)

inductive Act (T : Type) where
  | begin (call : Call)
  | advance (index : Nat)
  | update (writes : List (RowWrite T))
  | write (index : Nat)
  | invalidate (index : Nat)
  | finish (index : Nat)
  | fail (index : Nat)
  | evict (policies decisions tools : String → Bool)

def conclude (call : Call) (policySet : S) (version : Nat) (tools : List String) : Stage S :=
  match decideWith service userId policySet (service.handleOf call.1.userId) call.1.handle call.2
      fun _ => .ok tools with
  | .ok decision => .decisionInsert decision version
  | .error e => .done (.error e) version

def World.setCall (world : World T S) (index : Nat) (active : ActiveCall S) (stage : Stage S) :
    World T S :=
  { world with calls := world.calls.set index { active with stage } }

def advance (index : Nat) (active : ActiveCall S) (world : World T S) : Option (World T S) :=
  let call := active.call
  match active.stage with
  | .decisionLookup =>
      match world.decisionCache.get (decisionKey service.quoting userId call.1.handle call.2) with
      | some hit => some (world.setCall index active (.done (.ok hit.value) hit.version))
      | none => some (world.setCall index active .policyLookup)
  | .policyLookup =>
      match world.policyCache.get userId with
      | some hit => some (world.setCall index active (.toolsLookup hit.value hit.version))
      | none => some (world.setCall index active .policyLoad)
  | .policyLoad =>
      match loadPolicySet service userId world.rows with
      | .error e => some (world.setCall index active (.done (.error e) world.version))
      | .ok policySet =>
          some (world.setCall index active (.policyInsert policySet world.version))
  | .policyInsert policySet version =>
      some ({ world with
        policyCache := world.policyCache.insert userId ⟨policySet, version, call⟩ }.setCall
          index active (.toolsLookup policySet version))
  | .toolsLookup policySet version =>
      if call.2.isInvokeTool then
        match service.handleOf call.1.userId with
        | .error e => some (world.setCall index active (.done (.error e) version))
        | .ok userHandle =>
            match world.agentToolsCache.get (agentToolsKey userId call.1.handle) with
            | some hit => some (world.setCall index active
                (conclude service userId call policySet version hit.value))
            | none =>
                match toolsOf service userId policySet userHandle call.1.handle with
                | .error e => some (world.setCall index active (.done (.error e) version))
                | .ok tools =>
                    some (world.setCall index active (.toolsInsert policySet version tools))
      else some (world.setCall index active (conclude service userId call policySet version []))
  | .toolsInsert policySet version tools =>
      some ({ world with
        agentToolsCache := world.agentToolsCache.insert (agentToolsKey userId call.1.handle)
          ⟨tools, version, call⟩ }.setCall index active
            (conclude service userId call policySet version tools))
  | .decisionInsert decision version =>
      some ({ world with
        decisionCache := world.decisionCache.insert
          (decisionKey service.quoting userId call.1.handle call.2)
          ⟨decision, version, call⟩ }.setCall index active (.done (.ok decision) version))
  | .done _ _ => none

def World.setWriter (world : World T S) (index : Nat) (writer : Writer T) : World T S :=
  { world with writers := world.writers.set index writer }

def step (action : Act T) (world : World T S) : Option (World T S) :=
  match action with
  | .begin call =>
      let stage := if bypasses call.1 call.2 then .done (.ok .allow) world.version
        else .decisionLookup
      some { world with calls := world.calls ++ [⟨call, world.returned, stage⟩] }
  | .advance index =>
      match world.calls[index]? with
      | none => none
      | some active => advance service userId index active world
  | .update writes => some { world with writers := world.writers ++ [⟨writes, 0, .writing⟩] }
  | .write index =>
      match world.writers[index]? with
      | some ⟨write :: writes, _, .writing⟩ =>
          some ({ world with
            past := world.past ++ [world.rows]
            rows := write.apply world.rows }.setWriter index
              ⟨writes, world.version + 1, .writing⟩)
      | _ => none
  | .invalidate index =>
      match world.writers[index]? with
      | some ⟨[], written, .writing⟩ =>
          some ({ world with
            policyCache := world.policyCache.retain fun key => decide (key ≠ userId)
            decisionCache := world.decisionCache.retain fun key => !keyOf userId key
            agentToolsCache := world.agentToolsCache.retain fun key => !keyOf userId key
            invalidated := max world.invalidated written }.setWriter index
              ⟨[], written, .invalidated⟩)
      | _ => none
  | .finish index =>
      match world.writers[index]? with
      | some ⟨[], written, .invalidated⟩ =>
          some ({ world with returned := max world.returned written }.setWriter index
            ⟨[], written, .returned⟩)
      | _ => none
  -- A failing repository operation ends an update where it stands.
  | .fail index =>
      match world.writers[index]? with
      | some ⟨writes, written, .writing⟩ =>
          some (world.setWriter index ⟨writes, written, .failed⟩)
      | _ => none
  | .evict policies decisions tools => some { world with
      policyCache := world.policyCache.retain policies
      decisionCache := world.decisionCache.retain decisions
      agentToolsCache := world.agentToolsCache.retain tools }

end Steps

end Frona.Policy
