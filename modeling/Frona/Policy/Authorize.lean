import Frona.Cache.Table
import Frona.Policy.Action

set_option autoImplicit false

namespace Frona.Policy

open Cedar

section Entities

inductive AttrValue where
  | bool (b : Bool)
  | string (s : String)
  | strings (items : List String)
  | entity (uid : EntityUid)

structure Entity where
  uid : EntityUid
  attrs : List (String × AttrValue)
  parents : List EntityUid

def agentEntityUid (userHandle agentHandle : Handle) : EntityUid :=
  entityUid "Agent" (userHandle.text ++ "/" ++ agentHandle.text)

def channelEntityUid (userHandle channelHandle : Handle) : EntityUid :=
  entityUid "Channel" (userHandle.text ++ "/" ++ channelHandle.text)

def userEntityUid (userId : String) : EntityUid := entityUid "User" userId

def userEntityUidFromHandle (handle : Handle) : EntityUid := entityUid "User" handle.text

def contactEntityUid (contactId : String) : EntityUid := entityUid "Contact" contactId

def messageSourceEntityUid (connectorId address : String) : EntityUid :=
  entityUid "MessageSource" (connectorId ++ ":" ++ address)

def toolEntityUid (toolName : String) : EntityUid := entityUid "Tool" toolName

def toolGroupEntityUid (group : String) : EntityUid := entityUid "ToolGroup" group

def buildAgentPrincipalEntity (userHandle agentHandle : Handle) (tools : List String) : Entity where
  uid := agentEntityUid userHandle agentHandle
  attrs := [("enabled", .bool true), ("model_group", .string "primary"), ("tools", .strings tools),
    ("handle", .string agentHandle.text)]
  parents := [userEntityUidFromHandle userHandle]

end Entities

section Service

-- The addresses paired with the connector, when the action has any.
abbrev Context := Option (List String)

structure CedarEngine (T S M : Type) where
  parse : List T → Except String S
  annotations : T → Option String × Option String
  add : S → M → Except String S
  consistent : List Entity → Bool
  checkRequest : Request → Context → Except String Unit
  isAuthorized : Request → Context → S → List Entity → Decision × List String

structure ToolDefinition where
  id : String
  providerId : String

structure Agent where
  userId : String
  handle : Handle
  deriving DecidableEq

structure AuthorizationDecision where
  allowed : Bool
  diagnostics : String
  deriving DecidableEq

def AuthorizationDecision.allow : AuthorizationDecision := ⟨true, ""⟩

def AuthorizationDecision.deny (diagnostics : String) : AuthorizationDecision :=
  ⟨false, diagnostics⟩

inductive PolicyResource where
  | tool (id group : String)
  | toolGroup (group : String)

structure PolicyService (T S M : Type) where
  engine : CedarEngine T S M
  managedPolicies : List M
  definitions : String → List ToolDefinition
  handleOf : String → Except AppError Handle
  quoting : Quoting

/-- The stored policies and the caches that `authorize` reads. -/
structure ServiceState (T S : Type) where
  rows : List (StoredPolicy T)
  policyCache : Cache.Table String S
  decisionCache : Cache.Table String AuthorizationDecision
  agentToolsCache : Cache.Table String (List String)

end Service

section Evaluation

variable {T S M : Type} (service : PolicyService T S M)

def addManaged (policySet : S) : List M → Except AppError S
  | [] => .ok policySet
  | policy :: rest =>
      match service.engine.add policySet policy with
      | .error e => .error (.internal ("Failed to add managed policy: " ++ e))
      | .ok policySet => addManaged policySet rest

def loadPolicySet (userId : String) (rows : List (StoredPolicy T)) : Except AppError S :=
  let systemPolicies := rows.filter fun p => decide (p.userId = none)
  let userPolicies := rows.filter fun p => decide (p.userId = some userId)
  let combined := ((systemPolicies ++ userPolicies).filter (·.enabled)).map (·.policyText)
  match service.engine.parse combined with
  | .error e => .error (.internal ("Failed to parse policies: " ++ e))
  | .ok policySet => addManaged service policySet service.managedPolicies

def buildToolEntities (toolName toolGroup : String) : List Entity :=
  let entities := [⟨toolEntityUid toolName, [], [toolGroupEntityUid toolGroup]⟩,
    ⟨toolGroupEntityUid toolGroup, [], []⟩]
  if service.engine.consistent entities then entities else []

def isPermitted (userHandle agentHandle : Handle) (resource : PolicyResource) (policySet : S) :
    Except AppError Bool :=
  let (entities, resourceUid) := match resource with
    | .tool id group => (buildToolEntities service id group, toolEntityUid id)
    | .toolGroup group => (buildToolEntities service group group, toolEntityUid group)
  let request : Request :=
    ⟨agentEntityUid userHandle agentHandle, actionEntityUid "invoke_tool", resourceUid⟩
  match service.engine.checkRequest request none with
  | .error e => .error (.internal ("Policy request error: " ++ e))
  | .ok () => .ok (decide ((service.engine.isAuthorized request none policySet entities).1 = .allow))

def permittedTools (userHandle agentHandle : Handle) (policySet : S) :
    List ToolDefinition → Except AppError (List String)
  | [] => .ok []
  | definition :: rest =>
      let resource := .tool definition.id definition.providerId
      match isPermitted service userHandle agentHandle resource policySet with
      | .error e => .error e
      | .ok permitted =>
          match permittedTools userHandle agentHandle policySet rest with
          | .error e => .error e
          | .ok tools => .ok (if permitted then definition.id :: tools else tools)

-- The tools of the agent and of the agent it addresses, checked side by side.
def delegationTools (userHandle agentHandle targetHandle : Handle) (policySet : S) :
    List ToolDefinition → Except AppError (List String × List String)
  | [] => .ok ([], [])
  | definition :: rest =>
      let resource := .tool definition.id definition.providerId
      match isPermitted service userHandle agentHandle resource policySet with
      | .error e => .error e
      | .ok principal =>
          match isPermitted service userHandle targetHandle resource policySet with
          | .error e => .error e
          | .ok target =>
              match delegationTools userHandle agentHandle targetHandle policySet rest with
              | .error e => .error e
              | .ok (principalTools, targetTools) =>
                  .ok (if principal then definition.id :: principalTools else principalTools,
                    if target then definition.id :: targetTools else targetTools)

def evaluateRequest (request : Request) (context : Context) (policySet : S)
    (entities : List Entity) : Except AppError AuthorizationDecision :=
  match service.engine.checkRequest request context with
  | .error e => .error (.internal ("Policy request error: " ++ e))
  | .ok () =>
      match service.engine.isAuthorized request context policySet entities with
      | (.allow, _) => .ok .allow
      | (.deny, errors) =>
          .ok (.deny (if errors.isEmpty then "No matching permit policy"
            else "; ".intercalate errors))

def userLevelAction : AppError :=
  .internal "authorize() called with a user-level action; use authorize_user() instead"

def resourceOf (userHandle : Handle) : PolicyAction → Except AppError EntityUid
  | .invokeTool toolName _ => .ok (toolEntityUid toolName)
  | .delegateTask _ targetHandle | .sendMessage _ targetHandle =>
      .ok (agentEntityUid userHandle targetHandle)
  | .receiveSignal connectorId _ sender _ | .receiveMessage connectorId _ sender _ =>
      .ok (messageSourceEntityUid connectorId sender.address)
  | .listUsers | .manageUsers _ | .viewUsageAnalytics => .error userLevelAction

def contextOf : PolicyAction → Context
  | .receiveSignal _ _ _ pairedAddresses | .receiveMessage _ _ _ pairedAddresses =>
      some pairedAddresses
  | _ => none

-- The principal joins the tool and its group, unless they do not fit together.
def invokeToolEntities (userHandle agentHandle : Handle) (toolName toolGroup : String)
    (principalTools : List String) : List Entity :=
  let toolEntities := buildToolEntities service toolName toolGroup
  let entities := toolEntities ++ [buildAgentPrincipalEntity userHandle agentHandle principalTools]
  if service.engine.consistent entities then entities else toolEntities

def buildAgentEntities (userHandle principalHandle : Handle) (principalTools : List String)
    (targetHandle : Handle) (targetTools : List String) : List Entity :=
  let entities := [buildAgentPrincipalEntity userHandle principalHandle principalTools,
    buildAgentPrincipalEntity userHandle targetHandle targetTools]
  if service.engine.consistent entities then entities else []

def buildMessageSourceEntities (userHandle agentHandle : Handle) (agentTools : List String)
    (connectorId : String) (channelHandle : Handle) (sender : PolicyContact) : List Entity :=
  let channelUid := channelEntityUid userHandle channelHandle
  let userUid := userEntityUid sender.userId
  let contactUid := contactEntityUid sender.id
  let entities : List Entity := [
    buildAgentPrincipalEntity userHandle agentHandle agentTools,
    ⟨channelUid, [], [userEntityUidFromHandle userHandle]⟩,
    ⟨userUid, [], []⟩,
    ⟨contactUid, [("address", .string sender.address), ("addresses", .strings sender.addresses),
      ("name", .string sender.name)], [userUid]⟩,
    ⟨messageSourceEntityUid connectorId sender.address,
      [("connector_id", .string connectorId), ("sender", .entity contactUid),
        ("user", .entity userUid)], [channelUid]⟩]
  if service.engine.consistent entities then entities else []

end Evaluation

section Authorize

variable {T S M : Type} (service : PolicyService T S M)

def buildPolicySet (userId : String) (state : ServiceState T S) :
    Except AppError S × ServiceState T S :=
  match state.policyCache.get userId with
  | some cached => (.ok cached, state)
  | none =>
      match loadPolicySet service userId state.rows with
      | .error e => (.error e, state)
      | .ok policySet =>
          (.ok policySet, { state with policyCache := state.policyCache.insert userId policySet })

def resolveAgentTools (userId : String) (userHandle agentHandle : Handle) (policySet : S)
    (state : ServiceState T S) : Except AppError (List String) × ServiceState T S :=
  match state.agentToolsCache.get (agentToolsKey userId agentHandle) with
  | some cached => (.ok cached, state)
  | none =>
      match permittedTools service userHandle agentHandle policySet
          (service.definitions userId) with
      | .error e => (.error e, state)
      | .ok tools => (.ok tools, { state with
          agentToolsCache := state.agentToolsCache.insert (agentToolsKey userId agentHandle) tools })

def entitiesFor (userId : String) (userHandle agentHandle : Handle) (policySet : S) :
    PolicyAction → ServiceState T S → Except AppError (List Entity) × ServiceState T S
  | .invokeTool toolName toolGroup, state =>
      match resolveAgentTools service userId userHandle agentHandle policySet state with
      | (.error e, state) => (.error e, state)
      | (.ok principalTools, state) =>
          (.ok (invokeToolEntities service userHandle agentHandle toolName toolGroup
            principalTools), state)
  | .delegateTask _ targetHandle, state | .sendMessage _ targetHandle, state =>
      match delegationTools service userHandle agentHandle targetHandle policySet
          (service.definitions userId) with
      | .error e => (.error e, state)
      | .ok (principalTools, targetTools) =>
          (.ok (buildAgentEntities service userHandle agentHandle principalTools targetHandle
            targetTools), state)
  | .receiveSignal connectorId channelHandle sender _, state
  | .receiveMessage connectorId channelHandle sender _, state =>
      match permittedTools service userHandle agentHandle policySet
          (service.definitions userId) with
      | .error e => (.error e, state)
      | .ok agentTools =>
          (.ok (buildMessageSourceEntities service userHandle agentHandle agentTools connectorId
            channelHandle sender), state)
  | .listUsers, state | .manageUsers _, state | .viewUsageAnalytics, state =>
      (.error userLevelAction, state)

-- The system agent may always manage policies.
def bypasses (agent : Agent) : PolicyAction → Bool
  | .invokeTool toolName _ => agent.handle.text = "system" && toolName = "manage_policy"
  | _ => false

def authorize (userId : String) (agent : Agent) (action : PolicyAction)
    (state : ServiceState T S) : Except AppError AuthorizationDecision × ServiceState T S :=
  if bypasses agent action then (.ok .allow, state)
  else
    let cacheKey := decisionKey service.quoting userId agent.handle action
    match state.decisionCache.get cacheKey with
    | some hit => (.ok hit, state)
    | none =>
        match buildPolicySet service userId state with
        | (.error e, state) => (.error e, state)
        | (.ok policySet, state) =>
            match service.handleOf agent.userId with
            | .error e => (.error e, state)
            | .ok userHandle =>
                match resourceOf userHandle action with
                | .error e => (.error e, state)
                | .ok resource =>
                    match entitiesFor service userId userHandle agent.handle policySet action
                        state with
                    | (.error e, state) => (.error e, state)
                    | (.ok entities, state) =>
                        let request : Request := ⟨agentEntityUid userHandle agent.handle,
                          actionEntityUid action.cedarActionName, resource⟩
                        match evaluateRequest service request (contextOf action) policySet
                            entities with
                        | .error e => (.error e, state)
                        | .ok decision => (.ok decision, { state with
                            decisionCache := state.decisionCache.insert cacheKey decision })

end Authorize

end Frona.Policy
