import Frona.Policy.Update

set_option autoImplicit false

namespace Frona.Policy

open Cedar

variable {T S M : Type} (service : PolicyService T S M) (userId : String)

section Uncached

def toolsOf (policySet : S) (userHandle agentHandle : Handle) : Except AppError (List String) :=
  permittedTools service userHandle agentHandle policySet (service.definitions userId)

def entitiesOf (userHandle agentHandle : Handle) (policySet : S) (action : PolicyAction)
    (tools : Except AppError (List String)) : Except AppError (List Entity) :=
  match action with
  | .invokeTool toolName toolGroup =>
      tools.map (invokeToolEntities service userHandle agentHandle toolName toolGroup)
  | .delegateTask _ targetHandle | .sendMessage _ targetHandle =>
      (delegationTools service userHandle agentHandle targetHandle policySet
        (service.definitions userId)).map fun (principalTools, targetTools) =>
          buildAgentEntities service userHandle agentHandle principalTools targetHandle targetTools
  | .receiveSignal connectorId channelHandle sender _
  | .receiveMessage connectorId channelHandle sender _ =>
      (toolsOf service userId policySet userHandle agentHandle).map fun agentTools =>
        buildMessageSourceEntities service userHandle agentHandle agentTools connectorId
          channelHandle sender
  | .listUsers | .manageUsers _ | .viewUsageAnalytics => .error userLevelAction

def decideWith (policySet : S) (owner : Except AppError Handle) (handle : Handle)
    (action : PolicyAction) (tools : Handle → Except AppError (List String)) :
    Except AppError AuthorizationDecision := do
  let userHandle ← owner
  let resource ← resourceOf userHandle action
  let entities ← entitiesOf service userId userHandle handle policySet action (tools userHandle)
  evaluateRequest service
    ⟨agentEntityUid userHandle handle, actionEntityUid action.cedarActionName, resource⟩
    (contextOf action) policySet entities

def decisionOf (rows : List (StoredPolicy T)) (agent : Agent) (action : PolicyAction) :
    Except AppError AuthorizationDecision :=
  if bypasses agent action then .ok .allow
  else do
    let policySet ← loadPolicySet service userId rows
    decideWith service userId policySet (service.handleOf agent.userId) agent.handle action
      fun userHandle => toolsOf service userId policySet userHandle agent.handle

end Uncached

section Justified

def PolicyAction.isInvokeTool : PolicyAction → Bool
  | .invokeTool .. => true
  | _ => false

abbrev Call := Agent × PolicyAction

def SharesKey (call other : Call) : Prop :=
  call.1.handle = other.1.handle ∧
    (call.2 = other.2 ∨ call.2.isInvokeTool = true ∧ other.2.isInvokeTool = true)

instance (call other : Call) : Decidable (SharesKey call other) :=
  inferInstanceAs (Decidable (_ ∧ _))

structure Justified (calls : List Call) (state : ServiceState T S) : Prop where
  policies : state.policyCache.Backed fun key policySet =>
    key = userId ∧ loadPolicySet service userId state.rows = .ok policySet
  decisions : state.decisionCache.Backed fun key decision => ∃ call ∈ calls,
    key = decisionKey service.quoting userId call.1.handle call.2 ∧
      bypasses call.1 call.2 = false ∧
      decisionOf service userId state.rows call.1 call.2 = .ok decision
  tools : state.agentToolsCache.Backed fun key tools => ∃ call ∈ calls,
    key = agentToolsKey userId call.1.handle ∧ call.2.isInvokeTool = true ∧
      bypasses call.1 call.2 = false ∧
      ∃ policySet userHandle, loadPolicySet service userId state.rows = .ok policySet ∧
        service.handleOf call.1.userId = .ok userHandle ∧
        toolsOf service userId policySet userHandle call.1.handle = .ok tools

def SameOwner (calls : List Call) (call : Call) : Prop :=
  bypasses call.1 call.2 = false → ∀ other ∈ calls, bypasses other.1 other.2 = false →
    SharesKey other call → service.handleOf other.1.userId = service.handleOf call.1.userId

theorem buildPolicySet_eq (state : ServiceState T S) :
    buildPolicySet service userId state =
      ((state.policyCache.memo userId (loadPolicySet service userId state.rows)).1,
        { state with
          policyCache :=
            (state.policyCache.memo userId (loadPolicySet service userId state.rows)).2 }) := by
  unfold buildPolicySet Cache.Table.memo
  cases state.policyCache.get userId with
  | some policySet => rfl
  | none => cases loadPolicySet service userId state.rows <;> rfl

theorem resolveAgentTools_eq (userHandle agentHandle : Handle) (policySet : S)
    (state : ServiceState T S) :
    resolveAgentTools service userId userHandle agentHandle policySet state =
      ((state.agentToolsCache.memo (agentToolsKey userId agentHandle)
          (toolsOf service userId policySet userHandle agentHandle)).1,
        { state with
          agentToolsCache := (state.agentToolsCache.memo (agentToolsKey userId agentHandle)
            (toolsOf service userId policySet userHandle agentHandle)).2 }) := by
  unfold resolveAgentTools Cache.Table.memo toolsOf
  cases state.agentToolsCache.get (agentToolsKey userId agentHandle) with
  | some tools => rfl
  | none =>
      cases permittedTools service userHandle agentHandle policySet (service.definitions userId) <;>
        rfl

end Justified

section Step

variable {service userId}

theorem Justified.weaken {calls : List Call} {state : ServiceState T S}
    (justified : Justified service userId calls state) (call : Call) :
    Justified service userId (call :: calls) state where
  policies := justified.policies
  decisions := justified.decisions.mono fun _ _ ⟨other, member, rest⟩ =>
    ⟨other, List.mem_cons_of_mem _ member, rest⟩
  tools := justified.tools.mono fun _ _ ⟨other, member, rest⟩ =>
    ⟨other, List.mem_cons_of_mem _ member, rest⟩

theorem buildPolicySet_spec {calls : List Call} {state : ServiceState T S}
    (justified : Justified service userId calls state) :
    ∃ state', buildPolicySet service userId state =
        (loadPolicySet service userId state.rows, state') ∧
      state'.rows = state.rows ∧ Justified service userId calls state' := by
  rw [buildPolicySet_eq]
  have served := justified.policies.memo_fst userId (loadPolicySet service userId state.rows)
    fun policySet entry => entry.2
  have kept := justified.policies.memo_snd userId (loadPolicySet service userId state.rows)
    fun policySet loaded => ⟨rfl, loaded⟩
  rw [served]
  exact ⟨_, rfl, rfl, kept, justified.decisions, justified.tools⟩

theorem resolveAgentTools_spec {calls : List Call} {state : ServiceState T S} {call : Call}
    {policySet : S} {userHandle : Handle} (justified : Justified service userId calls state)
    (owner : SameOwner service calls call) (used : bypasses call.1 call.2 = false)
    (invokes : call.2.isInvokeTool = true)
    (loaded : loadPolicySet service userId state.rows = .ok policySet)
    (handle : service.handleOf call.1.userId = .ok userHandle) :
    ∃ state', resolveAgentTools service userId userHandle call.1.handle policySet state =
        (toolsOf service userId policySet userHandle call.1.handle, state') ∧
      state'.rows = state.rows ∧ Justified service userId (call :: calls) state' := by
  rw [resolveAgentTools_eq]
  have later := justified.weaken call
  have served := justified.tools.memo_fst (agentToolsKey userId call.1.handle)
    (toolsOf service userId policySet userHandle call.1.handle) (by
      rintro tools ⟨other, member, key, invokes', used', set', handle', loaded', owner', tools'⟩
      have same := agentToolsKey_inj key
      have shares : SharesKey other call := ⟨same.symm, .inr ⟨invokes', invokes⟩⟩
      have owners := owner used other member used' shares
      rw [loaded, Except.ok.injEq] at loaded'
      rw [owner', handle, Except.ok.injEq] at owners
      rw [loaded', same, ← owners]
      exact tools')
  have kept := later.tools.memo_snd (agentToolsKey userId call.1.handle)
    (toolsOf service userId policySet userHandle call.1.handle) fun tools resolved =>
      ⟨call, List.mem_cons_self, rfl, invokes, used, policySet, userHandle, loaded, handle,
        resolved⟩
  rw [served]
  exact ⟨_, rfl, rfl, later.policies, later.decisions, kept⟩

theorem entitiesFor_eq (userHandle agentHandle : Handle) (policySet : S) (action : PolicyAction)
    (state : ServiceState T S) :
    entitiesFor service userId userHandle agentHandle policySet action state =
      if action.isInvokeTool then
        (entitiesOf service userId userHandle agentHandle policySet action
            (resolveAgentTools service userId userHandle agentHandle policySet state).1,
          (resolveAgentTools service userId userHandle agentHandle policySet state).2)
      else
        (entitiesOf service userId userHandle agentHandle policySet action (.ok []), state) := by
  cases action with
  | invokeTool toolName toolGroup =>
      rcases resolved : resolveAgentTools service userId userHandle agentHandle policySet state with
        ⟨_ | tools, after⟩ <;>
      simp [entitiesFor, entitiesOf, PolicyAction.isInvokeTool, resolved, Except.map]
  | delegateTask agentId target | sendMessage agentId target =>
      rcases tools : delegationTools service userHandle agentHandle target policySet
        (service.definitions userId) with _ | ⟨principal, other⟩ <;>
      simp [entitiesFor, entitiesOf, PolicyAction.isInvokeTool, tools, Except.map]
  | receiveSignal connector channel sender paired | receiveMessage connector channel sender paired =>
      rcases tools : permittedTools service userHandle agentHandle policySet
        (service.definitions userId) with _ | tools <;>
      simp [entitiesFor, entitiesOf, toolsOf, PolicyAction.isInvokeTool, tools, Except.map]
  | listUsers | manageUsers target | viewUsageAnalytics => rfl

theorem entitiesOf_congr (userHandle agentHandle : Handle) (policySet : S) (action : PolicyAction)
    (tools tools' : Except AppError (List String)) (other : action.isInvokeTool = false) :
    entitiesOf service userId userHandle agentHandle policySet action tools =
      entitiesOf service userId userHandle agentHandle policySet action tools' := by
  cases action with
  | invokeTool toolName toolGroup => simp [PolicyAction.isInvokeTool] at other
  | _ => rfl

theorem entitiesFor_spec {calls : List Call} {state : ServiceState T S} {call : Call}
    {policySet : S} {userHandle : Handle} (justified : Justified service userId calls state)
    (owner : SameOwner service calls call) (used : bypasses call.1 call.2 = false)
    (loaded : loadPolicySet service userId state.rows = .ok policySet)
    (handle : service.handleOf call.1.userId = .ok userHandle) :
    ∃ state', entitiesFor service userId userHandle call.1.handle policySet call.2 state =
        (entitiesOf service userId userHandle call.1.handle policySet call.2
          (toolsOf service userId policySet userHandle call.1.handle), state') ∧
      state'.rows = state.rows ∧ Justified service userId (call :: calls) state' := by
  rw [entitiesFor_eq]
  cases invokes : call.2.isInvokeTool with
  | true =>
      obtain ⟨after, resolved, rows, kept⟩ :=
        resolveAgentTools_spec justified owner used invokes loaded handle
      rw [if_pos rfl, resolved]
      exact ⟨after, rfl, rows, kept⟩
  | false =>
      rw [if_neg (by decide), entitiesOf_congr userHandle call.1.handle policySet call.2 (.ok [])
        (toolsOf service userId policySet userHandle call.1.handle) invokes]
      exact ⟨state, rfl, rfl, justified.weaken call⟩

theorem decisionOf_congr (rows : List (StoredPolicy T)) {call other : Call}
    (handles : call.1.handle = other.1.handle) (actions : call.2 = other.2)
    (owners : service.handleOf call.1.userId = service.handleOf other.1.userId) :
    decisionOf service userId rows call.1 call.2 =
      decisionOf service userId rows other.1 other.2 := by
  have bypass : bypasses call.1 call.2 = bypasses other.1 other.2 := by
    unfold bypasses
    rw [handles, actions]
  unfold decisionOf
  rw [bypass, handles, actions, owners]

theorem authorize_spec {calls : List Call} {state : ServiceState T S} (call : Call)
    (justified : Justified service userId calls state) (owner : SameOwner service calls call) :
    ∃ state', authorize service userId call.1 call.2 state =
        (decisionOf service userId state.rows call.1 call.2, state') ∧
      state'.rows = state.rows ∧ Justified service userId (call :: calls) state' := by
  cases used : bypasses call.1 call.2 with
  | true =>
      exact ⟨state, by simp [authorize, decisionOf, used], rfl, justified.weaken call⟩
  | false =>
  cases hit : state.decisionCache.get
      (decisionKey service.quoting userId call.1.handle call.2) with
  | some decision =>
      obtain ⟨other, member, key, used', decided⟩ := justified.decisions.get hit
      obtain ⟨handles, actions⟩ := decisionKey_inj service.quoting key
      have owners := owner used other member used' ⟨handles.symm, .inl actions.symm⟩
      rw [decisionOf_congr state.rows handles.symm actions.symm owners] at decided
      exact ⟨state, by simp [authorize, used, hit, decided], rfl, justified.weaken call⟩
  | none =>
  obtain ⟨built, build, rows, justified⟩ := buildPolicySet_spec justified
  cases loaded : loadPolicySet service userId state.rows with
  | error e =>
      refine ⟨built, ?_, rows, justified.weaken call⟩
      simp [authorize, decisionOf, used, hit, build, loaded, bind, Except.bind]
  | ok policySet =>
  cases handle : service.handleOf call.1.userId with
  | error e =>
      refine ⟨built, ?_, rows, justified.weaken call⟩
      simp [authorize, decisionOf, decideWith, used, hit, build, loaded, handle, bind, Except.bind]
  | ok userHandle =>
  cases target : resourceOf userHandle call.2 with
  | error e =>
      refine ⟨built, ?_, rows, justified.weaken call⟩
      simp [authorize, decisionOf, decideWith, used, hit, build, loaded, handle, target, bind,
        Except.bind]
  | ok resource =>
  obtain ⟨after, entities, rows', justified⟩ :=
    entitiesFor_spec justified owner used (rows ▸ loaded) handle
  cases assembled : entitiesOf service userId userHandle call.1.handle policySet call.2
      (toolsOf service userId policySet userHandle call.1.handle) with
  | error e =>
      refine ⟨after, ?_, rows'.trans rows, justified⟩
      simp [authorize, decisionOf, decideWith, used, hit, build, loaded, handle, target, entities,
        assembled, bind, Except.bind]
  | ok list =>
  cases decided : evaluateRequest service ⟨agentEntityUid userHandle call.1.handle,
      actionEntityUid call.2.cedarActionName, resource⟩ (contextOf call.2) policySet list with
  | error e =>
      refine ⟨after, ?_, rows'.trans rows, justified⟩
      simp [authorize, decisionOf, decideWith, used, hit, build, loaded, handle, target, entities,
        assembled, decided, bind, Except.bind]
  | ok decision =>
      have verdict : decisionOf service userId state.rows call.1 call.2 = .ok decision := by
        simp [decisionOf, decideWith, used, loaded, handle, target, assembled, decided, bind,
          Except.bind]
      let key := decisionKey service.quoting userId call.1.handle call.2
      refine ⟨{ after with decisionCache := after.decisionCache.insert key decision }, ?_,
        rows'.trans rows, justified.policies, ?_, justified.tools⟩
      · rw [verdict]
        simp [authorize, used, hit, build, loaded, handle, target, entities, assembled, decided, key]
      · apply justified.decisions.insert
        refine ⟨call, List.mem_cons_self, rfl, used, ?_⟩
        rw [rows', rows]
        exact verdict

end Step

section Run

inductive Event (T : Type) where
  | call (agent : Agent) (action : PolicyAction)
  | create (policyText : T) (stamp : Stamp)
  | update (id : String) (policyText : T) (now : Nat)
  | delete (id : String)
  | deleteByName (name : String)
  | evict (policies decisions tools : String → Bool)

def Event.step (event : Event T) (state : ServiceState T S) : ServiceState T S :=
  match event with
  | .call agent action => (authorize service userId agent action state).2
  | .create policyText stamp => (createPolicy service userId policyText stamp state).2
  | .update id policyText now => (updatePolicy service userId id policyText now state).2
  | .delete id => (deletePolicy userId id state).2
  | .deleteByName name => (deletePolicyByName userId name state).2
  | .evict policies decisions tools => { state with
      policyCache := state.policyCache.retain policies
      decisionCache := state.decisionCache.retain decisions
      agentToolsCache := state.agentToolsCache.retain tools }

def succeeds {A : Type} : Except AppError A → Bool
  | .ok _ => true
  | .error _ => false

def Event.updates (event : Event T) (state : ServiceState T S) : Bool :=
  match event with
  | .call _ _ | .evict .. => false
  | .create policyText stamp => succeeds (createPolicy service userId policyText stamp state).1
  | .update id policyText now => succeeds (updatePolicy service userId id policyText now state).1
  | .delete id => succeeds (deletePolicy userId id state).1
  | .deleteByName name => succeeds (deletePolicyByName userId name state).1

def ServiceState.cold (rows : List (StoredPolicy T)) : ServiceState T S :=
  ⟨rows, .empty, .empty, .empty⟩

/-- Every call answers what it would answer with all caches empty. -/
def Transparent : List (Event T) → ServiceState T S → Prop
  | [], _ => True
  | event :: rest, state =>
      (match event with
        | .call agent action => (authorize service userId agent action state).1 =
            (authorize service userId agent action (.cold state.rows)).1
        | _ => True) ∧
      Transparent rest (event.step service userId state)

-- The calls that were made since the last update that went through.
def remembered (event : Event T) (calls : List Call) (state : ServiceState T S) : List Call :=
  match event with
  | .call agent action => (agent, action) :: calls
  | _ => if event.updates service userId state then [] else calls

/-- Between two updates, calls that can meet in a cache are for agents of one owner. -/
def OneOwner : List (Event T) → List Call → ServiceState T S → Prop
  | [], _, _ => True
  | event :: rest, calls, state =>
      (match event with
        | .call agent action => SameOwner service calls (agent, action)
        | _ => True) ∧
      OneOwner rest (remembered service userId event calls state)
        (event.step service userId state)

variable {service userId}

theorem justified_cold (calls : List Call) (rows : List (StoredPolicy T)) :
    Justified service userId calls (ServiceState.cold rows : ServiceState T S) :=
  ⟨Cache.Table.backed_empty, Cache.Table.backed_empty, Cache.Table.backed_empty⟩

theorem Justified.invalidate {calls : List Call} {state : ServiceState T S}
    (justified : Justified service userId calls state) (rows : List (StoredPolicy T)) :
    invalidateCache userId { state with rows } = .cold rows := by
  unfold invalidateCache ServiceState.cold
  congr 1
  · apply justified.policies.retain_eq_empty
    intro key policySet entry
    simp [entry.1]
  · apply justified.decisions.retain_eq_empty
    rintro key decision ⟨call, _, rfl, _⟩
    simp [keyOf_decisionKey]
  · apply justified.tools.retain_eq_empty
    rintro key tools ⟨call, _, rfl, _⟩
    simp [keyOf_agentToolsKey]

theorem Justified.settled {A : Type} {calls : List Call} {state : ServiceState T S}
    {answer : Except AppError A × ServiceState T S} (justified : Justified service userId calls state)
    (settled : Settled userId state answer) :
    Justified service userId (if succeeds answer.1 then [] else calls) answer.2 := by
  rcases settled with ⟨e, failed, same⟩ | ⟨value, rows, done, same⟩
  · rw [failed, same]
    exact justified
  · rw [done, same, justified.invalidate rows]
    exact justified_cold _ rows

theorem Justified.step {calls : List Call} {state : ServiceState T S}
    (justified : Justified service userId calls state) (event : Event T)
    (owner : ∀ agent action, event = .call agent action →
      SameOwner service calls (agent, action)) :
    Justified service userId (remembered service userId event calls state)
      (event.step service userId state) := by
  cases event with
  | call agent action =>
      obtain ⟨after, run, _, kept⟩ := authorize_spec (agent, action) justified (owner _ _ rfl)
      simp only [Event.step, remembered]
      rw [run]
      exact kept
  | create policyText stamp =>
      exact justified.settled (createPolicy_settled service userId policyText stamp state)
  | update id policyText now =>
      exact justified.settled (updatePolicy_settled service userId id policyText now state)
  | delete id => exact justified.settled (deletePolicy_settled userId id state)
  | deleteByName name => exact justified.settled (deletePolicyByName_settled userId name state)
  | evict policies decisions tools =>
      exact ⟨justified.policies.retain policies, justified.decisions.retain decisions,
        justified.tools.retain tools⟩

theorem authorize_cold (rows : List (StoredPolicy T)) (agent : Agent) (action : PolicyAction) :
    (authorize service userId agent action (.cold rows)).1 =
      decisionOf service userId rows agent action := by
  have justified : Justified service userId [] (ServiceState.cold rows) := justified_cold [] rows
  obtain ⟨after, run, _⟩ := authorize_spec (agent, action) justified
    (fun _ other member => absurd member List.not_mem_nil)
  rw [run]
  rfl

theorem Justified.run (events : List (Event T)) (calls : List Call) (state : ServiceState T S)
    (justified : Justified service userId calls state)
    (owners : OneOwner service userId events calls state) :
    Transparent service userId events state := by
  induction events generalizing calls state with
  | nil => trivial
  | cons event rest ih =>
      obtain ⟨owner, owners⟩ := owners
      refine ⟨?_, ih _ _ (justified.step event ?_) owners⟩
      · cases event with
        | call agent action =>
            obtain ⟨after, run, _⟩ := authorize_spec (agent, action) justified owner
            simp only [authorize_cold]
            rw [run]
        | _ => trivial
      · rintro agent action rfl
        exact owner

/-- The caches are transparent in every run in which, between two updates, the calls that meet in
a cache are for agents of one owner. -/
theorem transparent_of_oneOwner (events : List (Event T)) (rows : List (StoredPolicy T))
    (owners : OneOwner service userId events [] (.cold rows)) :
    Transparent service userId events (.cold rows) :=
  (justified_cold [] rows).run events [] _ owners

end Run

section SharedAgent

def escape : Char → List Char
  | '"' => ['\\', '"']
  | '\\' => ['\\', '\\']
  | c => [c]

theorem escape_ne_quote (c : Char) (rest rest' : List Char) :
    escape c ++ rest ≠ '"' :: rest' := by
  unfold escape
  split
  · simp
  · simp
  · next c notQuote _ =>
      intro same
      obtain ⟨rfl, _⟩ := List.cons.inj same
      exact notQuote rfl

theorem escape_append_inj (c d : Char) (rest rest' : List Char)
    (same : escape c ++ rest = escape d ++ rest') : c = d ∧ rest = rest' := by
  unfold escape at same
  split at same <;> split at same <;> simp_all [eq_comm]

def plainQuoting : Quoting where
  quote s := String.ofList ('"' :: (s.toList.flatMap escape ++ ['"']))
  opens s := ⟨s.toList.flatMap escape ++ ['"'], by simp⟩
  closes := by
    intro s t rest rest' same
    have chars (left right : List Char)
        (same : left.flatMap escape ++ '"' :: rest = right.flatMap escape ++ '"' :: rest') :
        left = right ∧ rest = rest' := by
      induction left generalizing right with
      | nil =>
          cases right with
          | nil => exact ⟨rfl, (List.cons.inj same).2⟩
          | cons d right =>
              rw [List.flatMap_cons, List.append_assoc] at same
              exact absurd same.symm (escape_ne_quote d _ _)
      | cons c left ih =>
          cases right with
          | nil =>
              rw [List.flatMap_cons, List.append_assoc] at same
              exact absurd same (escape_ne_quote c _ _)
          | cons d right =>
              simp only [List.flatMap_cons, List.append_assoc] at same
              obtain ⟨rfl, tails⟩ := escape_append_inj c d _ _ same
              obtain ⟨rfl, rests⟩ := ih right tails
              exact ⟨rfl, rests⟩
    simp only [String.toList_ofList, List.cons_append, List.append_assoc, List.nil_append,
      List.cons.injEq, true_and] at same
    obtain ⟨left, right⟩ := chars s.toList t.toList same
    exact ⟨String.toList_injective left, right⟩

def plainEngine : CedarEngine (Cedar.Policy Empty) (List (Cedar.Policy Empty))
    (Cedar.Policy Empty) where
  parse := .ok
  annotations p := (p.annotations.lookup "id", p.annotations.lookup "description")
  add policies p := .ok (policies ++ [p])
  consistent _ := true
  checkRequest _ _ := .ok ()
  isAuthorized request _ policies entities :=
    (isAuthorized (.ofAncestors fun uid parent => entities.any fun entity =>
      decide (entity.uid = uid ∧ parent ∈ entity.parents)) request policies, [])

def alice : Handle := ⟨"alice", by decide⟩

def bob : Handle := ⟨"bob", by decide⟩

def helper : Handle := ⟨"helper", by decide⟩

-- Alice and bob each have an agent called helper.
def twoUsers : PolicyService (Cedar.Policy Empty) (List (Cedar.Policy Empty))
    (Cedar.Policy Empty) where
  engine := plainEngine
  managedPolicies := []
  definitions _ := [⟨"shell", "system"⟩]
  handleOf userId :=
    if userId = "u1" then .ok alice
    else if userId = "u2" then .ok bob
    else .error (.notFound ("User " ++ userId ++ " not found"))
  quoting := plainQuoting

def ownHelper : Agent := ⟨"u1", helper⟩

def sharedHelper : Agent := ⟨"u2", helper⟩

def invokeShell : PolicyAction := .invokeTool "shell" "system"

def permitRow : StoredPolicy (Cedar.Policy Empty) where
  id := "p"
  userId := some "u1"
  name := "helper-shell"
  description := ""
  policyText := {
    effect := .permit
    principal := .eq (agentEntityUid alice helper)
    action := .eq (actionEntityUid "invoke_tool")
    resource := .eq (toolEntityUid "shell")
    conditions := [] }
  enabled := true
  createdAt := 0
  updatedAt := 0

theorem transparent_of_oneOwner_helper :
    Transparent twoUsers "u1"
      [.call ownHelper invokeShell, .call ownHelper invokeShell, .delete "p",
        .call sharedHelper invokeShell] (.cold [permitRow]) :=
  transparent_of_oneOwner _ _
    ⟨by simp [SameOwner], by simp [SameOwner, remembered], trivial,
      by
        have gone : (Event.delete "p" : Event (Cedar.Policy Empty)).updates twoUsers "u1"
            (Event.step twoUsers "u1" (.call ownHelper invokeShell)
              (Event.step twoUsers "u1" (.call ownHelper invokeShell) (.cold [permitRow]))) = true := by
          decide
        simp [SameOwner, remembered, gone],
      trivial⟩

theorem shared_helper_allowed :
    ¬ Transparent twoUsers "u1" [.call ownHelper invokeShell, .call sharedHelper invokeShell]
      (.cold [permitRow]) := by
  rintro ⟨_, cached, _⟩
  revert cached
  decide

end SharedAgent

end Frona.Policy
