import Frona.Policy.Interleaving

set_option autoImplicit false

namespace Frona.Policy

open Cedar

variable {T S M : Type} (service : PolicyService T S M) (userId : String)

section Invariant

def Loaded (world : World T S) (version : Nat) (policySet : S) : Prop :=
  ∃ rows, world.table version = some rows ∧ loadPolicySet service userId rows = .ok policySet

def Decided (world : World T S) (version : Nat) (call : Call)
    (answer : Except AppError AuthorizationDecision) : Prop :=
  ∃ rows, world.table version = some rows ∧
    decisionOf service userId rows call.1 call.2 = answer

def ToolsFor (call : Call) (policySet : S) (tools : List String) : Prop :=
  ∃ userHandle, service.handleOf call.1.userId = .ok userHandle ∧
    toolsOf service userId policySet userHandle call.1.handle = .ok tools

def StageHolds (world : World T S) (call : Call) (floor : Nat) : Stage S → Prop
  | .decisionLookup | .policyLookup | .policyLoad => bypasses call.1 call.2 = false
  | .policyInsert policySet version | .toolsLookup policySet version =>
      bypasses call.1 call.2 = false ∧ floor ≤ version ∧
        Loaded service userId world version policySet
  | .toolsInsert policySet version tools =>
      bypasses call.1 call.2 = false ∧ floor ≤ version ∧
        Loaded service userId world version policySet ∧ ToolsFor service userId call policySet tools
  | .decisionInsert decision version => bypasses call.1 call.2 = false ∧ floor ≤ version ∧
      Decided service userId world version call (.ok decision)
  | .done answer version => floor ≤ version ∧ Decided service userId world version call answer

structure Inv (world : World T S) : Prop where
  returned : world.returned ≤ world.invalidated
  invalidated : world.invalidated ≤ world.version
  written : ∀ writer ∈ world.writers, writer.written ≤ world.version ∧
    (writer.stage = .invalidated → writer.written ≤ world.invalidated)
  policies : world.policyCache.Backed fun key entry =>
    key = userId ∧ world.invalidated ≤ entry.version ∧
      Loaded service userId world entry.version entry.value
  decisions : world.decisionCache.Backed fun key entry =>
    key = decisionKey service.quoting userId entry.call.1.handle entry.call.2 ∧
      bypasses entry.call.1 entry.call.2 = false ∧ world.invalidated ≤ entry.version ∧
      Decided service userId world entry.version entry.call (.ok entry.value)
  tools : world.agentToolsCache.Backed fun key entry =>
    key = agentToolsKey userId entry.call.1.handle ∧ world.invalidated ≤ entry.version ∧
      ∃ policySet, Loaded service userId world entry.version policySet ∧
        ToolsFor service userId entry.call policySet entry.value
  calls : ∀ active ∈ world.calls, active.floor ≤ world.returned ∧
    StageHolds service userId world active.call active.floor active.stage

def World.policySet (world : World T S) (version : Nat) : Option (Except AppError S) :=
  (world.table version).map (loadPolicySet service userId)

-- An entry that is taken from a cache was computed for an agent of the same owner.
def OwnedHit {V : Type} (call : Call) : Option (Stamped V) → Prop
  | none => True
  | some hit => service.handleOf hit.call.1.userId = service.handleOf call.1.userId

-- Tools that join a policy set at hand were also computed from that policy set.
def MatchingTools (world : World T S) (version : Nat) : Option (Stamped (List String)) → Prop
  | none => True
  | some hit => world.policySet service userId hit.version = world.policySet service userId version

def StageUndisturbed (world : World T S) (call : Call) : Stage S → Prop
  | .decisionLookup => OwnedHit service call
      (world.decisionCache.get (decisionKey service.quoting userId call.1.handle call.2))
  | .toolsLookup _ version => call.2.isInvokeTool = true →
      OwnedHit service call (world.agentToolsCache.get (agentToolsKey userId call.1.handle)) ∧
      MatchingTools service userId world version
        (world.agentToolsCache.get (agentToolsKey userId call.1.handle))
  | .policyInsert _ version | .toolsInsert _ version _ | .decisionInsert _ version =>
      world.invalidated ≤ version
  | .policyLookup | .policyLoad | .done _ _ => True

/-- The step inserts nothing that was computed from a policy set older than an update that has
invalidated the caches, and takes from the caches only what was computed for the same owner and,
where it joins a policy set at hand, from the same policy set. -/
def Undisturbed (action : Act T) (world : World T S) : Prop :=
  match action with
  | .advance index => ∀ active ∈ world.calls[index]?,
      StageUndisturbed service userId world active.call active.stage
  | _ => True

/-- Every finished call answers with the decision of a version that is not older than any update
that had returned when the call started. -/
def AllCurrent (world : World T S) : Prop :=
  ∀ active ∈ world.calls, ∀ answer version, active.stage = .done answer version →
    ∃ newer ≥ active.floor, Decided service userId world newer active.call answer

end Invariant

section Preservation

variable {service userId}

theorem table_version (world : World T S) : world.table world.version = some world.rows := by
  simp [World.table, World.version]

theorem table_grows {world next : World T S} (past : next.past = world.past ++ [world.rows])
    (version : Nat) (rows : List (StoredPolicy T)) (old : world.table version = some rows) :
    next.table version = some rows := by
  rw [World.table, past]
  exact List.getElem?_append_left (by
    obtain ⟨bound, _⟩ := List.getElem?_eq_some_iff.mp old
    exact bound) ▸ old

theorem StageHolds.mono {world next : World T S} {call : Call} {floor : Nat} {stage : Stage S}
    (grows : ∀ version rows, world.table version = some rows → next.table version = some rows)
    (holds : StageHolds service userId world call floor stage) :
    StageHolds service userId next call floor stage := by
  cases stage with
  | decisionLookup | policyLookup | policyLoad => exact holds
  | policyInsert policySet version | toolsLookup policySet version =>
      obtain ⟨used, newer, rows, old, loaded⟩ := holds
      exact ⟨used, newer, rows, grows _ _ old, loaded⟩
  | toolsInsert policySet version tools =>
      obtain ⟨used, newer, ⟨rows, old, loaded⟩, resolved⟩ := holds
      exact ⟨used, newer, ⟨rows, grows _ _ old, loaded⟩, resolved⟩
  | decisionInsert decision version =>
      obtain ⟨used, newer, rows, old, decided⟩ := holds
      exact ⟨used, newer, rows, grows _ _ old, decided⟩
  | done answer version =>
      obtain ⟨newer, rows, old, decided⟩ := holds
      exact ⟨newer, rows, grows _ _ old, decided⟩

theorem decisionOf_loaded {rows : List (StoredPolicy T)} {call : Call} {policySet : S}
    (used : bypasses call.1 call.2 = false)
    (loaded : loadPolicySet service userId rows = .ok policySet) :
    decisionOf service userId rows call.1 call.2 =
      decideWith service userId policySet (service.handleOf call.1.userId) call.1.handle call.2
        fun userHandle => toolsOf service userId policySet userHandle call.1.handle := by
  simp [decisionOf, used, loaded, bind, Except.bind]

theorem conclude_holds {world : World T S} {call : Call} {floor version : Nat} {policySet : S}
    {tools : List String} (used : bypasses call.1 call.2 = false) (newer : floor ≤ version)
    (loaded : Loaded service userId world version policySet)
    (resolved : call.2.isInvokeTool = true → ToolsFor service userId call policySet tools) :
    StageHolds service userId world call floor
      (conclude service userId call policySet version tools) := by
  obtain ⟨rows, old, loaded⟩ := loaded
  have same : decisionOf service userId rows call.1 call.2 =
      decideWith service userId policySet (service.handleOf call.1.userId) call.1.handle call.2
        fun _ => .ok tools := by
    rw [decisionOf_loaded used loaded]
    cases invokes : call.2.isInvokeTool with
    | true =>
        obtain ⟨userHandle, handle, resolved⟩ := resolved invokes
        simp [decideWith, handle, resolved, bind, Except.bind]
    | false =>
        unfold decideWith
        congr 1
        funext userHandle
        congr 1
        funext resource
        rw [entitiesOf_congr userHandle call.1.handle policySet call.2 _ (.ok tools) invokes]
  unfold conclude
  split
  next decision concluded => exact ⟨used, newer, rows, old, same.trans concluded⟩
  next e concluded => exact ⟨newer, rows, old, same.trans concluded⟩

theorem Inv.setCall {world : World T S} {index : Nat} {active : ActiveCall S} {stage : Stage S}
    (inv : Inv service userId world) (floor : active.floor ≤ world.returned)
    (holds : StageHolds service userId world active.call active.floor stage) :
    Inv service userId (world.setCall index active stage) where
  returned := inv.returned
  invalidated := inv.invalidated
  written := inv.written
  policies := inv.policies
  decisions := inv.decisions
  tools := inv.tools
  calls other member := by
    rcases List.mem_or_eq_of_mem_set member with old | rfl
    · exact inv.calls other old
    · exact ⟨floor, holds⟩

theorem Inv.advance {world next : World T S} {index : Nat} {active : ActiveCall S}
    (inv : Inv service userId world) (inside : world.calls[index]? = some active)
    (undisturbed : Undisturbed service userId (.advance index : Act T) world)
    (taken : advance service userId index active world = some next) :
    Inv service userId next := by
  obtain ⟨floor, holds⟩ := inv.calls active (List.mem_of_getElem? inside)
  replace undisturbed := undisturbed active (by simpa using inside)
  have floor' : active.floor ≤ world.invalidated := Nat.le_trans floor inv.returned
  unfold Frona.Policy.advance at taken
  cases stage : active.stage with
  | decisionLookup =>
      simp only [stage] at taken undisturbed holds
      split at taken
      next hit found =>
        obtain rfl := Option.some.inj taken
        obtain ⟨key, _, newer, rows, old, decided⟩ := inv.decisions.get found
        obtain ⟨handles, actions⟩ := decisionKey_inj service.quoting key
        refine inv.setCall floor ⟨Nat.le_trans floor' newer, rows, old, ?_⟩
        simp only [StageUndisturbed, found, OwnedHit] at undisturbed
        rw [← decided]
        exact decisionOf_congr rows handles actions undisturbed.symm
      next =>
        obtain rfl := Option.some.inj taken
        exact inv.setCall floor holds
  | policyLookup =>
      simp only [stage] at taken holds
      split at taken
      next hit found =>
        obtain rfl := Option.some.inj taken
        obtain ⟨_, newer, loaded⟩ := inv.policies.get found
        exact inv.setCall floor ⟨holds, Nat.le_trans floor' newer, loaded⟩
      next =>
        obtain rfl := Option.some.inj taken
        exact inv.setCall floor holds
  | policyLoad =>
      simp only [stage] at taken holds
      have newer : active.floor ≤ world.version := Nat.le_trans floor' inv.invalidated
      split at taken
      next e failed =>
        obtain rfl := Option.some.inj taken
        refine inv.setCall floor ⟨newer, world.rows, table_version world, ?_⟩
        simp [decisionOf, show bypasses active.call.1 active.call.2 = false from holds, failed,
          bind, Except.bind]
      next policySet loaded =>
        obtain rfl := Option.some.inj taken
        exact inv.setCall floor ⟨holds, newer, world.rows, table_version world, loaded⟩
  | policyInsert policySet version =>
      simp only [stage] at taken undisturbed holds
      obtain rfl := Option.some.inj taken
      exact Inv.setCall { inv with
        policies := inv.policies.insert ⟨rfl, undisturbed, holds.2.2⟩ } floor holds
  | toolsLookup policySet version =>
      simp only [stage] at taken undisturbed holds
      obtain ⟨used, newer, loaded⟩ := holds
      split at taken
      next invokes =>
        split at taken
        next e missing =>
          obtain rfl := Option.some.inj taken
          obtain ⟨rows, old, loaded⟩ := loaded
          refine inv.setCall floor ⟨newer, rows, old, ?_⟩
          simp [decisionOf_loaded used loaded, decideWith, missing, bind, Except.bind]
        next userHandle handle =>
          split at taken
          next hit found =>
            obtain rfl := Option.some.inj taken
            obtain ⟨key, _, other, ⟨rows', old', loaded'⟩, owner, owned, resolved⟩ :=
              inv.tools.get found
            simp only [StageUndisturbed, found, OwnedHit, MatchingTools] at undisturbed
            obtain ⟨owners, sets⟩ := undisturbed invokes
            refine inv.setCall floor (conclude_holds used newer loaded fun _ => ?_)
            obtain ⟨rows, old, loaded⟩ := loaded
            have same : other = policySet := by
              simpa [World.policySet, old, old', loaded, loaded'] using sets
            have handles := agentToolsKey_inj key
            exact ⟨owner, owners ▸ owned, by rw [← same, handles]; exact resolved⟩
          next =>
            split at taken
            next e failed =>
              obtain rfl := Option.some.inj taken
              obtain ⟨rows, old, loaded⟩ := loaded
              refine inv.setCall floor ⟨newer, rows, old, ?_⟩
              cases action : active.call.2 with
              | invokeTool toolName toolGroup =>
                  have used := used
                  rw [action] at used
                  simp [decisionOf, used, loaded, decideWith, handle, failed, resourceOf,
                    entitiesOf, Except.map, bind, Except.bind]
              | _ => simp [action, PolicyAction.isInvokeTool] at invokes
            next tools resolved =>
              obtain rfl := Option.some.inj taken
              exact inv.setCall floor ⟨used, newer, loaded, userHandle, handle, resolved⟩
      next other =>
        obtain rfl := Option.some.inj taken
        exact inv.setCall floor (conclude_holds used newer loaded fun invokes =>
          absurd invokes other)
  | toolsInsert policySet version tools =>
      simp only [stage] at taken undisturbed holds
      obtain ⟨used, newer, loaded, resolved⟩ := holds
      obtain rfl := Option.some.inj taken
      exact Inv.setCall { inv with
        tools := inv.tools.insert ⟨rfl, undisturbed, policySet, loaded, resolved⟩ } floor
          (conclude_holds used newer loaded fun _ => resolved)
  | decisionInsert decision version =>
      simp only [stage] at taken undisturbed holds
      obtain ⟨used, newer, decided⟩ := holds
      obtain rfl := Option.some.inj taken
      exact Inv.setCall { inv with
        decisions := inv.decisions.insert ⟨rfl, used, undisturbed, decided⟩ } floor
          ⟨newer, decided⟩
  | done answer version => simp [stage] at taken

theorem Inv.setWriter {world : World T S} {index : Nat} {writer : Writer T}
    (inv : Inv service userId world) (written : writer.written ≤ world.version)
    (covered : writer.stage = .invalidated → writer.written ≤ world.invalidated) :
    Inv service userId (world.setWriter index writer) where
  returned := inv.returned
  invalidated := inv.invalidated
  written other member := by
    rcases List.mem_or_eq_of_mem_set member with old | rfl
    · exact inv.written other old
    · exact ⟨written, covered⟩
  policies := inv.policies
  decisions := inv.decisions
  tools := inv.tools
  calls := inv.calls

theorem Inv.begin {world : World T S} (inv : Inv service userId world) (call : Call) :
    Inv service userId { world with calls := world.calls ++ [⟨call, world.returned,
      if bypasses call.1 call.2 then .done (.ok .allow) world.version else .decisionLookup⟩] } where
  returned := inv.returned
  invalidated := inv.invalidated
  written := inv.written
  policies := inv.policies
  decisions := inv.decisions
  tools := inv.tools
  calls active member := by
    rcases List.mem_append.mp member with old | new
    · exact inv.calls active old
    · obtain rfl := List.mem_singleton.mp new
      refine ⟨Nat.le_refl _, ?_⟩
      cases used : bypasses call.1 call.2 with
      | true =>
          exact ⟨Nat.le_trans inv.returned inv.invalidated, world.rows, table_version world,
            by simp [decisionOf, used]⟩
      | false => exact used

theorem Inv.write {world : World T S} (inv : Inv service userId world)
    (rows : List (StoredPolicy T)) :
    Inv service userId { world with past := world.past ++ [world.rows], rows } where
  returned := inv.returned
  invalidated := by
    have := inv.invalidated
    simp only [World.version, List.length_append, List.length_singleton] at this ⊢
    omega
  written writer member := by
    obtain ⟨written, covered⟩ := inv.written writer member
    refine ⟨?_, covered⟩
    simp only [World.version, List.length_append, List.length_singleton] at written ⊢
    omega
  policies := inv.policies.mono fun _ _ ⟨key, newer, rows, old, loaded⟩ =>
    ⟨key, newer, rows, table_grows rfl _ _ old, loaded⟩
  decisions := inv.decisions.mono fun _ _ ⟨key, used, newer, rows, old, decided⟩ =>
    ⟨key, used, newer, rows, table_grows rfl _ _ old, decided⟩
  tools := inv.tools.mono fun _ _ ⟨key, newer, policySet, ⟨rows, old, loaded⟩, resolved⟩ =>
    ⟨key, newer, policySet, ⟨rows, table_grows rfl _ _ old, loaded⟩, resolved⟩
  calls active member :=
    ⟨(inv.calls active member).1, (inv.calls active member).2.mono (table_grows rfl)⟩

theorem Inv.invalidate {world : World T S} (inv : Inv service userId world) (written : Nat)
    (made : written ≤ world.version) :
    Inv service userId { world with
      policyCache := world.policyCache.retain fun key => decide (key ≠ userId)
      decisionCache := world.decisionCache.retain fun key => !keyOf userId key
      agentToolsCache := world.agentToolsCache.retain fun key => !keyOf userId key
      invalidated := max world.invalidated written } where
  returned := Nat.le_trans inv.returned (Nat.le_max_left ..)
  invalidated := Nat.max_le.mpr ⟨inv.invalidated, made⟩
  written writer member := by
    obtain ⟨written, covered⟩ := inv.written writer member
    exact ⟨written, fun stage => Nat.le_trans (covered stage) (Nat.le_max_left ..)⟩
  policies := by
    dsimp only
    rw [inv.policies.retain_eq_empty]
    · exact Cache.Table.backed_empty
    · intro key entry justified
      simp [justified.1]
  decisions := by
    dsimp only
    rw [inv.decisions.retain_eq_empty]
    · exact Cache.Table.backed_empty
    · rintro key entry ⟨rfl, _⟩
      simp [keyOf_decisionKey]
  tools := by
    dsimp only
    rw [inv.tools.retain_eq_empty]
    · exact Cache.Table.backed_empty
    · rintro key entry ⟨rfl, _⟩
      simp [keyOf_agentToolsKey]
  calls := inv.calls

theorem Inv.step {action : Act T} {world next : World T S} (inv : Inv service userId world)
    (undisturbed : Undisturbed service userId action world)
    (taken : step service userId action world = some next) : Inv service userId next := by
  cases action with
  | begin call =>
      obtain rfl := Option.some.inj taken
      exact inv.begin call
  | advance index =>
      simp only [Frona.Policy.step] at taken
      split at taken
      next => simp at taken
      next active inside => exact inv.advance inside undisturbed taken
  | update writes =>
      obtain rfl := Option.some.inj taken
      refine { inv with written := ?_ }
      intro writer member
      rcases List.mem_append.mp member with old | new
      · exact inv.written writer old
      · obtain rfl := List.mem_singleton.mp new
        exact ⟨Nat.zero_le _, by simp⟩
  | write index =>
      simp only [Frona.Policy.step] at taken
      split at taken
      next write writes written inside =>
        obtain rfl := Option.some.inj taken
        refine (inv.write (write.apply world.rows)).setWriter ?_ (by simp)
        simp [World.version]
      next => simp at taken
  | invalidate index =>
      simp only [Frona.Policy.step] at taken
      split at taken
      next written inside =>
        obtain rfl := Option.some.inj taken
        have made := (inv.written _ (List.mem_of_getElem? inside)).1
        exact (inv.invalidate written made).setWriter made fun _ => Nat.le_max_right ..
      next => simp at taken
  | finish index =>
      simp only [Frona.Policy.step] at taken
      split at taken
      next written inside =>
        obtain rfl := Option.some.inj taken
        obtain ⟨made, covered⟩ := inv.written _ (List.mem_of_getElem? inside)
        refine Inv.setWriter { inv with
          returned := Nat.max_le.mpr ⟨inv.returned, covered rfl⟩
          calls := fun active member => ⟨Nat.le_trans (inv.calls active member).1
            (Nat.le_max_left ..), (inv.calls active member).2⟩ } made (by simp)
      next => simp at taken
  | fail index =>
      simp only [Frona.Policy.step] at taken
      split at taken
      next writes written inside =>
        obtain rfl := Option.some.inj taken
        exact inv.setWriter (inv.written _ (List.mem_of_getElem? inside)).1 (by simp)
      next => simp at taken
  | evict policies decisions tools =>
      obtain rfl := Option.some.inj taken
      exact { inv with
        policies := inv.policies.retain policies
        decisions := inv.decisions.retain decisions
        tools := inv.tools.retain tools }

theorem inv_initial (rows : List (StoredPolicy T)) :
    Inv service userId (World.initial rows : World T S) where
  returned := Nat.le_refl _
  invalidated := Nat.le_refl _
  written := by simp [World.initial]
  policies := Cache.Table.backed_empty
  decisions := Cache.Table.backed_empty
  tools := Cache.Table.backed_empty
  calls := by simp [World.initial]

theorem Inv.allCurrent {world : World T S} (inv : Inv service userId world) :
    AllCurrent service userId world := by
  intro active member answer version stage
  have holds := (inv.calls active member).2
  rw [stage] at holds
  exact ⟨version, holds⟩

/-- In every interleaving whose steps are undisturbed, no call that starts after an update has
returned answers from an older policy set. -/
theorem allCurrent_of_undisturbed (actions : List (Act T)) (rows : List (StoredPolicy T))
    (world : World T S)
    (undisturbed : Machine.Guarded (step service userId) (Undisturbed service userId) actions
      (.initial rows))
    (reached : Machine.run (step service userId) actions (.initial rows) = some world) :
    AllCurrent service userId world := by
  apply Inv.allCurrent
  apply Machine.invariant_run (step service userId) (Undisturbed service userId)
    (Inv service userId) _ actions (.initial rows) world (inv_initial rows) undisturbed reached
  intro action before after inv allowed taken
  exact inv.step allowed taken

end Preservation

section Straddling

instance {V : Type} (call : Call) : (hit : Option (Stamped V)) → Decidable (OwnedHit service call hit)
  | none => isTrue trivial
  | some _ => inferInstanceAs (Decidable (_ = _))

instance [DecidableEq S] (world : World T S) (version : Nat) :
    (hit : Option (Stamped (List String))) →
      Decidable (MatchingTools service userId world version hit)
  | none => isTrue trivial
  | some _ => inferInstanceAs (Decidable (_ = _))

instance [DecidableEq S] (world : World T S) (call : Call) :
    (stage : Stage S) → Decidable (StageUndisturbed service userId world call stage)
  | .decisionLookup => inferInstanceAs (Decidable (OwnedHit service call _))
  | .toolsLookup _ _ => inferInstanceAs (Decidable (_ → OwnedHit service call _ ∧
      MatchingTools service userId world _ _))
  | .policyInsert _ _ | .toolsInsert _ _ _ | .decisionInsert _ _ =>
      inferInstanceAs (Decidable (_ ≤ _))
  | .policyLookup | .policyLoad | .done _ _ => isTrue trivial

instance [DecidableEq S] (action : Act T) (world : World T S) :
    Decidable (Undisturbed service userId action world) :=
  match action with
  | .advance _ => inferInstanceAs (Decidable (∀ active ∈ _, _))
  | .begin _ | .update _ | .write _ | .invalidate _ | .finish _ | .fail _ | .evict .. =>
      isTrue trivial

def World.answer (world : World T S) (index : Nat) :
    Option (Call × Nat × Except AppError AuthorizationDecision) :=
  match world.calls[index]? with
  | some ⟨call, floor, .done answer _⟩ => some (call, floor, answer)
  | _ => none

def ownCall : Call := (ownHelper, invokeShell)

-- One call from its start to its end: seven steps when it finds nothing in the caches.
def wholeCall (index : Nat) : List (Act (Cedar.Policy Empty)) :=
  .begin ownCall :: List.replicate 7 (.advance index)

def revoke : List (Act (Cedar.Policy Empty)) :=
  [.update [.delete "p"], .write 0, .invalidate 0, .finish 0]

theorem allCurrent_of_undisturbed_revoke :
    ∃ world, Machine.run (step twoUsers "u1") (wholeCall 0 ++ revoke ++ wholeCall 1)
      (.initial [permitRow]) = some world ∧ AllCurrent twoUsers "u1" world := by
  cases reached : Machine.run (step twoUsers "u1") (wholeCall 0 ++ revoke ++ wholeCall 1)
      (.initial [permitRow]) with
  | none =>
      have ends : (Machine.run (step twoUsers "u1") (wholeCall 0 ++ revoke ++ wholeCall 1)
          (.initial [permitRow])).isSome = true := by decide
      rw [reached] at ends
      cases ends
  | some world => exact ⟨world, rfl, allCurrent_of_undisturbed _ _ world (by decide) reached⟩

def straddling : List (Act (Cedar.Policy Empty)) :=
  [.begin ownCall, .advance 0, .advance 0, .advance 0] ++ revoke ++
    [.advance 0, .begin ownCall, .advance 1, .advance 1, .advance 1, .advance 1, .advance 1]

theorem deleted_permit_survives :
    ∃ world, Machine.run (step twoUsers "u1") straddling (.initial [permitRow]) = some world ∧
      world.answer 1 = some (ownCall, 1, .ok .allow) ∧ ¬ AllCurrent twoUsers "u1" world := by
  have tables : (Machine.run (step twoUsers "u1") straddling (.initial [permitRow])).map
      (fun world => world.past ++ [world.rows]) = some [[permitRow], []] := by decide
  have answers : (Machine.run (step twoUsers "u1") straddling (.initial [permitRow])).map
      (fun world => world.answer 1) = some (some (ownCall, 1, .ok .allow)) := by decide
  obtain ⟨world, reached, answer⟩ := Option.map_eq_some_iff.mp answers
  rw [reached, Option.map_some, Option.some.injEq] at tables
  refine ⟨world, reached, answer, fun current => ?_⟩
  unfold World.answer at answer
  split at answer
  next call floor allowed version found =>
    simp only [Option.some.injEq, Prod.mk.injEq] at answer
    obtain ⟨rfl, rfl, rfl⟩ := answer
    have member := List.mem_of_getElem? found
    obtain ⟨newer, late, rows, old, decided⟩ := current _ member _ version rfl
    rw [World.table, tables] at old
    -- Only version 1 is as new as the floor, and its table has no row.
    have last : newer = 1 := by
      have bound := (List.getElem?_eq_some_iff.mp old).1
      simp only [List.length_cons, List.length_nil] at bound late
      omega
    obtain rfl : [] = rows := by simpa [last] using old
    have denied : decisionOf twoUsers "u1" [] ownHelper invokeShell ≠ .ok .allow := by decide
    exact denied decided
  next => simp at answer

end Straddling

end Frona.Policy
