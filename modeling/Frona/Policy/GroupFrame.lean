import Frona.Policy.ReplanGroup

set_option autoImplicit false

namespace Frona.Policy

open Cedar

section Elsewhere

variable {T A : Type} (format : TextFormat T A)

def Elsewhere (principal : EntityRef) (action : String) (request : Request) : Prop :=
  request.principal ≠ principal.uid ∨ request.action ≠ actionEntityUid action

def AppliesTo (env : Env A) (request : Request) (text : T) : Prop :=
  ∃ policies, format.parse text = some policies ∧
    ∃ policy ∈ policies, satisfied env request policy = true

def ScopedTo (principal : EntityRef) (action : String) (policy : Cedar.Policy A) : Prop :=
  policy.principal = .eq principal.uid ∧ policy.action = .eq (actionEntityUid action)

theorem ScopedTo.unsatisfied {principal : EntityRef} {action : String} {policy : Cedar.Policy A}
    (own : ScopedTo principal action policy) {request : Request}
    (elsewhere : Elsewhere principal action request) (env : Env A) :
    satisfied env request policy = false := by
  rw [Bool.eq_false_iff]
  intro holds
  obtain ⟨principal', action', -⟩ := (satisfied_iff env request policy).mp holds
  rw [own.1] at principal'
  rw [own.2] at action'
  rcases elsewhere with other | other
  · exact other (by simpa [ScopeConstraint.holds] using principal')
  · exact other (by simpa [ActionConstraint.holds] using action')

theorem not_appliesTo_print {principal : EntityRef} {action : String} {policy : Cedar.Policy A}
    (own : ScopedTo principal action policy) {request : Request}
    (elsewhere : Elsewhere principal action request) (env : Env A) :
    ¬ AppliesTo format env request (format.print policy) := by
  intro ⟨policies, parsed, other, member, holds⟩
  rw [format.parse_print, Option.some.injEq] at parsed
  rw [← parsed, List.mem_singleton] at member
  rw [member, own.unsatisfied elsewhere env] at holds
  cases holds

theorem not_fires_of_not_appliesTo {env : Env A} {request : Request} {text : T}
    (silent : ¬ AppliesTo format env request text) {policies : List (Cedar.Policy A)}
    (parsed : format.parse text = some policies) (effect : Effect) :
    fires env request effect policies = false := by
  rw [Bool.eq_false_iff]
  intro fired
  obtain ⟨policy, member, -, holds⟩ := (fires_iff env request effect policies).mp fired
  exact silent ⟨policies, parsed, policy, member, holds⟩

theorem parseAll_isSome (texts : List T) :
    (parseAll format texts).isSome = true ↔
      ∀ text ∈ texts, (format.parse text).isSome = true := by
  induction texts with
  | nil => simp [parseAll]
  | cons text rest ih =>
      rw [List.forall_mem_cons, ← ih, parseAll]
      cases format.parse text with
      | none => simp
      | some policies => simp

theorem fires_parseAll (env : Env A) (request : Request) (effect : Effect) {texts : List T}
    {policies : List (Cedar.Policy A)} (parsed : parseAll format texts = some policies) :
    fires env request effect policies = true ↔
      ∃ text ∈ texts, ∃ own, format.parse text = some own ∧
        fires env request effect own = true := by
  induction texts generalizing policies with
  | nil =>
      cases parsed
      simp
  | cons text rest ih =>
      rw [parseAll] at parsed
      cases first : format.parse text with
      | none => simp [first] at parsed
      | some own =>
          rw [first] at parsed
          obtain ⟨others, later, rfl⟩ := Option.map_eq_some_iff.mp parsed
          rw [fires_append, Bool.or_eq_true, ih later, List.exists_mem_cons_iff]
          simp [first]

theorem fires_silent {env : Env A} {request : Request} {left right : List T}
    {policies others : List (Cedar.Policy A)} (parsed : parseAll format left = some policies)
    (parsed' : parseAll format right = some others)
    (gone : ∀ text ∈ left, text ∉ right → ¬ AppliesTo format env request text)
    (new : ∀ text ∈ right, text ∉ left → ¬ AppliesTo format env request text)
    (effect : Effect) : fires env request effect policies = fires env request effect others := by
  rw [Bool.eq_iff_iff, fires_parseAll format env request effect parsed,
    fires_parseAll format env request effect parsed']
  constructor
  · intro ⟨text, member, own, read, fired⟩
    refine ⟨text, ?_, own, read, fired⟩
    by_contra missing
    rw [not_fires_of_not_appliesTo format (gone text member missing) read effect] at fired
    cases fired
  · intro ⟨text, member, own, read, fired⟩
    refine ⟨text, ?_, own, read, fired⟩
    by_contra missing
    rw [not_fires_of_not_appliesTo format (new text member missing) read effect] at fired
    cases fired

end Elsewhere

section Planned

variable {T A : Type} {format : TextFormat T A} {ctx : PlanCtx T A} {gctx : GroupCtx T}

@[simp] theorem collapsed_principal (hashOrder : List EntityRef → List EntityRef)
    (hierarchy : ResourceHierarchy) (group : AccessGroup) :
    (maybeCollapseToAncestors hashOrder hierarchy group).principal = group.principal := by
  unfold maybeCollapseToAncestors
  split <;> rfl

@[simp] theorem collapsed_action (hashOrder : List EntityRef → List EntityRef)
    (hierarchy : ResourceHierarchy) (group : AccessGroup) :
    (maybeCollapseToAncestors hashOrder hierarchy group).action = group.action := by
  unfold maybeCollapseToAncestors
  split <;> rfl

theorem mem_effectiveTexts {live : List (StoredPolicy T)} {pending : PendingEdits T}
    {text : T} :
    text ∈ effectiveTexts live pending ↔
      (∃ row ∈ live, row.enabled = true ∧ row.id ∉ pending.deletes ∧ row.policyText = text) ∨
        ∃ created ∈ pending.creates, created.text = text := by
  simp [effectiveTexts, and_assoc]

example : (8 ∈ effectiveTexts [⟨"1", none, "m", "", 7, true, 0, 0⟩] ⟨["1"], [⟨"n", 8⟩]⟩) ∧
    7 ∉ effectiveTexts [⟨"1", none, "m", "", 7, true, 0, 0⟩] ⟨["1"], [⟨"n", 8⟩]⟩ := by
  decide +kernel

theorem deletedBy_owned {ov : AccessOverride} {row : StoredPolicy T}
    (deleted : row ∈ deletedBy format ctx gctx ov) : row ∈ gctx.owned := by
  unfold deletedBy at deleted
  split at deleted
  next => exact (List.mem_filter.mp deleted).1
  next =>
    rw [Option.mem_toList] at deleted
    exact List.mem_of_find?_eq_some deleted

theorem emission_deletes [DecidableEq T] {owned : List (StoredPolicy T)} {name : String}
    {text : T} {id : String} (deleted : id ∈ (applyCanonicalEmission owned name text .new).deletes) :
    ∃ row ∈ owned, row.id = id := by
  unfold applyCanonicalEmission at deleted
  dsimp only at deleted
  split at deleted
  all_goals
    simp only [PendingEdits.create_deletes, PendingEdits.delete_deletes, PendingEdits.new_deletes,
      List.nil_append, List.mem_map] at deleted
    obtain ⟨row, member, same⟩ := deleted
    exact ⟨row, (List.mem_filter.mp member).1, same⟩

theorem emission_creates [DecidableEq T] {owned : List (StoredPolicy T)} {name : String}
    {text : T} {policy : NewPolicy T}
    (created : policy ∈ (applyCanonicalEmission owned name text .new).creates) :
    policy.text = text := by
  unfold applyCanonicalEmission at created
  dsimp only at created
  split at created
  next =>
    simp only [PendingEdits.create_creates, PendingEdits.delete_creates, PendingEdits.new_creates,
      List.nil_append, List.mem_singleton] at created
    rw [created]
  next => simp at created

theorem pendingFor_deletes [DecidableEq T] {pending : PendingEdits T}
    (computed : pendingFor format ctx gctx = .ok pending) {id : String}
    (deleted : id ∈ pending.deletes) : ∃ row ∈ gctx.owned, row.id = id := by
  unfold pendingFor at computed
  dsimp only at computed
  split at computed
  next =>
    cases computed
    exact emission_deletes deleted
  next =>
    cases computed
    exact emission_deletes deleted
  next =>
    split at computed
    next => cases computed
    next edits keptNames run =>
      cases computed
      rcases (mem_sweep _ _ _ _).mp deleted with listed | ⟨row, member, same, -⟩
      next =>
        rw [planOverrides_deletes run, PendingEdits.new_deletes, List.nil_append,
          List.mem_map] at listed
        obtain ⟨row, member, same⟩ := listed
        obtain ⟨ov, -, deletedRow⟩ := List.mem_flatMap.mp member
        exact ⟨row, deletedBy_owned deletedRow, same⟩
      next => exact ⟨row, member, same⟩

theorem pendingFor_creates [DecidableEq T] {pending : PendingEdits T}
    (computed : pendingFor format ctx gctx = .ok pending) {created : NewPolicy T}
    (member : created ∈ pending.creates) :
    ∃ policy, created.text = format.print policy ∧
      ScopedTo gctx.group.principal gctx.group.action policy := by
  unfold pendingFor at computed
  dsimp only at computed
  split at computed
  next =>
    cases computed
    exact ⟨_, emission_creates member, rfl, rfl⟩
  next =>
    cases computed
    exact ⟨_, emission_creates member, rfl, rfl⟩
  next =>
    split at computed
    next => cases computed
    next edits keptNames run =>
      cases computed
      rw [sweep_creates] at member
      obtain ⟨front, back, split⟩ := List.append_of_mem member
      obtain ⟨_, ov, want, _, -, -, -, rfl⟩ := creates_turn run split
      exact ⟨_, rfl, rfl, rfl⟩

end Planned

section Frame

variable {T A : Type} (format : TextFormat T A) (ctx : PlanCtx T A)

def PlanCtx.withRows (live : List (StoredPolicy T)) (managed : List (Cedar.Policy A)) :
    PlanCtx T A :=
  { ctx with live := live, managed := managed }

def decisionNow (request : Request) : Option Decision :=
  (effectivePolicySet format ctx .new).map fun policies =>
    evalRequest ctx.accepts ctx.env policies request

variable [DecidableEq T]

/-- Whatever the group is to become, its edits leave the decision of every other request as it
was. -/
def TouchesOnlyItsGroup (userId : String) (principal : EntityRef) (action : String)
    (live : List (StoredPolicy T)) (managed : List (Cedar.Policy A)) : Prop :=
  ∀ (group : AccessGroup) (edits : List (Edit T)) (backend : Backend)
    (after : List (StoredPolicy T)), group.principal = principal → group.action = action →
    planForGroup format (ctx.withRows live managed) group = .ok edits →
    Applied backend userId edits live after →
    ∀ request, Elsewhere principal action request →
      decisionNow format (ctx.withRows after managed) request =
        decisionNow format (ctx.withRows live managed) request

/-- No policy in the text of a row that is taken for the group's own applies to a request that
is not the group's. -/
def OwnsNothingElse (userId : String) (principal : EntityRef) (action : String)
    (row : StoredPolicy T) : Prop :=
  row.enabled = true → row.userId = some userId → ownsRow format principal action row = true →
    ∀ request, ctx.accepts request = true → Elsewhere principal action request →
      ¬ AppliesTo format ctx.env request row.policyText

variable {format ctx}

omit [DecidableEq T] in
theorem ownsRow_parsed {principal : EntityRef} {action : String} {row : StoredPolicy T}
    (owned : ownsRow format principal action row = true) :
    (format.parse row.policyText).isSome = true := by
  unfold ownsRow parseFirst at owned
  cases parsed : format.parse row.policyText with
  | none => simp [parsed] at owned
  | some policies => rfl

theorem touchesOnlyItsGroup_of_ownsNothingElse {userId : String} {principal : EntityRef}
    {action : String} {live : List (StoredPolicy T)} {managed : List (Cedar.Policy A)}
    (rows : LiveOf userId live)
    (confined : ∀ row ∈ live, OwnsNothingElse format ctx userId principal action row) :
    TouchesOnlyItsGroup format ctx userId principal action live managed := by
  rintro group edits backend after rfl rfl planned applied request elsewhere
  let base : PlanCtx T A := ctx.withRows live managed
  obtain ⟨principalUid, actionUid, -, pending, computed, verified, rfl⟩ :=
    (planForGroup_ok group edits).mp planned
  obtain ⟨created, rfl, creates, fresh⟩ := applied.split
  rw [creation_pendingToEdits] at creates
  have now : effectivePolicySet format
      (base.again (kept (pendingToEdits pending) base.live ++ created) base.hashOrder
        base.hashOrder_perm) .new = effectivePolicySet format base pending :=
    effectivePolicySet_again creates fun p member => (fresh p member).2.1
  obtain ⟨policies, effective, -⟩ := (verifyGroup_ok pending).mp verified
  obtain ⟨later, read, rfl⟩ := Option.map_eq_some_iff.mp effective
  have parsedLater : parseAll format (effectiveTexts live pending) = some later := read
  -- A deleted row is one of the group's, by its id.
  have owned (row : StoredPolicy T) (member : row ∈ live) (deleted : row.id ∈ pending.deletes) :
      row.userId = some userId ∧ ownsRow format group.principal group.action row = true := by
    obtain ⟨other, listed, same⟩ := pendingFor_deletes computed deleted
    obtain ⟨inside, kind⟩ := List.mem_filter.mp listed
    obtain rfl := rows.id_inj inside member same
    simp only [Bool.and_eq_true, collapsed_principal, collapsed_action] at kind
    refine ⟨?_, kind.2⟩
    rcases rows.users other inside with none | mine
    · simp [none] at kind
    · exact mine
  have readable : (parseAll format (effectiveTexts live .new)).isSome = true := by
    rw [parseAll_isSome]
    intro text member
    rcases mem_effectiveTexts.mp member with ⟨row, listed, enabled, -, rfl⟩ | ⟨c, listed, -⟩
    · by_cases deleted : row.id ∈ pending.deletes
      · exact ownsRow_parsed (owned row listed deleted).2
      · exact (parseAll_isSome format _).mp (by rw [parsedLater]; rfl) _
          (mem_effectiveTexts.mpr (.inl ⟨row, listed, enabled, deleted, rfl⟩))
    · cases listed
  obtain ⟨earlier, parsed⟩ := Option.isSome_iff_exists.mp readable
  have after : decisionNow format
      (ctx.withRows (kept (pendingToEdits pending) live ++ created) managed) request =
        some (evalRequest ctx.accepts ctx.env (later ++ managed) request) := by
    unfold decisionNow
    rw [show effectivePolicySet format (ctx.withRows (kept (pendingToEdits pending) live ++ created)
      managed) .new = some (later ++ managed) from now.trans effective]
    rfl
  have before : decisionNow format (ctx.withRows live managed) request =
      some (evalRequest ctx.accepts ctx.env (earlier ++ managed) request) := by
    unfold decisionNow effectivePolicySet
    rw [show (ctx.withRows live managed).live = live from rfl, parsed]
    rfl
  rw [after, before, Option.some.injEq]
  unfold evalRequest
  split
  next accepted =>
    refine isAuthorized_congr _ _ _ _ _ _ fun effect => ?_
    rw [fires_append, fires_append]
    congr 1
    refine fires_silent format parsedLater parsed ?_ ?_ effect
    · intro text member missing
      rcases mem_effectiveTexts.mp member with ⟨row, listed, enabled, -, rfl⟩ | ⟨c, listed, rfl⟩
      · exact absurd (mem_effectiveTexts.mpr (.inl ⟨row, listed, enabled, by simp, rfl⟩)) missing
      · obtain ⟨policy, text, own⟩ := pendingFor_creates computed listed
        simp only [groupCtx, collapsed_principal, collapsed_action] at own
        rw [text]
        exact not_appliesTo_print format own elsewhere ctx.env
    · intro text member missing
      rcases mem_effectiveTexts.mp member with ⟨row, listed, enabled, -, rfl⟩ | ⟨c, listed, -⟩
      · by_cases deleted : row.id ∈ pending.deletes
        · exact confined row listed enabled (owned row listed deleted).1
            (owned row listed deleted).2 request accepted elsewhere
        · exact absurd (mem_effectiveTexts.mpr (.inl ⟨row, listed, enabled, deleted, rfl⟩)) missing
      · cases listed
  next => rfl

theorem planForGroup_nothing {principal : EntityRef} {action : String} {row : StoredPolicy T}
    {managed : List (Cedar.Policy A)} (enabled : row.enabled = true)
    (user : row.userId.isSome = true) (owned : ownsRow format principal action row = true)
    (principalRead : (principal.toCedarUid format).isSome = true)
    (actionRead : (actionUid format action).isSome = true) :
    planForGroup format (ctx.withRows [row] managed) ⟨principal, action, none, []⟩ =
      .ok [.delete row.id] := by
  obtain ⟨principalUid, readPrincipal⟩ := Option.isSome_iff_exists.mp principalRead
  obtain ⟨actionUid', readAction⟩ := Option.isSome_iff_exists.mp actionRead
  have nothing : maybeCollapseToAncestors (ctx.withRows [row] managed).hashOrder
      (ctx.withRows [row] managed).hierarchy ⟨principal, action, none, []⟩ =
        ⟨principal, action, none, []⟩ := by
    unfold maybeCollapseToAncestors
    split
    next => rfl
    next =>
      have unordered : (ctx.withRows [row] managed).hashOrder [] = [] :=
        ((ctx.withRows [row] managed).hashOrder_perm []).eq_nil
      simp [ancestorsOf, unordered]
  have rows : ownedRows format principal action (ctx.withRows [row] managed).live = [row] := by
    have mine : (row.enabled && row.userId.isSome && ownsRow format principal action row) = true := by
      simp [enabled, user, owned]
    simp [ownedRows, PlanCtx.withRows, mine]
  have ctxOf : groupCtx format (ctx.withRows [row] managed) ⟨principal, action, none, []⟩
      principalUid actionUid' =
        ⟨⟨principal, action, none, []⟩, [row], principalUid, actionUid'⟩ := by
    rw [groupCtx, nothing, rows]
  rw [planForGroup_ok]
  refine ⟨principalUid, actionUid', ⟨by rw [nothing]; exact readPrincipal,
    by rw [nothing]; exact readAction⟩, PendingEdits.new.delete [row], ?_, ?_, rfl⟩
  · rw [ctxOf]
    simp [pendingFor, canonicalShape, planOverrides, sweep]
  · rw [ctxOf, verifyGroup_ok]
    refine ⟨managed, ?_, fun _ => ⟨by simp, by simp⟩⟩
    simp [effectivePolicySet, effectiveTexts, PlanCtx.withRows, parseAll]

def permitAll : Cedar.Policy A := ⟨.permit, .any, .any, .any, [], []⟩

omit [DecidableEq T] in
theorem silent_of_isAuthorized {env : Env A} {request : Request} {own : List (Cedar.Policy A)}
    (same : ∀ managed, isAuthorized env request (own ++ managed) = isAuthorized env request managed)
    (effect : Effect) : fires env request effect own = false := by
  have forbids : fires env request .forbid own = false := by
    have allowed : isAuthorized env request [permitAll] = .allow := by
      simp [isAuthorized, permitAll, satisfied_of_no_conditions, ScopeConstraint.holds,
        ActionConstraint.holds]
    rw [← same, isAuthorized_allow, fires_append, fires_append] at allowed
    exact (Bool.or_eq_false_iff.mp allowed.2).1
  cases effect with
  | forbid => exact forbids
  | permit =>
      have denied : isAuthorized env request (own ++ []) = .deny := by
        rw [same]
        rfl
      rw [List.append_nil, isAuthorized_deny, forbids] at denied
      simpa using denied

variable (format ctx) in
/-- Whatever rows of a kind are live, and whatever policies are managed, reconciling the group
touches only its own requests, exactly when no row of the kind that is taken for the group's own
holds a policy for another request. -/
theorem touchesOnlyItsGroup_iff (userId : String) (principal : EntityRef) (action : String)
    (storable : StoredPolicy T → Prop)
    (principalRead : (principal.toCedarUid format).isSome = true)
    (actionRead : (actionUid format action).isSome = true) :
    (∀ live managed, (∀ row ∈ live, storable row) → LiveOf userId live →
      TouchesOnlyItsGroup format ctx userId principal action live managed) ↔
      ∀ row, storable row → OwnsNothingElse format ctx userId principal action row := by
  constructor
  · intro frames row stored enabled user owned request accepted elsewhere applies
    obtain ⟨own, parsed, policy, member, holds⟩ := applies
    have alone : LiveOf userId [row] := ⟨by simp [user], by simp, by simp⟩
    have same (managed : List (Cedar.Policy A)) : isAuthorized ctx.env request (own ++ managed) =
        isAuthorized ctx.env request managed := by
      have planned : planForGroup format (ctx.withRows [row] managed) ⟨principal, action, none, []⟩ =
          .ok [.delete row.id] :=
        planForGroup_nothing enabled (by simp [user]) owned principalRead actionRead
      have applied : Applied (failsAt none) userId [.delete row.id] [row] [] :=
        ⟨[], by simp [kept, Edit.removes], rfl, by simp⟩
      have kept := frames [row] managed (by simpa using stored) alone _ _ _ _ rfl rfl planned applied
        request elsewhere
      simpa [decisionNow, effectivePolicySet, effectiveTexts, PlanCtx.withRows, parseAll, enabled,
        parsed, evalRequest, accepted] using kept.symm
    have silent := silent_of_isAuthorized same policy.effect
    rw [(fires_iff _ _ _ _).mpr ⟨policy, member, rfl, holds⟩] at silent
    cases silent
  · intro confined live managed stored rows
    exact touchesOnlyItsGroup_of_ownsNothingElse rows fun row member =>
      confined row (stored row member)

end Frame

section SharedText

-- One row with a permit of the agent for a tool, and a permit of another agent for it.
def sharedRow : StoredPolicy (List (Cedar.Policy Empty)) :=
  { ruleRow "s" .permit (.tool "x") with
    policyText := buildPerResourceText plainFormat "s" (.agent "a") "invoke_tool" (.tool "x") .permit ++
      buildPerResourceText plainFormat "t" (.agent "b") "invoke_tool" (.tool "x") .permit }

def denyTool : AccessGroup := ⟨.agent "a", "invoke_tool", none, [⟨.tool "x", .deny⟩]⟩

theorem touchesOnlyItsGroup_iff_rules :
    (∀ live managed, (∀ row ∈ live, row ∈ twoPermits) → LiveOf "u" live →
      TouchesOnlyItsGroup plainFormat toolCtx "u" (.agent "a") "invoke_tool" live managed) ↔
      ∀ row, row ∈ twoPermits →
        OwnsNothingElse plainFormat toolCtx "u" (.agent "a") "invoke_tool" row :=
  touchesOnlyItsGroup_iff plainFormat toolCtx "u" (.agent "a") "invoke_tool" (· ∈ twoPermits)
    (by decide) (by decide)

theorem shared_text_deleted :
    ¬ ∀ (ctx : PlanCtx (List (Cedar.Policy Empty)) Empty) (userId : String)
        (principal : EntityRef) (action : String)
        (live : List (StoredPolicy (List (Cedar.Policy Empty))))
        (managed : List (Cedar.Policy Empty)), LiveOf userId live →
      TouchesOnlyItsGroup plainFormat ctx userId principal action live managed := by
  intro always
  have one : LiveOf "u" [sharedRow] :=
    ⟨by decide, by decide, by decide⟩
  have planned : planForGroup plainFormat (toolCtx.withRows [sharedRow] []) denyTool =
      .ok [.delete "s"] := by
    decide
  have applied : Applied (failsAt none) "u" [.delete "s"] [sharedRow] [] :=
    ⟨[], by decide, rfl, by simp⟩
  have same := always toolCtx "u" (.agent "a") "invoke_tool" [sharedRow] [] one denyTool _ _ _ rfl rfl
    planned applied
    ⟨EntityRef.uid (.agent "b"), actionEntityUid "invoke_tool", EntityRef.uid (.tool "x")⟩
    (.inl (by decide))
  exact absurd same (by decide)

end SharedText

end Frona.Policy
