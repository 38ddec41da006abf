import Frona.Policy.ReplanRows
import Mathlib.Data.String.Basic

set_option autoImplicit false

namespace Frona.Policy

open Cedar

section Shape

variable {T A : Type}

theorem maybeCollapse_perm (hashOrder hashOrder' : List EntityRef → List EntityRef)
    (perm : ∀ keys, (hashOrder keys).Perm keys) (perm' : ∀ keys, (hashOrder' keys).Perm keys)
    (hierarchy : ResourceHierarchy) (group : AccessGroup) :
    ∃ overrides, maybeCollapseToAncestors hashOrder' hierarchy group =
        { maybeCollapseToAncestors hashOrder hierarchy group with overrides := overrides } ∧
      overrides.Perm (maybeCollapseToAncestors hashOrder hierarchy group).overrides := by
  unfold maybeCollapseToAncestors
  split
  next => exact ⟨group.overrides, rfl, List.Perm.refl _⟩
  next =>
    refine ⟨_, rfl, List.Perm.append_left _ ?_⟩
    exact ((perm' _).trans (perm _).symm).flatMap_right _

theorem refLE_antisymm {r s : EntityRef} (le : refLE r s) (ge : refLE s r) : r = s := by
  have same : r.cedarType = s.cedarType ∧ r.id = s.id := by
    rcases le with less | ⟨type, below⟩ <;> rcases ge with less' | ⟨type', above⟩
    · exact absurd less (lt_asymm less')
    · exact absurd (type' ▸ less) (lt_irrefl _)
    · exact absurd (type ▸ less') (lt_irrefl _)
    · exact ⟨type, le_antisymm below above⟩
  have := EntityRef.isUid_uid r s
  simpa [EntityRef.isUid, EntityRef.uid, same.1, same.2] using this

instance : Std.Total refLE where
  total r s := by
    rcases lt_trichotomy r.cedarType s.cedarType with less | same | more
    · exact .inl (.inl less)
    · rcases le_total r.id s.id with below | above
      · exact .inl (.inr ⟨same, below⟩)
      · exact .inr (.inr ⟨same.symm, above⟩)
    · exact .inr (.inl more)

instance : IsTrans EntityRef refLE where
  trans r s t first second := by
    rcases first with less | ⟨same, below⟩ <;> rcases second with less' | ⟨same', below'⟩
    · exact .inl (less.trans less')
    · exact .inl (same' ▸ less)
    · exact .inl (same ▸ less')
    · exact .inr ⟨same.trans same', below.trans below'⟩

theorem carveoutPolicy_perm (name : String) (principal : EntityRef) (action : String)
    (effect : Effect) {resources resources' : List EntityRef} (perm : resources'.Perm resources) :
    (carveoutPolicy name principal action effect resources' : Cedar.Policy A) =
      carveoutPolicy name principal action effect resources := by
  have same := ((List.perm_insertionSort refLE resources').trans perm).trans
    (List.perm_insertionSort refLE resources).symm
  have sorted : resources'.insertionSort refLE = resources.insertionSort refLE :=
    same.eq_of_pairwise (fun _ _ _ _ => refLE_antisymm)
      (List.pairwise_insertionSort refLE resources') (List.pairwise_insertionSort refLE resources)
  rw [carveoutPolicy, carveoutPolicy, sorted]

inductive SameShape : CanonicalShape → CanonicalShape → Prop where
  | perOverride : SameShape .perOverride .perOverride
  | wildcard (effect : Effect) : SameShape (.wildcard effect) (.wildcard effect)
  | carveout (effect : Effect) {resources resources' : List EntityRef}
      (perm : resources'.Perm resources) :
      SameShape (.carveout effect resources') (.carveout effect resources)

theorem canonicalShape_perm (group : AccessGroup) {overrides : List AccessOverride}
    (perm : overrides.Perm group.overrides) :
    SameShape (canonicalShape { group with overrides := overrides }) (canonicalShape group) := by
  unfold canonicalShape
  cases group.default with
  | none => exact .perOverride
  | some fallback =>
      have carved := (perm.filter fun ov =>
        decide (ov.intent ≠ fallback) && decide (ov.intent ≠ .default)).map (·.resource)
      cases wanted : wantOf fallback with
      | none => simpa [wanted] using SameShape.perOverride
      | some want =>
          simp only [wanted]
          have empty := carved.isEmpty_eq
          rw [empty]
          split
          next => exact .wildcard _
          next => exact .carveout _ carved

end Shape

section Emission

variable {T A : Type} {format : TextFormat T A}

theorem collectResourceOrTerms_foldl (rest : List EntityRef) (chain : Expr A)
    (terms : List (String × String)) (collected : collectResourceOrTerms chain = some terms) :
    collectResourceOrTerms (rest.foldl (fun chain r => .or chain (eqClause r)) chain) =
      some (terms ++ rest.map fun r => (r.cedarType, r.id)) := by
  induction rest generalizing chain terms with
  | nil => simpa using collected
  | cons r rest ih =>
      have step : collectResourceOrTerms (.or chain (eqClause r) : Expr A) =
          some (terms ++ [(r.cedarType, r.id)]) := by
        simp only [collectResourceOrTerms, collected]
        rfl
      rw [List.foldl_cons, ih _ _ step]
      simp

theorem collectResourceOrTerms_chain (resources : List EntityRef) (some' : resources ≠ []) :
    collectResourceOrTerms (resourceOrChain resources : Expr A) =
      some (resources.map fun r => (r.cedarType, r.id)) := by
  cases resources with
  | nil => exact absurd rfl some'
  | cons first rest => exact collectResourceOrTerms_foldl rest _ [(first.cedarType, first.id)] rfl

theorem isOwned_carveout (name : String) (principal : EntityRef) (action : String)
    (effect : Effect) (resources : List EntityRef) (some' : resources ≠ []) :
    isOwned (carveoutPolicy name principal action effect resources : Cedar.Policy A) principal
        action false = true ↔
      ∀ r ∈ resources, ∀ s ∈ resources, r.cedarType = s.cedarType := by
  have sorted : resources.insertionSort refLE ≠ [] := by
    intro empty
    have := List.perm_insertionSort refLE resources
    rw [empty] at this
    exact some' this.symm.eq_nil
  have collected := collectResourceOrTerms_chain (A := A) _ sorted
  obtain ⟨first, rest, split⟩ := List.exists_cons_of_ne_nil sorted
  have member (r : EntityRef) : r ∈ resources ↔ r ∈ first :: rest := by
    rw [← split, List.mem_insertionSort]
  have kind : conditionKind
      (carveoutPolicy name principal action effect resources : Cedar.Policy A) =
        if (resources.insertionSort refLE).all fun r => decide (r.cedarType = first.cedarType) then
          .carveoutUnless ((resources.insertionSort refLE).map fun r => (r.cedarType, r.id))
        else .other := by
    unfold conditionKind carveoutPolicy groupPolicy
    simp only [collected]
    rw [split, List.map_cons]
    simp [List.all_map, Function.comp_def]
  have owned : isOwned (carveoutPolicy name principal action effect resources : Cedar.Policy A)
      principal action false =
        (resources.insertionSort refLE).all fun r => decide (r.cedarType = first.cedarType) := by
    have scope : principalConstraintMatches
        (carveoutPolicy name principal action effect resources : Cedar.Policy A) principal = true ∧
      actionConstraintMatches
        (carveoutPolicy name principal action effect resources : Cedar.Policy A) action = true := by
      simp [carveoutPolicy, groupPolicy, principalConstraintMatches, actionConstraintMatches,
        actionEntityUid, entityUid, EntityRef.isUid_uid]
    simp only [isOwned, scope, kind, Bool.false_eq_true, Bool.not_true, if_false]
    rw [show (carveoutPolicy name principal action effect resources : Cedar.Policy A).resource =
      .any from rfl]
    cases all : (resources.insertionSort refLE).all fun r => decide (r.cedarType = first.cedarType)
      <;> simp
  rw [owned, split, List.all_eq_true]
  constructor
  · intro all r inLeft s inRight
    have left := all r ((member r).mp inLeft)
    have right := all s ((member s).mp inRight)
    simp only [decide_eq_true_eq] at left right
    rw [left, right]
  · intro all r inside
    simp only [decide_eq_true_eq]
    exact all r ((member r).mpr inside) first ((member first).mpr (by simp))

theorem ownsRow_wildcard (name : String) (principal : EntityRef) (action : String)
    (effect : Effect) {row : StoredPolicy T}
    (text : row.policyText = buildWildcardText format name principal action effect)
    (user : row.userId.isSome = true) : ownsRow format principal action row = true := by
  have parsed : parseFirst format row.policyText =
      some (wildcardPolicy name principal action effect) := by
    rw [text]
    exact parseFirst_print _
  have owner : row.userId.isNone = false := by simpa using user
  unfold ownsRow
  simp only [parsed, owner]
  simp [isOwned, wildcardPolicy, groupPolicy, conditionKind, principalConstraintMatches,
    actionConstraintMatches, actionEntityUid, entityUid, EntityRef.isUid_uid]

theorem ownsRow_carveout (name : String) (principal : EntityRef) (action : String)
    (effect : Effect) (resources : List EntityRef) (some' : resources ≠ []) {row : StoredPolicy T}
    (text : row.policyText = buildCarveoutText format name principal action effect resources)
    (user : row.userId.isSome = true) :
    ownsRow format principal action row = true ↔
      ∀ r ∈ resources, ∀ s ∈ resources, r.cedarType = s.cedarType := by
  have parsed : parseFirst format row.policyText =
      some (carveoutPolicy name principal action effect resources) := by
    rw [text]
    exact parseFirst_print _
  have owner : row.userId.isNone = false := by simpa using user
  unfold ownsRow
  simp only [parsed, owner]
  exact isOwned_carveout name principal action effect resources some'

section Canonical

variable [DecidableEq T]

theorem emission_new (owned : List (StoredPolicy T)) (name : String) (text : T) :
    applyCanonicalEmission owned name text .new = .new ↔
      ∃ row, owned.find? (fun p => decide (p.policyText = text)) = some row ∧
        ∀ other ∈ owned, other.id = row.id := by
  unfold applyCanonicalEmission
  cases found : owned.find? (fun p => decide (p.policyText = text)) with
  | none =>
      simp only [Option.map_none, Option.isNone_none, if_true, reduceCtorEq, false_and,
        exists_false, iff_false]
      intro same
      have := congrArg PendingEdits.creates same
      simp at this
  | some row =>
      simp only [Option.map_some, Option.isNone_some, Bool.false_eq_true, if_false,
        Option.some.injEq, exists_eq_left']
      constructor
      · intro same other member
        have deletes := congrArg PendingEdits.deletes same
        simp only [PendingEdits.delete_deletes, PendingEdits.new_deletes, List.nil_append,
          List.map_eq_nil_iff, List.filter_eq_nil_iff] at deletes
        simpa using deletes other member
      · intro all
        apply PendingEdits.eq_new
        · simp only [PendingEdits.delete_deletes, PendingEdits.new_deletes, List.nil_append,
            List.map_eq_nil_iff, List.filter_eq_nil_iff]
          intro other member
          simp [all other member]
        · rfl

example : applyCanonicalEmission [⟨"1", none, "n", "", 7, true, 0, 0⟩,
    ⟨"2", none, "n", "", 7, true, 0, 0⟩] "n" 7 .new = ⟨["2"], []⟩ := by decide +kernel

theorem emission_again {principal : EntityRef} {action : String}
    {live created : List (StoredPolicy T)} {name : String} {text : T}
    (creates : created.map (fun p => (p.name, p.policyText)) =
      (applyCanonicalEmission (ownedRows format principal action live) name text .new).creates.map
        fun c => (c.name, c.text))
    (fresh : ∀ p ∈ created, p.userId.isSome = true ∧ p.enabled = true)
    (own : Prop)
    (owns : ∀ row : StoredPolicy T, row.policyText = text → row.userId.isSome = true →
      (ownsRow format principal action row = true ↔ own)) :
    applyCanonicalEmission
        (ownedRows format principal action
          (kept (pendingToEdits
            (applyCanonicalEmission (ownedRows format principal action live) name text .new)) live ++
              created)) name text .new = .new ↔ own := by
  rw [emission_new, kept_pendingToEdits]
  have next : ownedRows format principal action
      ((live.filter fun p => decide (p.id ∉ (applyCanonicalEmission
        (ownedRows format principal action live) name text .new).deletes)) ++ created) =
      ((ownedRows format principal action live).filter fun p => decide (p.id ∉
        (applyCanonicalEmission (ownedRows format principal action live) name text .new).deletes)) ++
      created.filter fun p => ownsRow format principal action p := by
    unfold ownedRows
    rw [List.filter_append, List.filter_comm]
    congr 1
    apply List.filter_congr
    intro p member
    simp [(fresh p member).1, (fresh p member).2]
  rw [next]
  cases found : (ownedRows format principal action live).find?
      (fun p => decide (p.policyText = text)) with
  | some row =>
      have emission : applyCanonicalEmission (ownedRows format principal action live) name text
          .new = PendingEdits.new.delete ((ownedRows format principal action live).filter
            fun p => decide (some p.id ≠ some row.id)) := by
        simp [applyCanonicalEmission, found]
      have deletes : (applyCanonicalEmission (ownedRows format principal action live) name text
          .new).deletes = ((ownedRows format principal action live).filter
            fun p => decide (some p.id ≠ some row.id)).map (·.id) := by
        rw [emission]
        rfl
      have none : created = [] := by
        rw [emission] at creates
        simpa using creates
      have member := List.mem_of_find?_eq_some found
      have text' : row.policyText = text := by simpa using List.find?_some found
      have yes : own := by
        obtain ⟨_, kind⟩ := List.mem_filter.mp member
        simp only [Bool.and_eq_true] at kind
        exact (owns row text' kind.1.2).mp kind.2
      simp only [yes, iff_true]
      subst none
      -- The kept row alone is left.
      have spared (p : StoredPolicy T)
          (left : p ∈ (ownedRows format principal action live).filter fun p => decide (p.id ∉
            (applyCanonicalEmission (ownedRows format principal action live) name text
              .new).deletes)) : p.id = row.id := by
        obtain ⟨owned, undeleted⟩ := List.mem_filter.mp left
        by_contra differ
        refine of_decide_eq_true undeleted ?_
        rw [deletes]
        exact List.mem_map.mpr ⟨p, List.mem_filter.mpr ⟨owned, by simpa using differ⟩, rfl⟩
      have rowLeft : row ∈ (ownedRows format principal action live).filter fun p => decide (p.id ∉
          (applyCanonicalEmission (ownedRows format principal action live) name text
            .new).deletes) := by
        refine List.mem_filter.mpr ⟨member, decide_eq_true fun deleted => ?_⟩
        rw [deletes] at deleted
        obtain ⟨p, listed, same⟩ := List.mem_map.mp deleted
        have differ := (List.mem_filter.mp listed).2
        simp [same] at differ
      simp only [List.filter_nil, List.append_nil]
      cases again : ((ownedRows format principal action live).filter fun p => decide (p.id ∉
          (applyCanonicalEmission (ownedRows format principal action live) name text
            .new).deletes)).find? fun p => decide (p.policyText = text) with
      | none =>
          have := List.find?_eq_none.mp again row rowLeft
          simp [text'] at this
      | some first =>
          refine ⟨first, rfl, fun other listed => ?_⟩
          rw [spared other listed, spared first (List.mem_of_find?_eq_some again)]
  | none =>
      have emission : applyCanonicalEmission (ownedRows format principal action live) name text
          .new = (PendingEdits.new.delete (ownedRows format principal action live)).create
            ⟨name, text⟩ := by
        simp [applyCanonicalEmission, found]
      have gone : (ownedRows format principal action live).filter (fun p => decide (p.id ∉
          (applyCanonicalEmission (ownedRows format principal action live) name text
            .new).deletes)) = [] := by
        rw [List.filter_eq_nil_iff]
        intro p member kept
        refine of_decide_eq_true kept ?_
        rw [emission]
        exact List.mem_map.mpr ⟨p, member, rfl⟩
      rw [emission] at creates
      obtain ⟨row, nothing, rfl, same, none⟩ := List.map_eq_cons_iff.mp creates
      obtain rfl := List.map_eq_nil_iff.mp none
      simp only [Prod.mk.injEq] at same
      have owned := owns row same.2 (fresh row (by simp)).1
      rw [gone, List.nil_append]
      cases mine : ownsRow format principal action row with
      | true =>
          rw [mine] at owned
          simp [mine, same.2, owned.mp rfl]
      | false =>
          rw [mine] at owned
          simp only [Bool.false_eq_true, false_iff] at owned
          simp [mine, owned]

end Canonical

end Emission

section Verification

variable {T A : Type} {format : TextFormat T A} {ctx : PlanCtx T A} {gctx : GroupCtx T}

def Decides (format : TextFormat T A) (ctx : PlanCtx T A) (gctx : GroupCtx T)
    (policies : List (Cedar.Policy A)) (resource : EntityRef) (want : Decision) : Prop :=
  ∃ uid, resource.toCedarUid format = some uid ∧
    evalRequest ctx.accepts ctx.env policies ⟨gctx.principalUid, gctx.actionUid, uid⟩ = want

theorem verifyResource_ok (policies : List (Cedar.Policy A)) (pending : PendingEdits T)
    (failing : Option EntityRef) (resource : EntityRef) (want : Decision) :
    verifyResource format ctx gctx policies pending failing resource want = .ok () ↔
      Decides format ctx gctx policies resource want := by
  unfold verifyResource Decides
  cases resource.toCedarUid format with
  | none => simp
  | some uid =>
      simp only [Option.some.injEq, exists_eq_left']
      split
      next decided => simp [decided]
      next other => simp [other]

theorem verifyOverrides_ok (policies : List (Cedar.Policy A)) (pending : PendingEdits T)
    (overrides : List AccessOverride) :
    verifyOverrides format ctx gctx policies pending overrides = .ok () ↔
      ∀ ov ∈ overrides, ∀ want, wantOf ov.intent = some want →
        Decides format ctx gctx policies ov.resource want := by
  induction overrides with
  | nil => simp [verifyOverrides]
  | cons ov rest ih =>
      rw [List.forall_mem_cons, ← ih]
      simp only [verifyOverrides]
      cases wanted : wantOf ov.intent with
      | none => simp
      | some want =>
          simp only [Option.some.injEq, forall_eq']
          rw [← verifyResource_ok policies pending (some ov.resource)]
          cases verifyResource format ctx gctx policies pending (some ov.resource) ov.resource
              want with
          | error e => simp
          | ok done => simp

theorem verifyGroup_ok (pending : PendingEdits T) :
    verifyGroup format ctx gctx pending = .ok () ↔
      ∃ policies, effectivePolicySet format ctx pending = some policies ∧
        (gctx.group.default.all (fun fallback => (wantOf fallback).isSome) = true →
          (∀ fallback want, gctx.group.default = some fallback → wantOf fallback = some want →
            Decides format ctx gctx policies
              (sentinelResource (resourceTypeForAction gctx.group.action)) want) ∧
          ∀ ov ∈ gctx.group.overrides, ∀ want, wantOf ov.intent = some want →
            Decides format ctx gctx policies ov.resource want) := by
  unfold verifyGroup
  cases effectivePolicySet format ctx pending with
  | none => simp
  | some policies =>
      simp only [Option.some.injEq, exists_eq_left']
      cases gctx.group.default with
      | none => simp [verifyOverrides_ok]
      | some fallback =>
          cases wanted : wantOf fallback with
          | none => simp [wanted]
          | some want =>
              have sentinel : (∀ other want', some fallback = some other →
                  wantOf other = some want' → Decides format ctx gctx policies
                    (sentinelResource (resourceTypeForAction gctx.group.action)) want') ↔
                  Decides format ctx gctx policies
                    (sentinelResource (resourceTypeForAction gctx.group.action)) want := by
                constructor
                · exact fun all => all fallback want rfl wanted
                · intro decided other want' same wanted'
                  obtain rfl := Option.some.inj same
                  obtain rfl := Option.some.inj (wanted.symm.trans wanted')
                  exact decided
              simp only [Option.all_some, wanted, Option.isSome_some, forall_const]
              rw [sentinel, ← verifyResource_ok policies pending none,
                ← verifyOverrides_ok policies pending]
              cases verifyResource format ctx gctx policies pending none
                  (sentinelResource (resourceTypeForAction gctx.group.action)) want with
              | error e => simp
              | ok done => simp

variable (format ctx) in
def groupCtx (group : AccessGroup) (principalUid actionUid : EntityUid) : GroupCtx T :=
  let group := maybeCollapseToAncestors ctx.hashOrder ctx.hierarchy group
  ⟨group, ownedRows format group.principal group.action ctx.live, principalUid, actionUid⟩

variable (format ctx) in
/-- The names of the group's principal and action are read back. -/
structure ReadsBack (group : AccessGroup) (principalUid actionUid' : EntityUid) : Prop where
  principal : (maybeCollapseToAncestors ctx.hashOrder ctx.hierarchy group).principal.toCedarUid
    format = some principalUid
  action : actionUid format (maybeCollapseToAncestors ctx.hashOrder ctx.hierarchy group).action =
    some actionUid'

theorem planForGroup_ok [DecidableEq T] (group : AccessGroup) (edits : List (Edit T)) :
    planForGroup format ctx group = .ok edits ↔
      ∃ principalUid actionUid, ReadsBack format ctx group principalUid actionUid ∧
        ∃ pending,
          pendingFor format ctx (groupCtx format ctx group principalUid actionUid) = .ok pending ∧
          verifyGroup format ctx (groupCtx format ctx group principalUid actionUid) pending =
            .ok () ∧
          edits = pendingToEdits pending := by
  unfold planForGroup
  constructor
  · intro planned
    dsimp only at planned
    split at planned
    next principalUid actionUid principal action =>
      split at planned
      next => cases planned
      next pending computed =>
        split at planned
        next => cases planned
        next verified =>
          exact ⟨principalUid, actionUid, ⟨principal, action⟩, pending, computed, verified,
            (Except.ok.inj planned).symm⟩
    next => cases planned
  · intro ⟨principalUid, actionUid, reads, pending, computed, verified, same⟩
    simp only [reads.principal, reads.action]
    unfold groupCtx at computed verified
    simp only [computed, verified, same]

end Verification

section Again

variable {T A : Type} {format : TextFormat T A} {ctx : PlanCtx T A} {gctx : GroupCtx T}
  {created : List (StoredPolicy T)} {pending : PendingEdits T}
  {hashOrder : List EntityRef → List EntityRef}
  {hashOrder_perm : ∀ keys, (hashOrder keys).Perm keys}
  {overrides : List AccessOverride} {owned : List (StoredPolicy T)}

theorem effectivePolicySet_again
    (creates : created.map (fun p => (p.name, p.policyText)) =
      pending.creates.map fun c => (c.name, c.text))
    (enabled : ∀ p ∈ created, p.enabled = true) :
    effectivePolicySet format (ctx.again (kept (pendingToEdits pending) ctx.live ++ created)
        hashOrder hashOrder_perm) .new = effectivePolicySet format ctx pending := by
  have texts : created.map (·.policyText) = pending.creates.map (·.text) := by
    have := congrArg (List.map Prod.snd) creates
    simpa [List.map_map, Function.comp_def] using this
  have same : effectiveTexts (kept (pendingToEdits pending) ctx.live ++ created) .new =
      effectiveTexts ctx.live pending := by
    have new : created.filter (fun p => p.enabled && decide (p.id ∉ ([] : List String))) =
        created := by
      rw [List.filter_eq_self]
      intro p member
      simp [enabled p member]
    unfold effectiveTexts
    rw [PendingEdits.new_deletes, PendingEdits.new_creates, List.filter_append, new,
      List.map_append, texts, List.map_nil, List.append_nil, kept_pendingToEdits,
      List.filter_filter]
    simp
  unfold effectivePolicySet
  rw [show (ctx.again (kept (pendingToEdits pending) ctx.live ++ created) hashOrder
    hashOrder_perm).live = kept (pendingToEdits pending) ctx.live ++ created from rfl, same]
  rfl

variable {live : List (StoredPolicy T)}
  (policies : effectivePolicySet format (ctx.again live hashOrder hashOrder_perm) .new =
    effectivePolicySet format ctx pending)
include policies

theorem served_again (ov : AccessOverride) (want : Decision) :
    Served format (ctx.again live hashOrder hashOrder_perm) (gctx.again overrides owned) .new ov
        want ↔ Served format ctx gctx pending ov want := by
  unfold Served evalNow
  rw [policies]
  cases effectivePolicySet format ctx pending with
  | none => simp
  | some set => rfl

theorem verifyGroup_again (perm : overrides.Perm gctx.group.overrides)
    (verified : verifyGroup format ctx gctx pending = .ok ()) :
    verifyGroup format (ctx.again live hashOrder hashOrder_perm) (gctx.again overrides owned)
      .new = .ok () := by
  rw [verifyGroup_ok] at verified ⊢
  obtain ⟨set, effective, decided⟩ := verified
  refine ⟨set, policies.trans effective, fun checked => ?_⟩
  obtain ⟨sentinel, each⟩ := decided checked
  exact ⟨sentinel, fun ov member => each ov (perm.mem_iff.mp member)⟩

omit policies in
theorem served_of_verified (default : gctx.group.default = none)
    (verified : verifyGroup format ctx gctx pending = .ok ()) :
    ∀ ov ∈ gctx.group.overrides, ∀ want, wantOf ov.intent = some want →
      Served format ctx gctx pending ov want := by
  obtain ⟨set, effective, decided⟩ := (verifyGroup_ok pending).mp verified
  obtain ⟨-, each⟩ := decided (by simp [default])
  intro ov member want wanted
  obtain ⟨uid, resource, same⟩ := each ov member want wanted
  refine ⟨uid, resource, ?_⟩
  simp only [evalNow, effective, same]

end Again

section Replan

variable {T A : Type} [DecidableEq T] (format : TextFormat T A) (ctx : PlanCtx T A)

/-- A plan for the group settles it: a carve-out is for resources of one type; row by row, the
rows that stay and the new ones agree, and the check of the overrides, which a fallback without
a decision skips, would succeed. -/
def Settles (gctx : GroupCtx T) : Prop :=
  match canonicalShape gctx.group with
  | .wildcard _ => True
  | .carveout _ resources => ∀ r ∈ resources, ∀ s ∈ resources, r.cedarType = s.cedarType
  | .perOverride => RowsAgree format ctx gctx ∧
      (gctx.group.default.isSome = true → ∀ pending, pendingFor format ctx gctx = .ok pending →
        ∀ ov ∈ gctx.group.overrides, ∀ want, wantOf ov.intent = some want →
          Served format ctx gctx pending ov want)

variable {format ctx}

theorem pendingFor_wildcard {gctx : GroupCtx T} {effect : Effect}
    (shape : canonicalShape gctx.group = .wildcard effect) :
    pendingFor format ctx gctx = .ok (applyCanonicalEmission gctx.owned
      (groupPolicyName format gctx.group.principal gctx.group.action)
      (buildWildcardText format (groupPolicyName format gctx.group.principal gctx.group.action)
        gctx.group.principal gctx.group.action effect) .new) := by
  simp [pendingFor, shape]

theorem pendingFor_carveout {gctx : GroupCtx T} {effect : Effect} {resources : List EntityRef}
    (shape : canonicalShape gctx.group = .carveout effect resources) :
    pendingFor format ctx gctx = .ok (applyCanonicalEmission gctx.owned
      (groupPolicyName format gctx.group.principal gctx.group.action)
      (buildCarveoutText format (groupPolicyName format gctx.group.principal gctx.group.action)
        gctx.group.principal gctx.group.action effect resources) .new) := by
  simp [pendingFor, shape]

theorem carveout_nonempty {group : AccessGroup} {effect : Effect} {resources : List EntityRef}
    (shape : canonicalShape group = .carveout effect resources) : resources ≠ [] := by
  unfold canonicalShape at shape
  split at shape
  next => cases shape
  next fallback _ =>
    dsimp only at shape
    split at shape
    next => cases shape
    next want _ =>
      split at shape
      next => cases shape
      next filled =>
        cases shape
        exact fun none => filled (List.isEmpty_iff.mpr none)

example : canonicalShape ⟨.agent "a", "invoke_tool", some .allow, [⟨.tool "x", .deny⟩]⟩ =
    .carveout .permit [.tool "x"] := by decide +kernel

theorem pendingFor_again {gctx : GroupCtx T} {userId : String}
    {live created : List (StoredPolicy T)} {pending : PendingEdits T}
    {hashOrder : List EntityRef → List EntityRef}
    {hashOrder_perm : ∀ keys, (hashOrder keys).Perm keys} {overrides : List AccessOverride}
    (perm : overrides.Perm gctx.group.overrides)
    (owned : gctx.owned = ownedRows format gctx.group.principal gctx.group.action ctx.live)
    (computed : pendingFor format ctx gctx = .ok pending)
    (verified : verifyGroup format ctx gctx pending = .ok ())
    (rows : live = kept (pendingToEdits pending) ctx.live ++ created)
    (creates : created.map (fun p => (p.name, p.policyText)) =
      pending.creates.map fun c => (c.name, c.text))
    (fresh : ∀ p ∈ created, p.userId = some userId ∧ p.enabled = true)
    (before : LiveOf userId ctx.live) (after : LiveOf userId live) :
    pendingFor format (ctx.again live hashOrder hashOrder_perm) (gctx.again overrides
        (ownedRows format gctx.group.principal gctx.group.action live)) = .ok .new ↔
      Settles format ctx gctx := by
  have policies : effectivePolicySet format (ctx.again live hashOrder hashOrder_perm) .new =
      effectivePolicySet format ctx pending := by
    rw [rows]
    exact effectivePolicySet_again creates fun p member => (fresh p member).2
  have users (p : StoredPolicy T) (member : p ∈ created) :
      p.userId.isSome = true ∧ p.enabled = true := by
    simp [fresh p member]
  have shapes := canonicalShape_perm gctx.group perm
  unfold Settles
  generalize shape : canonicalShape gctx.group = s at shapes
  generalize shape' : canonicalShape { gctx.group with overrides := overrides } = s' at shapes
  cases shapes with
  | wildcard effect =>
      rw [pendingFor_wildcard shape] at computed
      rw [pendingFor_wildcard shape']
      obtain rfl := Except.ok.inj computed
      simp only [Except.ok.injEq, iff_true]
      rw [owned] at creates rows
      rw [rows]
      exact (emission_again creates users True fun row text user =>
        iff_true_intro (ownsRow_wildcard _ _ _ effect text user)).mpr trivial
  | @carveout effect resources resources' perm' =>
      rw [pendingFor_carveout shape] at computed
      rw [pendingFor_carveout shape']
      obtain rfl := Except.ok.inj computed
      simp only [Except.ok.injEq]
      rw [owned] at creates rows
      have text : buildCarveoutText format
          (groupPolicyName format gctx.group.principal gctx.group.action) gctx.group.principal
          gctx.group.action effect resources' = buildCarveoutText format
          (groupPolicyName format gctx.group.principal gctx.group.action) gctx.group.principal
          gctx.group.action effect resources := by
        rw [buildCarveoutText, carveoutPolicy_perm _ _ _ _ perm']
        rfl
      rw [← emission_again creates users _ fun row text user =>
        ownsRow_carveout _ _ _ effect resources (carveout_nonempty shape) text user, ← text, rows, ← text]
      rfl
  | perOverride =>
      have quiet : pendingFor format (ctx.again live hashOrder hashOrder_perm)
          (gctx.again overrides (ownedRows format gctx.group.principal gctx.group.action live)) =
            .ok .new ↔ Quiet format (ctx.again live hashOrder hashOrder_perm)
          (gctx.again overrides (ownedRows format gctx.group.principal gctx.group.action live)) :=
        pendingFor_quiet shape'
      rw [quiet]
      have shown := computed
      unfold pendingFor at shown
      simp only [shape] at shown
      cases run : planOverrides format ctx gctx gctx.group.overrides .new [] with
      | error e => simp [run] at shown
      | ok result =>
          obtain ⟨edits, keptNames⟩ := result
          simp only [run, Except.ok.injEq] at shown
          subst shown
          have rerun : Rerun format ctx gctx userId created edits keptNames :=
            { run := run
              owned := owned
              creates := by rw [creates, sweep_creates]
              fresh := fresh
              before := before
              after := rows ▸ after }
          have split := rerun.ownedRows_next
          rw [← rows] at split
          rw [split, rerun.quiet_iff perm]
          have served (ov : AccessOverride) (want : Decision) :
              Served format (ctx.again live hashOrder hashOrder_perm)
                (gctx.again overrides (survivors gctx edits keptNames ++ created)) .new ov want ↔
              Served format ctx gctx (sweep gctx.owned keptNames edits) ov want :=
            served_again policies ov want
          simp only [served]
          constructor
          · rintro ⟨each, agree⟩
            refine ⟨agree, fun _ other again => ?_⟩
            obtain rfl := Except.ok.inj (computed.symm.trans again)
            exact each
          · rintro ⟨agree, checked⟩
            refine ⟨?_, agree⟩
            cases default : gctx.group.default with
            | none => exact served_of_verified default verified
            | some _ => exact checked (by simp [default]) _ computed

/-- Planning the same group again, on the rows that the edits of the first plan leave, gives no
edits exactly when the first plan settles the group. -/
theorem replan_nil_iff (backend : Backend) (userId : String) (group : AccessGroup)
    (edits : List (Edit T)) (planned : planForGroup format ctx group = .ok edits)
    (live : List (StoredPolicy T)) (applied : Applied backend userId edits ctx.live live)
    (before : LiveOf userId ctx.live) (after : LiveOf userId live)
    (hashOrder : List EntityRef → List EntityRef)
    (hashOrder_perm : ∀ keys, (hashOrder keys).Perm keys) :
    planForGroup format (ctx.again live hashOrder hashOrder_perm) group = .ok [] ↔
      ∀ principalUid actionUid, ReadsBack format ctx group principalUid actionUid →
        Settles format ctx (groupCtx format ctx group principalUid actionUid) := by
  obtain ⟨principalUid, actionUid, reads, pending, computed, verified, rfl⟩ :=
    (planForGroup_ok group edits).mp planned
  obtain ⟨created, rows, creates, fresh⟩ := applied.split
  rw [creation_pendingToEdits] at creates
  obtain ⟨overrides, collapsed, perm⟩ := maybeCollapse_perm ctx.hashOrder hashOrder
    ctx.hashOrder_perm hashOrder_perm ctx.hierarchy group
  have again : groupCtx format (ctx.again live hashOrder hashOrder_perm) group principalUid
      actionUid = (groupCtx format ctx group principalUid actionUid).again overrides
        (ownedRows format (groupCtx format ctx group principalUid actionUid).group.principal
          (groupCtx format ctx group principalUid actionUid).group.action live) := by
    simp only [groupCtx, GroupCtx.again, PlanCtx.again, collapsed]
  have second : pendingFor format (ctx.again live hashOrder hashOrder_perm)
      ((groupCtx format ctx group principalUid actionUid).again overrides
        (ownedRows format (groupCtx format ctx group principalUid actionUid).group.principal
          (groupCtx format ctx group principalUid actionUid).group.action live)) = .ok .new ↔
      Settles format ctx (groupCtx format ctx group principalUid actionUid) :=
    pendingFor_again perm rfl computed verified rows creates
      (fun p member => ⟨(fresh p member).1, (fresh p member).2.1⟩) before after
  rw [← again] at second
  have policies : effectivePolicySet format (ctx.again live hashOrder hashOrder_perm) .new =
      effectivePolicySet format ctx pending := by
    rw [rows]
    exact effectivePolicySet_again creates fun p member => (fresh p member).2.1
  have readsAgain (p a : EntityUid) : ReadsBack format ctx group p a ↔
      ReadsBack format (ctx.again live hashOrder hashOrder_perm) group p a := by
    constructor
    · intro ⟨principal, action⟩
      exact ⟨by simpa only [PlanCtx.again, collapsed] using principal,
        by simpa only [PlanCtx.again, collapsed] using action⟩
    · intro ⟨principal, action⟩
      exact ⟨by simpa only [PlanCtx.again, collapsed] using principal,
        by simpa only [PlanCtx.again, collapsed] using action⟩
  have unique (p a : EntityUid) (other : ReadsBack format ctx group p a) :
      principalUid = p ∧ actionUid = a :=
    ⟨Option.some.inj (reads.principal.symm.trans other.principal),
      Option.some.inj (reads.action.symm.trans other.action)⟩
  rw [planForGroup_ok]
  constructor
  · intro ⟨p, a, readsBack, pending', computed', _, empty⟩ p' a' other
    obtain ⟨rfl, rfl⟩ := unique p a ((readsAgain p a).mpr readsBack)
    obtain ⟨rfl, rfl⟩ := unique p' a' other
    obtain rfl := (pendingToEdits_nil pending').mp empty.symm
    exact second.mp computed'
  · intro settles
    refine ⟨principalUid, actionUid, (readsAgain _ _).mp reads, .new,
      second.mpr (settles _ _ reads), ?_, rfl⟩
    rw [again]
    exact verifyGroup_again policies perm verified

end Replan

section TwoPermits

def plainFormat : TextFormat (List (Cedar.Policy Empty)) Empty where
  parse := some
  print p := [p]
  parse_print _ := rfl
  readQuoted := some
  slug := id

def toolGroup : EntityRef := .toolGroup "g"

def ruleRow (id : String) (effect : Effect) (resource : EntityRef) :
    StoredPolicy (List (Cedar.Policy Empty)) where
  id := id
  userId := some "u"
  name := id
  description := ""
  policyText := buildPerResourceText plainFormat id (.agent "a") "invoke_tool" resource effect
  enabled := true
  createdAt := 0
  updatedAt := 0

-- A permit for one tool, a permit for the group of both tools, and a forbid for the one tool.
def twoPermits : List (StoredPolicy (List (Cedar.Policy Empty))) :=
  [ruleRow "p" .permit (.tool "x"), ruleRow "q" .permit toolGroup,
    ruleRow "r" .forbid (.tool "x")]

def toolCtx : PlanCtx (List (Cedar.Policy Empty)) Empty where
  live := twoPermits
  managed := []
  accepts _ := true
  env := Env.ofAncestors fun u w =>
    decide (u.type = entityTypeName "Tool") && decide (w = toolGroup.uid)
  hierarchy := (ResourceHierarchy.empty.add (.tool "x") toolGroup).add (.tool "y") toolGroup
  hashOrder keys := keys
  hashOrder_perm _ := List.Perm.refl _

def toolTarget : AccessGroup where
  principal := .agent "a"
  action := "invoke_tool"
  default := none
  overrides := [⟨.tool "x", .deny⟩, ⟨.tool "y", .allow⟩]

theorem toolTarget_planned :
    planForGroup plainFormat toolCtx toolTarget = .ok [.delete "p"] := by
  decide

-- The rows that the edits of the plan leave.
def onePermit : List (StoredPolicy (List (Cedar.Policy Empty))) := twoPermits.drop 1

theorem toolTarget_applied :
    Applied (failsAt none) "u" [.delete "p"] twoPermits onePermit where
  split := ⟨[], by decide, rfl, by simp⟩

theorem twoPermits_live : LiveOf "u" twoPermits where
  users := by decide
  ids := by decide
  names := by decide

theorem onePermit_live : LiveOf "u" onePermit where
  users := by decide
  ids := by decide
  names := by decide

theorem replan_nil_iff_tools :
    planForGroup plainFormat (toolCtx.again onePermit toolCtx.hashOrder toolCtx.hashOrder_perm)
        toolTarget = .ok [] ↔
      ∀ principalUid actionUid, ReadsBack plainFormat toolCtx toolTarget principalUid actionUid →
        Settles plainFormat toolCtx (groupCtx plainFormat toolCtx toolTarget principalUid actionUid) :=
  replan_nil_iff (failsAt none) "u" toolTarget _ toolTarget_planned onePermit toolTarget_applied
    twoPermits_live onePermit_live _ _

theorem second_permit_deleted_later :
    ¬ ∀ (ctx : PlanCtx (List (Cedar.Policy Empty)) Empty) (backend : Backend) (userId : String)
        (group : AccessGroup) (edits : List (Edit (List (Cedar.Policy Empty))))
        (live : List (StoredPolicy (List (Cedar.Policy Empty)))),
      planForGroup plainFormat ctx group = .ok edits →
      Applied backend userId edits ctx.live live →
      LiveOf userId ctx.live → LiveOf userId live →
      planForGroup plainFormat (ctx.again live ctx.hashOrder ctx.hashOrder_perm) group =
        .ok [] := by
  intro always
  have again := always toolCtx (failsAt none) "u" toolTarget _ onePermit toolTarget_planned
    toolTarget_applied twoPermits_live onePermit_live
  have replanned : planForGroup plainFormat
      (toolCtx.again onePermit toolCtx.hashOrder toolCtx.hashOrder_perm) toolTarget ≠ .ok [] := by
    decide
  exact replanned again

end TwoPermits

end Frona.Policy
