import Frona.Policy.SandboxRules
import Mathlib.Data.Fintype.EquivFin

set_option autoImplicit false

namespace Frona.Policy

open Cedar

variable {A : Type}

section Formulas

/-- Conditions fragment the resource alone: comparisons with a literal, `!`, `&&` and `||`. -/
def OverResource : Expr A → Prop
  | .value (.bool _) => True
  | .eq (.var .resource) (.value (.entity _)) => True
  | .eq (.value (.entity _)) (.var .resource) => True
  | .not e => OverResource e
  | .and l r | .or l r => OverResource l ∧ OverResource r
  | _ => False

structure PolicyOverResource (p : Cedar.Policy A) : Prop where
  resource : p.resource = .any ∨ ∃ uid, p.resource = .eq uid
  conditions : ∀ c ∈ p.conditions, OverResource c.body

theorem OverResource.written {e : Expr A} (fragment : OverResource e) : e.Written := by
  fun_induction OverResource e with
  | case1 | case2 | case3 => simp [Expr.Written]
  | case4 e ih => exact ih fragment
  | case5 l r hl hr | case6 l r hl hr => exact ⟨hl fragment.1, hr fragment.2⟩
  | case7 => exact fragment.elim

theorem PolicyOverResource.written {p : Cedar.Policy A} (fragment : PolicyOverResource p) :
    p.Written :=
  fun c member => (fragment.conditions c member).written

def Residual (type : String) : Expr A → Prop
  | .value (.bool _) => True
  | .eq (.unknown .resource known) (.value (.entity uid)) => known = type ∧ uid.type = type
  | .eq (.value (.entity uid)) (.unknown .resource known) => known = type ∧ uid.type = type
  | .not e => Residual type e
  | .and l r | .or l r => Residual type l ∧ Residual type r
  | _ => False

def holdsAt (id : String) : Expr A → Bool
  | .value (.bool b) => b
  | .eq (.unknown _ _) (.value (.entity uid)) => decide (uid.id = id)
  | .eq (.value (.entity uid)) (.unknown _ _) => decide (uid.id = id)
  | .not e => !holdsAt id e
  | .and l r => holdsAt id l && holdsAt id r
  | .or l r => holdsAt id l || holdsAt id r
  | _ => false

theorem Residual.eval {type : String} {e : Expr A} (residual : Residual type e) (env : Env A)
    (req : Request) (known : req.resource.type = type) :
    Cedar.eval env req e = some (.bool (holdsAt req.resource.id e)) := by
  fun_induction Residual type e with
  | case1 b => rfl
  | case2 found uid =>
      have same : req.resource = uid ↔ uid.id = req.resource.id := by
        rcases uid with ⟨t, i⟩
        rcases req with ⟨_, _, t', i'⟩
        simp_all [eq_comm]
      simp [Cedar.eval, Result.eq, holdsAt, Request.get, same]
  | case3 uid found =>
      have same : uid = req.resource ↔ uid.id = req.resource.id := by
        rcases uid with ⟨t, i⟩
        rcases req with ⟨_, _, t', i'⟩
        simp_all
      simp [Cedar.eval, Result.eq, holdsAt, Request.get, same]
  | case4 e ih => simp [Cedar.eval, holdsAt, ih residual, Result.not]
  | case5 l r hl hr =>
      simp only [Cedar.eval, hl residual.1, hr residual.2, holdsAt]
      cases holdsAt req.resource.id l <;> rfl
  | case6 l r hl hr =>
      simp only [Cedar.eval, hl residual.1, hr residual.2, holdsAt]
      cases holdsAt req.resource.id l <;> rfl
  | case7 => exact residual.elim

theorem holdsAt_mono {type : String} {e : Expr A} (residual : Residual type e)
    (negated : Bool) (a b : String)
    (lost : (⟨a, false⟩ : ResidualEntity) ∉ collectResourceEntities (.parse e) negated)
    (gained : (⟨b, true⟩ : ResidualEntity) ∉ collectResourceEntities (.parse e) negated)
    (holds : (holdsAt a e ^^ negated) = true) : (holdsAt b e ^^ negated) = true := by
  fun_induction Residual type e generalizing negated with
  | case1 value => exact holds
  | case2 found uid | case3 uid found =>
      simp only [CedarExpr.parse, collectResourceEntities, varName, if_true,
        List.mem_singleton, ResidualEntity.mk.injEq] at lost gained
      simp only [holdsAt] at holds ⊢
      cases negated with
      | false =>
          have : uid.id = a := by simpa using holds
          simp [this] at lost
      | true =>
          have : uid.id ≠ b := fun same => by simp [same] at gained
          simp [this]
  | case4 e ih =>
      have flipped := ih residual (!negated) lost gained
      simp only [holdsAt] at holds ⊢
      cases negated <;> simp_all
  | case5 l r hl hr | case6 l r hl hr =>
      simp only [CedarExpr.parse, collectResourceEntities, List.mem_append, not_or]
        at lost gained
      have left := hl residual.1 negated lost.1 gained.1
      have right := hr residual.2 negated lost.2 gained.2
      simp only [holdsAt] at holds ⊢
      cases negated <;> simp_all
      tauto
  | case7 => exact residual.elim

theorem holdsAt_of_isUnsatisfiable {type : String} {e : Expr A} (residual : Residual type e)
    (unsatisfiable : (CedarExpr.parse e).isUnsatisfiable = true) (id : String) :
    holdsAt id e = false := by
  fun_induction Residual type e with
  | case1 b => cases b <;> simp_all [CedarExpr.parse, CedarExpr.isUnsatisfiable, holdsAt]
  | case2 | case3 | case4 | case6 =>
      simp [CedarExpr.parse, CedarExpr.isUnsatisfiable] at unsatisfiable
  | case5 l r hl hr =>
      simp only [CedarExpr.parse, CedarExpr.isUnsatisfiable, Bool.or_eq_true] at unsatisfiable
      rcases unsatisfiable with left | right
      · simp [holdsAt, hl residual.1 left]
      · simp [holdsAt, hr residual.2 right]
  | case7 => exact residual.elim

example : let e : Expr Empty := .and (.value (.bool true)) (.value (.bool false))
    (CedarExpr.parse e).isUnsatisfiable = true ∧ holdsAt "r" e = false := by
  decide +kernel

end Formulas

section Interpretation

variable (env : Env A) (req : PartialRequest)

/-- Partial evaluation decides the expression up to a residual fragment the resource. -/
def Resolves (e : Expr A) : Prop :=
  ∃ v, partialInterpret env req e = some v ∧ Residual req.resourceType v.toExpr

theorem resolves_bool (e : Expr A) (b : Bool)
    (decided : partialInterpret env req e = some (.value (.bool b))) : Resolves env req e :=
  ⟨_, decided, trivial⟩

theorem resolves_comparison (left right : Expr A)
    (sides : left = .var .resource ∧ (∃ uid, right = .value (.entity uid)) ∨
      (∃ uid, left = .value (.entity uid)) ∧ right = .var .resource) :
    Resolves env req (.eq left right) := by
  rcases sides with ⟨rfl, uid, rfl⟩ | ⟨⟨uid, rfl⟩, rfl⟩ <;>
    by_cases same : uid.type = req.resourceType <;>
      simp [Resolves, partialInterpret, eqPartial, same, PartialValue.toExpr, Residual]

theorem resolves_not (e : Expr A) (inner : Resolves env req e) : Resolves env req (.not e) := by
  obtain ⟨v, interpreted, residual⟩ := inner
  cases v with
  | residual r =>
      exact ⟨.residual (.not r), by simp [partialInterpret, interpreted, notPartial], residual⟩
  | value v =>
      cases v with
      | bool b =>
          exact resolves_bool env req _ (!b)
            (by simp [partialInterpret, interpreted, notPartial, Result.not])
      | entity uid => exact residual.elim

theorem resolves_and (l r : Expr A) (left : Resolves env req l) (right : Resolves env req r) :
    Resolves env req (.and l r) := by
  obtain ⟨v, interpreted, residual⟩ := left
  obtain ⟨w, interpreted', residual'⟩ := right
  cases v with
  | residual e =>
      exact ⟨.residual (.and e w.toExpr),
        by simp [partialInterpret, interpreted, interpreted', andPartial], residual, residual'⟩
  | value v =>
      rcases v with (_ | _) | uid
      · exact resolves_bool env req _ false
          (by simp [partialInterpret, interpreted, andPartial])
      · cases w with
        | residual e =>
            exact ⟨.residual (.and Expr.true e),
              by simp [partialInterpret, interpreted, interpreted', andPartial],
              trivial, residual'⟩
        | value w =>
            cases w with
            | bool b =>
                exact resolves_bool env req _ b
                  (by simp [partialInterpret, interpreted, interpreted', andPartial, Result.bool])
            | entity uid => exact residual'.elim
      · exact residual.elim

theorem resolves_or (l r : Expr A) (left : Resolves env req l) (right : Resolves env req r) :
    Resolves env req (.or l r) := by
  obtain ⟨v, interpreted, residual⟩ := left
  obtain ⟨w, interpreted', residual'⟩ := right
  cases v with
  | residual e =>
      exact ⟨.residual (.or e w.toExpr),
        by simp [partialInterpret, interpreted, interpreted', orPartial], residual, residual'⟩
  | value v =>
      rcases v with (_ | _) | uid
      · cases w with
        | residual e =>
            exact ⟨.residual (.or (.value (.bool false)) e),
              by simp [partialInterpret, interpreted, interpreted', orPartial],
              trivial, residual'⟩
        | value w =>
            cases w with
            | bool b =>
                exact resolves_bool env req _ b
                  (by simp [partialInterpret, interpreted, interpreted', orPartial, Result.bool])
            | entity uid => exact residual'.elim
      · exact resolves_bool env req _ true
          (by simp [partialInterpret, interpreted, orPartial])
      · exact residual.elim

theorem OverResource.resolves {e : Expr A} (fragment : OverResource e) : Resolves env req e := by
  fun_induction OverResource e with
  | case1 b => exact resolves_bool env req _ b rfl
  | case2 uid => exact resolves_comparison env req _ _ (.inl ⟨rfl, uid, rfl⟩)
  | case3 uid => exact resolves_comparison env req _ _ (.inr ⟨⟨uid, rfl⟩, rfl⟩)
  | case4 e ih => exact resolves_not env req e (ih fragment)
  | case5 l r hl hr => exact resolves_and env req l r (hl fragment.1) (hr fragment.2)
  | case6 l r hl hr => exact resolves_or env req l r (hl fragment.1) (hr fragment.2)
  | case7 => exact fragment.elim

theorem resolves_principal (c : ScopeConstraint) :
    Resolves env req (c.toExpr .principal : Expr A) := by
  cases c with
  | any => exact resolves_bool env req _ true rfl
  | eq uid => exact resolves_bool env req _ _ rfl
  | isIn uid => exact resolves_bool env req _ _ rfl
  | is type => exact resolves_bool env req _ _ rfl
  | isInType type uid =>
      exact resolves_and env req _ _ (resolves_bool env req _ _ rfl)
        (resolves_bool env req _ _ rfl)

theorem resolves_action (c : ActionConstraint) : Resolves env req (c.toExpr : Expr A) := by
  cases c with
  | any => exact resolves_bool env req _ true rfl
  | eq uid => exact resolves_bool env req _ _ rfl
  | isIn uids =>
      induction uids with
      | nil => exact resolves_bool env req _ false rfl
      | cons uid rest ih => exact resolves_or env req _ _ (resolves_bool env req _ _ rfl) ih

theorem PolicyOverResource.resolves {p : Cedar.Policy A} (fragment : PolicyOverResource p) :
    Resolves env req p.toExpr := by
  have condition (c : Condition A) (body : OverResource c.body) : Resolves env req c.toExpr := by
    unfold Condition.toExpr
    cases c.kind
    · exact body.resolves env req
    · exact resolves_not env req _ (body.resolves env req)
  have conjunction (conditions : List (Condition A))
      (each : ∀ c ∈ conditions, OverResource c.body) :
      Resolves env req (Policy.body.go conditions) := by
    induction conditions with
    | nil => exact resolves_bool env req _ true rfl
    | cons c rest ih =>
        have head := condition c (each c (by simp))
        cases rest with
        | nil => exact head
        | cons d rest =>
            exact resolves_and env req _ _ head (ih fun c member => each c (by simp [member]))
  have resource : Resolves env req (p.resource.toExpr .resource : Expr A) := by
    rcases fragment.resource with any | ⟨uid, eq⟩
    · rw [any]; exact resolves_bool env req _ true rfl
    · rw [eq]; exact resolves_comparison env req _ _ (.inl ⟨rfl, uid, rfl⟩)
  exact resolves_and env req _ _ (resolves_principal env req _)
    (resolves_and env req _ _ (resolves_action env req _)
      (resolves_and env req _ _ resource (conjunction p.conditions fragment.conditions)))

theorem partialEvaluate_residual (p : Cedar.Policy A) (fragment : PolicyOverResource p)
    (e : Expr A) (left : partialEvaluate env req p = .residual e) :
    Residual req.resourceType e := by
  obtain ⟨v, interpreted, residual⟩ := fragment.resolves env req
  unfold partialEvaluate at left
  rw [interpreted] at left
  cases v with
  | residual r =>
      obtain rfl : r = e := by simpa using left
      exact residual
  | value v => rcases v with (_ | _) | uid <;> simp at left

end Interpretation

section Soundness

variable (env : Env A) (policies : List (Cedar.Policy A)) (principal : EntityUid)

def resourceAt (kind : RuleKind) (id : String) : Request :=
  (kind.request principal).at ⟨kind.resourceType, id⟩

def covers (kind : RuleKind) (p : Cedar.Policy A) (id : String) : Bool :=
  (partialEvaluate env (kind.request principal) p).holds env (resourceAt principal kind id)

theorem covers_eq_satisfied (kind : RuleKind) (p : Cedar.Policy A) (fragment : PolicyOverResource p)
    (id : String) :
    covers env principal kind p id = satisfied env (resourceAt principal kind id) p :=
  partialEvaluate_correct env (kind.request principal) ⟨kind.resourceType, id⟩ rfl p fragment.written

theorem covers_mono (kind : RuleKind) (p : Cedar.Policy A) (fragment : PolicyOverResource p)
    (a b : String) (lost : (⟨a, false⟩ : ResidualEntity) ∉ comparisons env principal kind p)
    (gained : (⟨b, true⟩ : ResidualEntity) ∉ comparisons env principal kind p)
    (covered : covers env principal kind p a = true) : covers env principal kind p b = true := by
  unfold covers comparisons conditionEntities at *
  cases left : partialEvaluate env (kind.request principal) p with
  | satisfied => rfl
  | unsatisfied => rw [left] at covered; simp [Outcome.holds] at covered
  | residual e =>
      have residual := partialEvaluate_residual env _ p fragment e left
      rw [left] at lost gained covered
      simp only [Outcome.holds, residual.eval env (resourceAt principal kind _) rfl,
        Option.some.injEq, Value.bool.injEq, decide_eq_true_eq] at covered ⊢
      by_cases unsatisfiable : (CedarExpr.parse e).isUnsatisfiable = true
      · rw [holdsAt_of_isUnsatisfiable residual unsatisfiable] at covered
        simp at covered
      · simp only [unsatisfiable] at lost gained
        have := holdsAt_mono residual false a b lost gained (by rw [Bool.xor_false]; exact covered)
        rwa [Bool.xor_false] at this

def OpenEnded (kind : RuleKind) (p : Cedar.Policy A) : Prop :=
  ∀ id, (∀ entity ∈ comparisons env principal kind p, entity.id ≠ id) →
    covers env principal kind p id = true

theorem openEnded_of_covers (kind : RuleKind) (p : Cedar.Policy A) (fragment : PolicyOverResource p)
    (id : String) (unnamed : (⟨id, false⟩ : ResidualEntity) ∉ comparisons env principal kind p)
    (covered : covers env principal kind p id = true) : OpenEnded env principal kind p :=
  fun other fresh => covers_mono env principal kind p fragment id other unnamed
    (fun member => fresh _ member rfl) covered

theorem exists_unnamed (entities : List ResidualEntity) :
    ∃ id, ∀ entity ∈ entities, entity.id ≠ id := by
  obtain ⟨id, fresh⟩ := Infinite.exists_notMem_finset (entities.map ResidualEntity.id).toFinset
  refine ⟨id, fun entity member same => fresh ?_⟩
  rw [List.mem_toFinset]
  exact List.mem_map.mpr ⟨entity, member, same⟩

theorem covers_of_openEnded (kind : RuleKind) (p : Cedar.Policy A) (fragment : PolicyOverResource p)
    (id : String) (kept : (⟨id, true⟩ : ResidualEntity) ∉ comparisons env principal kind p)
    (wide : OpenEnded env principal kind p) : covers env principal kind p id = true := by
  obtain ⟨other, fresh⟩ := exists_unnamed (comparisons env principal kind p)
  exact covers_mono env principal kind p fragment other id (fun member => fresh _ member rfl) kept
    (wide other fresh)

def SandboxPolicy.Grants (sandbox : SandboxPolicy) : RuleKind → String → Prop
  | .read, target => target ∈ sandbox.readPaths ∧ target ∉ sandbox.deniedPaths
  | .write, target => target ∈ sandbox.writePaths ∧ target ∉ sandbox.deniedPaths
  | .connect, target =>
      target ∈ sandbox.networkDestinations ∧ target ∉ sandbox.blockedNetworks
  | .bind, target => ∃ port ∈ sandbox.bindPorts, parseU16 target = some port

def Allowed (kind : RuleKind) (target : String) : Prop :=
  isAuthorized env (resourceAt principal kind target) policies = .allow

structure NeverGrantsDenied : Prop where
  granted : ∀ kind ≠ .bind, ∀ target,
    (evaluateSandboxPolicy env policies principal).Grants kind target →
      Allowed env policies principal kind target
  network : (evaluateSandboxPolicy env policies principal).networkAccess = true →
    ∃ destination, Allowed env policies principal .connect destination
  noPermit : (∀ p ∈ policies, p.effect = .forbid) →
    (∀ kind ≠ .bind, ∀ target,
      ¬ (evaluateSandboxPolicy env policies principal).Grants kind target) ∧
    (evaluateSandboxPolicy env policies principal).networkAccess = false
  forbidden : ∀ kind, Unconditional env policies principal kind .deny →
    (∀ target, ¬ (evaluateSandboxPolicy env policies principal).Grants kind target) ∧
    (kind = .connect → (evaluateSandboxPolicy env policies principal).networkAccess = false)

def NamedDenied : RuleKind → String → Prop
  | .read, target | .write, target =>
      Named env policies principal .read .deny target ∨
        Named env policies principal .write .deny target
  | .connect, target => Named env policies principal .connect .deny target
  | .bind, _ => False

def Exposed (kind : RuleKind) (target : String) : Prop :=
  target ≠ "" ∧ Named env policies principal kind .allow target ∧
    ¬ NamedDenied env policies principal kind target

structure GrantsBacked : Prop where
  /-- A permit reaches the target: a wide one, or one that names it and holds there. -/
  permitted : ∀ kind ≠ .bind, ∀ target, Exposed env policies principal kind target →
    ∃ p ∈ policies, p.effect = .permit ∧ (OpenEnded env principal kind p ∨
      ⟨target, false⟩ ∈ comparisons env principal kind p ∧
        covers env principal kind p target = true)
  /-- Every wide forbid makes an exception for the target. -/
  exempted : ∀ kind ≠ .bind, ∀ target, Exposed env policies principal kind target →
    ∀ p ∈ policies, p.effect = .forbid → OpenEnded env principal kind p →
      ⟨target, true⟩ ∈ comparisons env principal kind p ∧
        covers env principal kind p target = false
  destination : (Unconditional env policies principal .connect .allow ∨
      ∃ target, Named env policies principal .connect .allow target) →
    ((∃ p ∈ policies, p.effect = .permit ∧ OpenEnded env principal .connect p) ∧
      ∀ p ∈ policies, p.effect = .forbid → ¬ OpenEnded env principal .connect p) ∨
    ∃ q ∈ policies, ∃ entity ∈ comparisons env principal .connect q,
      (∃ p ∈ policies, p.effect = .permit ∧ covers env principal .connect p entity.id = true) ∧
      ∀ p ∈ policies, p.effect = .forbid → covers env principal .connect p entity.id = false
  ports : Unconditional env policies principal .bind .deny →
    ∀ target, Named env policies principal .bind .allow target → parseU16 target = none

section Fragment

variable (fragment : ∀ p ∈ policies, PolicyOverResource p)
include fragment

theorem allowed_iff_covers (kind : RuleKind) (target : String) :
    Allowed env policies principal kind target ↔
      (∃ p ∈ policies, p.effect = .permit ∧ covers env principal kind p target = true) ∧
        ∀ p ∈ policies, p.effect = .forbid → covers env principal kind p target = false := by
  rw [Allowed, isAuthorized_allow, ← Bool.not_eq_true, fires_iff, fires_iff]
  refine and_congr ?_ ?_
  · refine exists_congr fun p => and_congr_right fun member => ?_
    rw [covers_eq_satisfied env principal kind p (fragment p member)]
  · simp only [not_exists, not_and, Bool.not_eq_true]
    refine forall₂_congr fun p member => ?_
    rw [covers_eq_satisfied env principal kind p (fragment p member)]

theorem permit_covers_iff (kind : RuleKind) (target : String)
    (undenied : ¬ Named env policies principal kind .deny target) (p : Cedar.Policy A)
    (member : p ∈ policies) (permit : p.effect = .permit) :
    covers env principal kind p target = true ↔ OpenEnded env principal kind p ∨
      ⟨target, false⟩ ∈ comparisons env principal kind p ∧
        covers env principal kind p target = true := by
  constructor
  · intro covered
    by_cases named : (⟨target, false⟩ : ResidualEntity) ∈ comparisons env principal kind p
    · exact .inr ⟨named, covered⟩
    · exact .inl (openEnded_of_covers env principal kind p (fragment p member) target named covered)
  · rintro (wide | ⟨_, covered⟩)
    · refine covers_of_openEnded env principal kind p (fragment p member) target ?_ wide
      intro named
      exact undenied ⟨p, member, _, named, by simp [entityRule, permit, RuleEffect.ofEffect,
        RuleEffect.flip]⟩
    · exact covered

theorem forbid_spares_iff (kind : RuleKind) (target : String)
    (undenied : ¬ Named env policies principal kind .deny target) (p : Cedar.Policy A)
    (member : p ∈ policies) (forbid : p.effect = .forbid) :
    covers env principal kind p target = false ↔ (OpenEnded env principal kind p →
      ⟨target, true⟩ ∈ comparisons env principal kind p ∧
        covers env principal kind p target = false) := by
  constructor
  · intro spared wide
    refine ⟨?_, spared⟩
    by_contra unnamed
    have := covers_of_openEnded env principal kind p (fragment p member) target unnamed wide
    simp [spared] at this
  · intro exempt
    by_contra covered
    rw [Bool.not_eq_false] at covered
    have unnamed : (⟨target, false⟩ : ResidualEntity) ∉ comparisons env principal kind p :=
      fun named => undenied ⟨p, member, _, named, by simp [entityRule, forbid,
        RuleEffect.ofEffect]⟩
    have wide := openEnded_of_covers env principal kind p (fragment p member) target unnamed covered
    simp [(exempt wide).2] at covered

theorem allowed_iff (kind : RuleKind) (target : String)
    (undenied : ¬ Named env policies principal kind .deny target) :
    Allowed env policies principal kind target ↔
      (∃ p ∈ policies, p.effect = .permit ∧ (OpenEnded env principal kind p ∨
        ⟨target, false⟩ ∈ comparisons env principal kind p ∧
          covers env principal kind p target = true)) ∧
      ∀ p ∈ policies, p.effect = .forbid → OpenEnded env principal kind p →
        ⟨target, true⟩ ∈ comparisons env principal kind p ∧
          covers env principal kind p target = false := by
  rw [allowed_iff_covers env policies principal fragment]
  refine and_congr (exists_congr fun p => and_congr_right fun member =>
    and_congr_right fun permit => ?_) (forall₃_congr fun p member forbid => ?_)
  · exact permit_covers_iff env policies principal fragment kind target undenied p member permit
  · exact forbid_spares_iff env policies principal fragment kind target undenied p member forbid

theorem exists_allowed_iff (kind : RuleKind) :
    (∃ target, Allowed env policies principal kind target) ↔
      ((∃ p ∈ policies, p.effect = .permit ∧ OpenEnded env principal kind p) ∧
        ∀ p ∈ policies, p.effect = .forbid → ¬ OpenEnded env principal kind p) ∨
      ∃ q ∈ policies, ∃ entity ∈ comparisons env principal kind q,
        (∃ p ∈ policies, p.effect = .permit ∧ covers env principal kind p entity.id = true) ∧
        ∀ p ∈ policies, p.effect = .forbid → covers env principal kind p entity.id = false := by
  simp only [allowed_iff_covers env policies principal fragment]
  constructor
  · rintro ⟨target, ⟨p, member, permit, covered⟩, spared⟩
    by_cases named : ∃ q ∈ policies, ∃ entity ∈ comparisons env principal kind q,
        entity.id = target
    · obtain ⟨q, listed, entity, compared, rfl⟩ := named
      exact .inr ⟨q, listed, entity, compared, ⟨p, member, permit, covered⟩, spared⟩
    · have unnamed (q : Cedar.Policy A) (listed : q ∈ policies) (negated : Bool) :
          (⟨target, negated⟩ : ResidualEntity) ∉ comparisons env principal kind q :=
        fun compared => named ⟨q, listed, _, compared, rfl⟩
      refine .inl ⟨⟨p, member, permit, openEnded_of_covers env principal kind p (fragment p member)
        target (unnamed p member false) covered⟩, fun q listed forbid wide => ?_⟩
      have := covers_of_openEnded env principal kind q (fragment q listed) target
        (unnamed q listed true) wide
      simp [spared q listed forbid] at this
  · rintro (⟨⟨p, member, permit, wide⟩, closed⟩ | ⟨q, _, entity, _, reached⟩)
    · obtain ⟨target, fresh⟩ := exists_unnamed (policies.flatMap (comparisons env principal kind))
      have unnamed (q : Cedar.Policy A) (listed : q ∈ policies) :
          ∀ entity ∈ comparisons env principal kind q, entity.id ≠ target :=
        fun entity compared => fresh entity (List.mem_flatMap.mpr ⟨q, listed, compared⟩)
      refine ⟨target, ⟨p, member, permit, wide target (unnamed p member)⟩,
        fun q listed forbid => ?_⟩
      by_contra covered
      rw [Bool.not_eq_false] at covered
      exact closed q listed forbid (openEnded_of_covers env principal kind q (fragment q listed)
        target (fun compared => unnamed q listed _ compared rfl) covered)
    · exact ⟨entity.id, reached⟩

end Fragment

theorem grants_iff (kind : RuleKind) (target : String) (sandboxed : kind ≠ .bind) :
    (evaluateSandboxPolicy env policies principal).Grants kind target ↔
      Exposed env policies principal kind target := by
  unfold evaluateSandboxPolicy SandboxPolicy.Grants Exposed NamedDenied
  by_cases empty : target = ""
  · cases kind <;> simp [mem_readPaths, mem_writePaths, mem_networkDestinations, empty]
    exact absurd rfl sandboxed
  · have named := fun kind effect =>
      mem_rules_of_target env policies principal kind effect target empty
    cases kind <;> simp [mem_readPaths, mem_writePaths, mem_networkDestinations,
      mem_deniedPaths, mem_blockedNetworks, named, empty]
    exact absurd rfl sandboxed

theorem grants_bind_iff (target : String) :
    (evaluateSandboxPolicy env policies principal).Grants .bind target ↔
      ∃ port, parseU16 target = some port ∧ ∃ listed, parseU16 listed = some port ∧
        Named env policies principal .bind .allow listed := by
  simp only [evaluateSandboxPolicy, SandboxPolicy.Grants, mem_bindPorts]
  constructor
  · rintro ⟨port, ⟨listed, parsed, member⟩, target⟩
    have nonempty : listed ≠ "" := by
      rintro rfl
      simp [parseU16] at parsed
    exact ⟨port, target, listed, parsed,
      (mem_rules_of_target env policies principal _ _ _ nonempty).mp member⟩
  · rintro ⟨port, target, listed, parsed, named⟩
    have nonempty : listed ≠ "" := by
      rintro rfl
      simp [parseU16] at parsed
    exact ⟨port, ⟨listed, parsed,
      (mem_rules_of_target env policies principal _ _ _ nonempty).mpr named⟩, target⟩

theorem networkAccess_iff :
    (evaluateSandboxPolicy env policies principal).networkAccess = true ↔
      Unconditional env policies principal .connect .allow ∨
        ∃ target, Named env policies principal .connect .allow target := by
  rw [evaluateSandboxPolicy, rulesToPolicy_networkAccess]
  simp only [mem_rules]
  constructor
  · rintro ⟨target, named | ⟨_, wide⟩⟩
    · exact .inr ⟨target, named⟩
    · exact .inl wide
  · rintro (wide | ⟨target, named⟩)
    · exact ⟨"", .inr ⟨rfl, wide⟩⟩
    · exact ⟨target, .inl named⟩

theorem not_allowed_of_unconditional (kind : RuleKind)
    (fragment : ∀ p ∈ policies, PolicyOverResource p)
    (wide : Unconditional env policies principal kind .deny) (target : String) :
    ¬ Allowed env policies principal kind target := by
  rw [allowed_iff_covers env policies principal fragment]
  rintro ⟨_, spared⟩
  obtain ⟨p, member, effect, satisfied⟩ := wide
  have forbid : p.effect = .forbid := by
    cases same : p.effect with
    | permit => simp [same, RuleEffect.ofEffect] at effect
    | forbid => rfl
  have := spared p member forbid
  simp [covers, satisfied, Outcome.holds] at this

theorem not_allowed_of_no_permit (kind : RuleKind) (forbids : ∀ p ∈ policies, p.effect = .forbid)
    (target : String) : ¬ Allowed env policies principal kind target := by
  rw [Allowed, isAuthorized_allow, fires_iff]
  rintro ⟨⟨p, member, permit, _⟩, _⟩
  simp [forbids p member] at permit

theorem neverGrantsDenied_iff (fragment : ∀ p ∈ policies, PolicyOverResource p) :
    NeverGrantsDenied env policies principal ↔ GrantsBacked env policies principal := by
  have allowed (kind : RuleKind) (target : String) (sandboxed : kind ≠ .bind)
      (exposed : Exposed env policies principal kind target) :=
    allowed_iff env policies principal fragment kind target fun named => exposed.2.2 <| by
      cases kind with
      | read => exact .inl named
      | write => exact .inr named
      | connect => exact named
      | bind => exact absurd rfl sandboxed
  constructor
  · intro sound
    have granted (kind : RuleKind) (sandboxed : kind ≠ .bind) (target : String)
        (exposed : Exposed env policies principal kind target) :=
      (allowed kind target sandboxed exposed).mp (sound.granted kind sandboxed target
        ((grants_iff env policies principal kind target sandboxed).mpr exposed))
    refine
      { permitted := fun kind sandboxed target exposed => (granted kind sandboxed target exposed).1
        exempted := fun kind sandboxed target exposed => (granted kind sandboxed target exposed).2
        destination := fun offered => ?_
        ports := fun wide target named => ?_ }
    · rw [← exists_allowed_iff env policies principal fragment]
      exact sound.network ((networkAccess_iff env policies principal).mpr offered)
    · cases parsed : parseU16 target with
      | none => rfl
      | some port =>
          exact absurd ((grants_bind_iff env policies principal target).mpr
            ⟨port, parsed, target, parsed, named⟩) ((sound.forbidden .bind wide).1 target)
  · intro backed
    have granted (kind : RuleKind) (sandboxed : kind ≠ .bind) (target : String)
        (listed : (evaluateSandboxPolicy env policies principal).Grants kind target) :
        Allowed env policies principal kind target := by
      have exposed := (grants_iff env policies principal kind target sandboxed).mp listed
      exact (allowed kind target sandboxed exposed).mpr
        ⟨backed.permitted kind sandboxed target exposed,
          backed.exempted kind sandboxed target exposed⟩
    have network (offered : (evaluateSandboxPolicy env policies principal).networkAccess = true) :
        ∃ destination, Allowed env policies principal .connect destination := by
      rw [exists_allowed_iff env policies principal fragment]
      exact backed.destination ((networkAccess_iff env policies principal).mp offered)
    refine { granted, network, noPermit := fun forbids => ⟨?_, ?_⟩,
             forbidden := fun kind wide => ⟨?_, ?_⟩ }
    · intro kind sandboxed target listed
      exact not_allowed_of_no_permit env policies principal kind forbids target
        (granted kind sandboxed target listed)
    · rw [← Bool.not_eq_true]
      intro offered
      obtain ⟨destination, allow⟩ := network offered
      exact not_allowed_of_no_permit env policies principal .connect forbids destination allow
    · intro target listed
      by_cases bound : kind = .bind
      · subst bound
        obtain ⟨port, _, entry, parsed, named⟩ :=
          (grants_bind_iff env policies principal target).mp listed
        simp [backed.ports wide entry named] at parsed
      · exact not_allowed_of_unconditional env policies principal kind fragment wide target
          (granted kind bound target listed)
    · rintro rfl
      rw [← Bool.not_eq_true]
      intro offered
      obtain ⟨destination, allow⟩ := network offered
      exact not_allowed_of_unconditional env policies principal .connect fragment wide destination
        allow

end Soundness

section Overridden

-- A permit on one path, and a forbid of the same action on every resource.
def overriddenPermit : Cedar.Policy Empty where
  effect := .permit
  principal := .eq (entityUid "Agent" "dev")
  action := .eq (actionEntityUid "read")
  resource := .eq (entityUid "Path" "/data")
  conditions := []

def overridingForbid : Cedar.Policy Empty :=
  { overriddenPermit with effect := .forbid, resource := .any }

theorem neverGrantsDenied_iff_overridden :
    NeverGrantsDenied (.ofAncestors fun _ _ => false) [overriddenPermit, overridingForbid]
        (entityUid "Agent" "dev") ↔
      GrantsBacked (.ofAncestors fun _ _ => false) [overriddenPermit, overridingForbid]
        (entityUid "Agent" "dev") := by
  apply neverGrantsDenied_iff
  intro p member
  simp only [List.mem_cons, List.not_mem_nil, or_false] at member
  rcases member with rfl | rfl
  · exact ⟨.inr ⟨_, rfl⟩, by simp [overriddenPermit]⟩
  · exact ⟨.inl rfl, by simp [overridingForbid, overriddenPermit]⟩

theorem overridden_path_granted :
    ¬ NeverGrantsDenied (.ofAncestors fun _ _ => false) [overriddenPermit, overridingForbid]
      (entityUid "Agent" "dev") := by
  intro sound
  have allowed := sound.granted .read (by decide) "/data" ⟨by decide, by decide⟩
  unfold Allowed at allowed
  revert allowed
  decide

end Overridden

end Frona.Policy
