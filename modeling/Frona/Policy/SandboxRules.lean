import Frona.Policy.Sandbox

set_option autoImplicit false

namespace Frona.Policy

open Cedar

section Projection

theorem foldl_field {T : Type} (field : SandboxPolicy → List T) (entries : Rule → List T)
    (step : ∀ policy rule, field (applyRule policy rule) = field policy ++ entries rule)
    (rules : List Rule) (policy : SandboxPolicy) :
    field (rules.foldl applyRule policy) = field policy ++ rules.flatMap entries := by
  induction rules generalizing policy with
  | nil => simp
  | cons rule rest ih => simp [ih, step]

def targetIf (wanted : RuleEffect → RuleKind → Bool) (rule : Rule) : List String :=
  if rule.target.isEmpty then [] else if wanted rule.effect rule.kind then [rule.target] else []

theorem mem_targetIf (wanted : RuleEffect → RuleKind → Bool) (rules : List Rule)
    (target : String) :
    target ∈ rules.flatMap (targetIf wanted) ↔
      target ≠ "" ∧ ∃ effect kind, wanted effect kind = true ∧
        (⟨effect, kind, target⟩ : Rule) ∈ rules := by
  simp only [List.mem_flatMap, targetIf]
  constructor
  · rintro ⟨⟨effect, kind, found⟩, member, listed⟩
    split at listed
    · simp at listed
    · rename_i nonempty
      split at listed
      · rename_i wants
        obtain rfl : target = found := by simpa using listed
        exact ⟨by simpa using nonempty, effect, kind, wants, member⟩
      · simp at listed
  · rintro ⟨nonempty, effect, kind, wants, member⟩
    exact ⟨_, member, by simp [wants, nonempty]⟩

theorem mem_field (field : SandboxPolicy → List String) (wanted : RuleEffect → RuleKind → Bool)
    (step : ∀ policy rule, field (applyRule policy rule) = field policy ++ targetIf wanted rule)
    (fresh : ∀ networkAccess, field { networkAccess } = []) (rules : List Rule)
    (target : String) :
    target ∈ field (rulesToPolicy rules) ↔
      target ≠ "" ∧ ∃ effect kind, wanted effect kind = true ∧
        (⟨effect, kind, target⟩ : Rule) ∈ rules := by
  rw [rulesToPolicy, foldl_field field (targetIf wanted) step, fresh, List.nil_append,
    mem_targetIf]

theorem mem_readPaths (rules : List Rule) (target : String) :
    target ∈ (rulesToPolicy rules).readPaths ↔
      target ≠ "" ∧ (⟨.allow, .read, target⟩ : Rule) ∈ rules := by
  rw [mem_field SandboxPolicy.readPaths fun effect kind => effect = .allow ∧ kind = .read]
  · simp
  · rintro policy ⟨effect, kind, found⟩
    unfold applyRule targetIf
    split
    · simp
    · cases effect <;> cases kind <;> simp
      split <;> rfl
  · intro _; rfl

theorem mem_writePaths (rules : List Rule) (target : String) :
    target ∈ (rulesToPolicy rules).writePaths ↔
      target ≠ "" ∧ (⟨.allow, .write, target⟩ : Rule) ∈ rules := by
  rw [mem_field SandboxPolicy.writePaths fun effect kind => effect = .allow ∧ kind = .write]
  · simp
  · rintro policy ⟨effect, kind, found⟩
    unfold applyRule targetIf
    split
    · simp
    · cases effect <;> cases kind <;> simp
      split <;> rfl
  · intro _; rfl

theorem mem_networkDestinations (rules : List Rule) (target : String) :
    target ∈ (rulesToPolicy rules).networkDestinations ↔
      target ≠ "" ∧ (⟨.allow, .connect, target⟩ : Rule) ∈ rules := by
  rw [mem_field SandboxPolicy.networkDestinations
    fun effect kind => effect = .allow ∧ kind = .connect]
  · simp
  · rintro policy ⟨effect, kind, found⟩
    unfold applyRule targetIf
    split
    · simp
    · cases effect <;> cases kind <;> simp
      split <;> rfl
  · intro _; rfl

theorem mem_deniedPaths (rules : List Rule) (target : String) :
    target ∈ (rulesToPolicy rules).deniedPaths ↔
      target ≠ "" ∧ ((⟨.deny, .read, target⟩ : Rule) ∈ rules ∨
        (⟨.deny, .write, target⟩ : Rule) ∈ rules) := by
  rw [mem_field SandboxPolicy.deniedPaths
    fun effect kind => effect = .deny ∧ (kind = .read ∨ kind = .write)]
  · simp only [decide_eq_true_eq, and_congr_right_iff]
    intro nonempty
    constructor
    · rintro ⟨effect, kind, ⟨rfl, rfl | rfl⟩, member⟩
      · exact .inl member
      · exact .inr member
    · rintro (member | member)
      · exact ⟨.deny, .read, ⟨rfl, .inl rfl⟩, member⟩
      · exact ⟨.deny, .write, ⟨rfl, .inr rfl⟩, member⟩
  · rintro policy ⟨effect, kind, found⟩
    unfold applyRule targetIf
    split
    · simp
    · cases effect <;> cases kind <;> simp
      split <;> rfl
  · intro _; rfl

theorem mem_blockedNetworks (rules : List Rule) (target : String) :
    target ∈ (rulesToPolicy rules).blockedNetworks ↔
      target ≠ "" ∧ (⟨.deny, .connect, target⟩ : Rule) ∈ rules := by
  rw [mem_field SandboxPolicy.blockedNetworks
    fun effect kind => effect = .deny ∧ kind = .connect]
  · simp
  · rintro policy ⟨effect, kind, found⟩
    unfold applyRule targetIf
    split
    · simp
    · cases effect <;> cases kind <;> simp
      split <;> rfl
  · intro _; rfl

theorem mem_bindPorts (rules : List Rule) (port : UInt16) :
    port ∈ (rulesToPolicy rules).bindPorts ↔
      ∃ target, parseU16 target = some port ∧ (⟨.allow, .bind, target⟩ : Rule) ∈ rules := by
  let entries (rule : Rule) : List UInt16 :=
    if rule.effect = .allow ∧ rule.kind = .bind then (parseU16 rule.target).toList else []
  have step (policy : SandboxPolicy) (rule : Rule) :
      (applyRule policy rule).bindPorts = policy.bindPorts ++ entries rule := by
    rcases rule with ⟨effect, kind, found⟩
    by_cases empty : found = ""
    · subst empty
      cases effect <;> cases kind <;> simp [applyRule, entries, parseU16]
    · have nonempty : found.isEmpty = false := by simpa using empty
      cases effect <;> cases kind <;> simp [applyRule, entries, nonempty]
      cases parseU16 found <;> simp
  rw [rulesToPolicy, foldl_field SandboxPolicy.bindPorts entries step]
  simp only [List.nil_append, List.mem_flatMap]
  constructor
  · rintro ⟨⟨effect, kind, target⟩, member, listed⟩
    by_cases granted : effect = .allow ∧ kind = .bind
    · obtain ⟨rfl, rfl⟩ := granted
      exact ⟨target, by simpa [entries] using listed, member⟩
    · simp [entries, granted] at listed
  · rintro ⟨target, parsed, member⟩
    exact ⟨_, member, by simp [entries, parsed]⟩

theorem rulesToPolicy_networkAccess (rules : List Rule) :
    (rulesToPolicy rules).networkAccess = true ↔
      ∃ target, (⟨.allow, .connect, target⟩ : Rule) ∈ rules := by
  have kept (policy : SandboxPolicy) :
      (rules.foldl applyRule policy).networkAccess = policy.networkAccess := by
    induction rules generalizing policy with
    | nil => rfl
    | cons rule rest ih =>
        rw [List.foldl_cons, ih]
        unfold applyRule
        split
        · rfl
        · rcases rule with ⟨effect, kind, found⟩
          cases effect <;> cases kind <;> simp
          split <;> rfl
  rw [rulesToPolicy, kept]
  simp only [List.any_eq_true, decide_eq_true_eq]
  constructor
  · rintro ⟨⟨effect, kind, target⟩, member, rfl, rfl⟩
    exact ⟨target, member⟩
  · rintro ⟨target, member⟩
    exact ⟨_, member, rfl, rfl⟩

end Projection

section Rules

variable {A : Type} (env : Env A) (policies : List (Cedar.Policy A)) (principal : EntityUid)

def comparisons (kind : RuleKind) (p : Cedar.Policy A) : List ResidualEntity :=
  match partialEvaluate env (kind.request principal) p with
  | .residual e => conditionEntities e
  | _ => []

/-- A comparison of some policy yields a rule of this effect for the target. -/
def Named (kind : RuleKind) (effect : RuleEffect) (target : String) : Prop :=
  ∃ p ∈ policies, ∃ entity ∈ comparisons env principal kind p,
    entityRule (.ofEffect p.effect) kind entity = ⟨effect, kind, target⟩

def Unconditional (kind : RuleKind) (effect : RuleEffect) : Prop :=
  ∃ p ∈ policies, RuleEffect.ofEffect p.effect = effect ∧
    partialEvaluate env (kind.request principal) p = .satisfied

theorem residualRules_whenClause (kind : RuleKind) (p : Cedar.Policy A) (e : Expr A) :
    residualRules kind (p.whenClause e) =
      (conditionEntities e).map (entityRule (.ofEffect p.effect) kind) := by
  simp [residualRules, Policy.whenClause, extractResourceEntitiesFromResidual]

theorem mem_byEffect (f : Cedar.Policy A → Option (Cedar.Policy A)) (q : Cedar.Policy A) :
    q ∈ (policies.filter (Policy.hasEffect .permit)).filterMap f ++
        (policies.filter (Policy.hasEffect .forbid)).filterMap f ↔
      ∃ p ∈ policies, f p = some q := by
  simp only [List.mem_append, List.mem_filterMap, List.mem_filter, Policy.hasEffect,
    decide_eq_true_eq, and_assoc, ← exists_or, ← and_or_left, ← or_and_right]
  refine exists_congr fun p => and_congr_right fun _ => ?_
  cases p.effect <;> simp

theorem mem_rulesFor (kind : RuleKind) (rule : Rule) :
    rule ∈ rulesFor env policies principal kind ↔
      rule.kind = kind ∧ (Named env policies principal kind rule.effect rule.target ∨
        rule.target = "" ∧ Unconditional env policies principal kind rule.effect) := by
  simp only [rulesFor, isAuthorizedPartial, List.mem_append (s := List.flatMap _ _),
    List.mem_flatMap, List.mem_map, mem_byEffect]
  constructor
  · rintro (⟨q, ⟨p, member, found⟩, listed⟩ | ⟨q, ⟨p, member, found⟩, rfl⟩)
    · unfold residualOf at found
      split at found
      · rename_i e left
        obtain rfl : p.whenClause e = q := by simpa using found
        rw [residualRules_whenClause, List.mem_map] at listed
        obtain ⟨entity, named, rfl⟩ := listed
        refine ⟨rfl, .inl ⟨p, member, entity, ?_, rfl⟩⟩
        simpa only [comparisons, left] using named
      · simp at found
    · unfold satisfiedOf at found
      split at found
      · rename_i left
        obtain rfl : p.whenClause Expr.true = q := by simpa using found
        exact ⟨rfl, .inr ⟨rfl, p, member, rfl, left⟩⟩
      · simp at found
  · rintro ⟨sameKind, ⟨p, member, entity, named, same⟩ | ⟨empty, p, member, same, left⟩⟩
    · left
      unfold comparisons at named
      split at named
      · rename_i e left
        refine ⟨p.whenClause e, ⟨p, member, by simp [residualOf, left]⟩, ?_⟩
        rw [residualRules_whenClause, List.mem_map]
        refine ⟨entity, named, ?_⟩
        rw [same, ← sameKind]
      · simp at named
    · right
      refine ⟨p.whenClause Expr.true, ⟨p, member, by simp [satisfiedOf, left]⟩, ?_⟩
      rcases rule with ⟨effect, ruleKind, target⟩
      simp only at sameKind empty same
      subst sameKind empty same
      rfl

theorem mem_rules (rule : Rule) :
    rule ∈ sandboxActions.flatMap (rulesFor env policies principal) ↔
      Named env policies principal rule.kind rule.effect rule.target ∨
        rule.target = "" ∧ Unconditional env policies principal rule.kind rule.effect := by
  simp only [List.mem_flatMap, mem_rulesFor]
  constructor
  · rintro ⟨kind, _, rfl, found⟩
    exact found
  · intro found
    exact ⟨rule.kind, by cases rule.kind <;> simp [sandboxActions], rfl, found⟩

theorem mem_rules_of_target (kind : RuleKind) (effect : RuleEffect) (target : String)
    (nonempty : target ≠ "") :
    (⟨effect, kind, target⟩ : Rule) ∈ sandboxActions.flatMap (rulesFor env policies principal) ↔
      Named env policies principal kind effect target := by
  rw [mem_rules]
  simp [nonempty]

end Rules

end Frona.Policy
