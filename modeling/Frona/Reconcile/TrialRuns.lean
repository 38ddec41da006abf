import Frona.Reconcile.Verdict

set_option autoImplicit false

namespace Frona.Reconcile

open Utf8 (Text)
open Frona.Text (trim)
open Pkm (Disposition)

section Foreseen

variable (pass : Pass) (gate : Gate) (state : EntityState) (verdict : EntityVerdict)

/-- The trial and the run agree on the update, the promotions, the retractions and the proposals. -/
def Predicts : Prop :=
  let outcome := reconcileEntity pass state (some verdict)
  tryVerdict pass state verdict = ⟨outcome.pageUpdate, outcome.promotions, outcome.retractions⟩ ∧
    reconcileTrial pass state verdict = stageOutcome pass state.path outcome state.proposals

def LinksTo (kind : Text → Text → Prop) : Prop :=
  ∃ related ∈ verdict.relations, trim related.memory ∈ memoryIds state.current ∧
    ∃ link ∈ related.links, trim link.target ≠ [] ∧ kind (trim related.memory) (trim link.target)

def LinksToItself : Prop := LinksTo state verdict fun subordinate target => target = subordinate

def LinksToCurrent : Prop :=
  LinksTo state verdict fun subordinate target =>
    target ≠ subordinate ∧ target ∈ memoryIds state.current

def LinksToHistorical : Prop :=
  LinksTo state verdict fun _ target =>
    target ∉ memoryIds state.current ∧ target ∈ memoryIds state.allMemories

def OutdatesCurrent : Prop :=
  ∃ item ∈ verdict.outdated, trim item.memory ∈ memoryIds state.current

structure Blank : Prop where
  name : trim verdict.name = []
  description :
    (if trim verdict.description = [] then state.entity.description else verdict.description) =
      noMemories
  attributes : keyedAttributes pass state verdict = .object ∅
  sources : verdict.attributeSources = []
  declarations : verdict.declarations = []
  retractions : ∀ item ∈ verdict.relationRetractions, trim item.property = [] ∨ trim item.target = []

def Foreseen : Prop :=
  (state.current ≠ [] ∧ (OutdatesCurrent state verdict ∨ LinksToCurrent state verdict ∨
    (LinksToItself state verdict ↔ LinksToHistorical state verdict))) ∨
  (state.current = [] ∧ Blank pass state verdict)

end Foreseen

section Retired

variable {pass : Pass} {state : EntityState} {verdict : EntityVerdict}

theorem current_known {id : Text} (current : id ∈ memoryIds state.current) :
    id ∈ memoryIds state.allMemories := by
  obtain ⟨memory, member, named⟩ := List.mem_map.mp current
  exact List.mem_map.mpr ⟨memory, (List.mem_filter.mp member).1, named⟩

theorem trialRetires_iff : trialRetires state verdict = true ↔
    OutdatesCurrent state verdict ∨ LinksToCurrent state verdict ∨ LinksToItself state verdict := by
  have links : (verdict.relations.any fun related =>
        trim related.memory ∈ memoryIds state.current && related.links.any fun link =>
          trim link.target != [] && trim link.target ∈ memoryIds state.current) = true ↔
      LinksToCurrent state verdict ∨ LinksToItself state verdict := by
    simp only [List.any_eq_true, Bool.and_eq_true, decide_eq_true_eq, bne_iff_ne]
    constructor
    · intro found
      obtain ⟨related, member, current, link, listed, some, held⟩ := found
      by_cases itself : trim link.target = trim related.memory
      · exact Or.inr ⟨related, member, current, link, listed, some, itself⟩
      · exact Or.inl ⟨related, member, current, link, listed, some, itself, held⟩
    · intro found
      cases found with
      | inl other =>
          obtain ⟨related, member, current, link, listed, some, _, held⟩ := other
          exact ⟨related, member, current, link, listed, some, held⟩
      | inr itself =>
          obtain ⟨related, member, current, link, listed, some, same⟩ := itself
          exact ⟨related, member, current, link, listed, some, same ▸ current⟩
  rw [trialRetires, Bool.or_eq_true, links]
  simp [OutdatesCurrent]

theorem acceptedRelations_ne_nil
    (supported : unsupportedReplaces pass.lower verdict.relations state.current = []) :
    acceptedRelations pass.lower state.current state.allMemories verdict.relations ≠ [] ↔
      LinksToCurrent state verdict ∨ LinksToHistorical state verdict := by
  have taken (related : Related) (member : related ∈ verdict.relations) (link : RelationInput)
      (listed : link ∈ related.links) :
      (acceptedLink pass.lower state.current state.allMemories (trim related.memory) link ≠ none ↔
        trim link.target ≠ [] ∧ trim link.target ≠ trim related.memory ∧
          trim link.target ∈ memoryIds state.allMemories) := by
    have justified : unsupportedReplace pass.lower state.current (trim related.memory) link = false := by
      by_contra unsupported
      have reported : (trim related.memory, link) ∈
          unsupportedReplaces pass.lower verdict.relations state.current :=
        List.mem_flatMap.mpr ⟨related, member,
          List.mem_map.mpr ⟨link, List.mem_filter.mpr ⟨listed, by simpa using unsupported⟩, rfl⟩⟩
      simp [supported] at reported
    simp only [acceptedLink, justified, memoryIds]
    split
    next skipped =>
      simp only [ne_eq, not_true_eq_false, false_iff]
      intro other
      simp [other] at skipped
    next kept =>
      simpa using kept
  have written : acceptedRelations pass.lower state.current state.allMemories verdict.relations ≠ [] ↔
      ∃ related ∈ verdict.relations, trim related.memory ∈ memoryIds state.current ∧
        ∃ link ∈ related.links,
          acceptedLink pass.lower state.current state.allMemories (trim related.memory) link ≠ none := by
    rw [acceptedRelations, ne_eq, List.flatMap_eq_nil_iff, not_forall]
    apply exists_congr
    intro related
    by_cases current : trim related.memory ∈ memoryIds state.current <;>
      simp only [memoryIds] at current <;>
      simp [current, memoryIds, List.filterMap_eq_nil_iff]
  rw [written]
  constructor
  · intro found
    obtain ⟨related, member, current, link, listed, accepted⟩ := found
    obtain ⟨some, other, known⟩ := (taken related member link listed).mp accepted
    by_cases held : trim link.target ∈ memoryIds state.current
    · exact Or.inl ⟨related, member, current, link, listed, some, other, held⟩
    · exact Or.inr ⟨related, member, current, link, listed, some, held, known⟩
  · intro found
    cases found with
    | inl proper =>
        obtain ⟨related, member, current, link, listed, some, other, held⟩ := proper
        exact ⟨related, member, current, link, listed,
          (taken related member link listed).mpr ⟨some, other, current_known held⟩⟩
    | inr historical =>
        obtain ⟨related, member, current, link, listed, some, absent, known⟩ := historical
        exact ⟨related, member, current, link, listed, (taken related member link listed).mpr
          ⟨some, fun same => absent (same ▸ current), known⟩⟩

theorem acceptedOutdated_ne_nil :
    acceptedOutdated state.current verdict.outdated ≠ [] ↔ OutdatesCurrent state verdict := by
  simp [acceptedOutdated, OutdatesCurrent, List.filterMap_eq_nil_iff, memoryIds]

theorem unsupportedReplaces_nil {gate : Gate}
    (accepted : passesValidation pass gate state verdict = true) :
    unsupportedReplaces pass.lower verdict.relations state.current = [] := by
  simp only [passesValidation, Bool.and_eq_true, List.isEmpty_iff] at accepted
  exact accepted.1

end Retired

section Predicts

variable (pass : Pass) (gate : Gate) (state : EntityState) (verdict : EntityVerdict)

theorem predicts_iff : Predicts pass state verdict ↔
    tryVerdict pass state verdict =
      ⟨(reconcileEntity pass state (some verdict)).pageUpdate,
        (reconcileEntity pass state (some verdict)).promotions,
        (reconcileEntity pass state (some verdict)).retractions⟩ := by
  constructor
  · exact And.left
  · intro same
    refine ⟨same, ?_⟩
    simp only [reconcileTrial, same, stageOutcome]

theorem stageVerdict_retired
    (retires : acceptedRelations pass.lower state.current state.allMemories verdict.relations ≠ [] ∨
      acceptedOutdated state.current verdict.outdated ≠ []) :
    (stageVerdict pass state verdict).pageUpdate = none ∧
      (stageVerdict pass state verdict).promotions = (tryVerdict pass state verdict).promotions ∧
      (stageVerdict pass state verdict).retractions = (tryVerdict pass state verdict).retractions := by
  simp only [stageVerdict]
  rw [if_pos retires]
  exact ⟨rfl, rfl, rfl⟩

theorem stageVerdict_clean
    (clean : ¬(acceptedRelations pass.lower state.current state.allMemories verdict.relations ≠ [] ∨
      acceptedOutdated state.current verdict.outdated ≠ [])) :
    (stageVerdict pass state verdict).pageUpdate ≠ none ∧
      (trialRetires state verdict = false →
        (stageVerdict pass state verdict).pageUpdate = (tryVerdict pass state verdict).update) ∧
      (stageVerdict pass state verdict).promotions = (tryVerdict pass state verdict).promotions ∧
      (stageVerdict pass state verdict).retractions = (tryVerdict pass state verdict).retractions := by
  simp only [stageVerdict]
  rw [if_neg clean]
  refine ⟨by simp, ?_, rfl, rfl⟩
  intro kept
  simp [tryVerdict, trialUpdate, kept]

theorem agreed_of_runs {outdates current itself historical : Prop}
    (runs : (current ∨ historical) ∨ outdates) :
    (outdates ∨ current ∨ itself) ↔ (outdates ∨ current ∨ (itself ↔ historical)) := by
  tauto

theorem agreed_of_clean {outdates current itself historical : Prop}
    (clean : ¬((current ∨ historical) ∨ outdates)) :
    ¬(outdates ∨ current ∨ itself) ↔ (outdates ∨ current ∨ (itself ↔ historical)) := by
  tauto

theorem trial_eq_iff (trial : Trial) (update : Option ReconciledEntityUpdate) :
    trial = ⟨update, trial.promotions, trial.retractions⟩ ↔ trial.update = update := by
  cases trial
  simp

theorem tryVerdict_update :
    (tryVerdict pass state verdict).update = none ↔ trialRetires state verdict = true := by
  change trialUpdate pass state verdict = none ↔ _
  rw [trialUpdate]
  split <;> simp_all

theorem predicts_asked (accepted : passesValidation pass gate state verdict = true)
    (asked : state.current ≠ []) : Predicts pass state verdict ↔
      OutdatesCurrent state verdict ∨ LinksToCurrent state verdict ∨
        (LinksToItself state verdict ↔ LinksToHistorical state verdict) := by
  have staged : reconcileEntity pass state (some verdict) = stageVerdict pass state verdict := by
    simp [reconcileEntity, asked]
  have written := acceptedRelations_ne_nil (unsupportedReplaces_nil accepted)
  have outdated : acceptedOutdated state.current verdict.outdated ≠ [] ↔ _ :=
    acceptedOutdated_ne_nil
  have tried : trialRetires state verdict = true ↔ _ := trialRetires_iff
  rw [predicts_iff, staged]
  by_cases runs : acceptedRelations pass.lower state.current state.allMemories verdict.relations ≠ [] ∨
      acceptedOutdated state.current verdict.outdated ≠ []
  · obtain ⟨update, promotions, retractions⟩ := stageVerdict_retired pass state verdict runs
    rw [update, promotions, retractions]
    rw [written, outdated] at runs
    rw [trial_eq_iff, tryVerdict_update, tried]
    exact agreed_of_runs runs
  · obtain ⟨update, same, promotions, retractions⟩ := stageVerdict_clean pass state verdict runs
    rw [promotions, retractions]
    rw [written, outdated] at runs
    have agrees : (tryVerdict pass state verdict).update =
        (stageVerdict pass state verdict).pageUpdate ↔ ¬ trialRetires state verdict = true := by
      cases retires : trialRetires state verdict with
      | false => simp [same retires]
      | true =>
          have none' := (tryVerdict_update pass state verdict).mpr retires
          rw [none']
          simpa using Ne.symm update
    rw [trial_eq_iff, agrees, tried]
    exact agreed_of_clean runs

theorem acceptedPromotions_unasked (unasked : state.current = []) :
    acceptedPromotions pass state verdict = [] := by
  have refused : verdict.entityRelations.filterMap (acceptedPromotion pass state verdict) = [] := by
    rw [List.filterMap_eq_nil_iff]
    intro relation _
    simp [acceptedPromotion, unasked]
  rw [acceptedPromotions, refused, List.foldl_nil]

theorem foldl_pushNew_nil {A : Type} [DecidableEq A] (values : List A) :
    values.foldl pushNew [] = [] ↔ values = [] := by
  simp [List.eq_nil_iff_forall_not_mem, mem_foldl_pushNew]

theorem predicts_unasked (unasked : state.current = []) :
    Predicts pass state verdict ↔ Blank pass state verdict := by
  have retires : trialRetires state verdict = false := by
    simp [trialRetires, unasked, memoryIds]
  have promotions := acceptedPromotions_unasked pass state verdict unasked
  have retractions : (tryVerdict pass state verdict).retractions = [] ↔
      ∀ item ∈ verdict.relationRetractions, trim item.property = [] ∨ trim item.target = [] := by
    have none' : replacementRetractions pass state verdict [] = [] := by
      rw [replacementRetractions, foldl_pushNew_nil]
      simp [List.flatMap_eq_nil_iff]
    simp only [tryVerdict, promotions, none', mergeExplicitRetractions, foldl_pushNew_nil]
    simp [or_iff_not_imp_left]
  have staged : reconcileEntity pass state (some verdict) =
      { EntityOutcome.skipped with pageUpdate := some emptyUpdate } := by
    simp [reconcileEntity, unasked]
  have sources : keyedSources pass verdict = [] ↔ verdict.attributeSources = [] := by
    simp [keyedSources]
  rw [predicts_iff, staged]
  constructor
  · intro same
    have update := congrArg Trial.update same
    have gone := congrArg Trial.retractions same
    simp only [tryVerdict, trialUpdate, retires, emptyUpdate, Bool.false_eq_true, if_false,
      Option.some.injEq, ReconciledEntityUpdate.mk.injEq] at update
    obtain ⟨name, description, attributes, cited, declarations⟩ := update
    exact ⟨name, description, attributes, sources.mp cited, declarations, retractions.mp gone⟩
  · intro blank
    have gone := retractions.mpr blank.retractions
    have update : (tryVerdict pass state verdict).update = some emptyUpdate := by
      simp only [tryVerdict, trialUpdate, retires, emptyUpdate, Bool.false_eq_true, if_false,
        Option.some.injEq, ReconciledEntityUpdate.mk.injEq]
      exact ⟨blank.name, blank.description, blank.attributes, sources.mpr blank.sources,
        blank.declarations⟩
    have given : (tryVerdict pass state verdict).promotions = [] := promotions
    cases trial : tryVerdict pass state verdict with
    | mk tried promoted retracted =>
        simp_all [EntityOutcome.skipped]

/-- The trial of an accepted verdict foresees the run exactly when both see the same retirement. -/
theorem predicts_iff_foreseen (accepted : passesValidation pass gate state verdict = true) :
    Predicts pass state verdict ↔ Foreseen pass state verdict := by
  by_cases asked : state.current = []
  · rw [predicts_unasked pass state verdict asked]
    simp [Foreseen, asked]
  · rw [predicts_asked pass gate state verdict accepted asked]
    simp [Foreseen, asked]

end Predicts

section Echo

def plainPass : Pass where
  prefixes := ⟨id, some⟩
  lower := id
  normalizePath := some
  dataProperties := []
  entityByPath := fun _ => none
  entityInPass := fun _ _ => none

def openGate : Gate := ⟨fun _ _ => [], fun _ => true⟩

def told (id : Text) (disposition : Disposition) : KnowledgeMemory :=
  ⟨id, none, "Port 80".toList, [], disposition, []⟩

def page : Text := "port".toList

def echoed : EntityState where
  path := page
  entity := ⟨page, page, [], [], .object ∅, [], []⟩
  links := []
  allMemories := [told ['1'] .outdated, told ['2'] .none, told ['3'] .none]
  memoryEntities := fun _ => some [page]
  proposals := ⟨∅, ∅, ∅, [], ∅, ∅, []⟩

def duplicates (memory target : Text) : EntityVerdict where
  relations := [⟨memory, [⟨.duplicate, target, [], [], [], false⟩]⟩]
  entityRelations := []
  relationRetractions := []
  outdated := []
  attributes := .object ∅
  attributeSources := []
  name := []
  description := "The port.".toList
  moves := []
  declarations := []

theorem predicts_twin : Predicts plainPass echoed (duplicates ['3'] ['2']) := by
  refine (predicts_iff_foreseen plainPass openGate echoed _ (by decide)).mpr ?_
  refine Or.inl ⟨by decide, Or.inr (Or.inl ?_)⟩
  exact ⟨_, List.mem_singleton.mpr rfl, by decide, _, List.mem_singleton.mpr rfl,
    by decide, by decide, by decide⟩

theorem echo_unforeseen :
    passesValidation plainPass openGate echoed (duplicates ['2'] ['1']) = true ∧
      (tryVerdict plainPass echoed (duplicates ['2'] ['1'])).update.isSome = true ∧
      (reconcileEntity plainPass echoed (some (duplicates ['2'] ['1']))).pageUpdate = none ∧
      ¬ Predicts plainPass echoed (duplicates ['2'] ['1']) := by
  have tried : (tryVerdict plainPass echoed (duplicates ['2'] ['1'])).update.isSome = true := by
    decide
  have retired : (reconcileEntity plainPass echoed (some (duplicates ['2'] ['1']))).pageUpdate =
      none := by
    decide
  refine ⟨by decide, tried, retired, ?_⟩
  intro predicts
  rw [predicts.1, retired] at tried
  cases tried

end Echo

end Frona.Reconcile
