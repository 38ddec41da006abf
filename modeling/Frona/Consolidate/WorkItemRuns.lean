import Frona.Consolidate.WorkItem

set_option autoImplicit false

namespace Frona.Consolidate

open Utf8 (Text)
open Frona.Chat (Json)

namespace KnowledgeConsolidationEntity

section Valid

variable (letters : Letters) (now : Nat) {item : KnowledgeConsolidationEntity}

/-- What the validator accepts. -/
structure Valid (item : KnowledgeConsolidationEntity) : Prop where
  searchable : item.searchable = item.lifecycle.searchable
  redirect : item.lifecycle = .coalesced → ∃ path, item.canonicalPath = some path ∧ path ≠ []
  stray : item.lifecycle ≠ .coalesced → item.canonicalPath = none

theorem validate_iff : item.validate = .ok () ↔ item.Valid := by
  unfold validate
  constructor
  · intro accepted
    split at accepted
    · cases accepted
    · next searchable =>
        split at accepted
        · cases accepted
        · next missing =>
            split at accepted
            · cases accepted
            · next stray =>
                refine ⟨by simpa using searchable, fun merged => ?_, fun other => ?_⟩
                · cases path : item.canonicalPath with
                  | none => simp [merged, path] at missing
                  | some path' => exact ⟨path', rfl, by simpa [merged, path] using missing⟩
                · simpa [other] using stray
  · intro valid
    rw [if_neg (by simp [valid.searchable])]
    by_cases merged : item.lifecycle = .coalesced
    · obtain ⟨path, same, named⟩ := valid.redirect merged
      simp [merged, same, named]
    · simp [merged, valid.stray merged]

@[simp] theorem rederiveSearch_lifecycle :
    (item.rederiveSearch letters now).lifecycle = item.lifecycle := by
  unfold rederiveSearch
  simp only
  split <;> rfl

@[simp] theorem rederiveSearch_canonicalPath :
    (item.rederiveSearch letters now).canonicalPath = item.canonicalPath := by
  unfold rederiveSearch
  simp only
  split <;> rfl

@[simp] theorem rederiveSearch_searchable :
    (item.rederiveSearch letters now).searchable = item.lifecycle.searchable := by
  unfold rederiveSearch
  simp only
  split <;> rfl

theorem valid_rederiveSearch
    (redirect : item.lifecycle = .coalesced → ∃ path, item.canonicalPath = some path ∧ path ≠ [])
    (stray : item.lifecycle ≠ .coalesced → item.canonicalPath = none) :
    (item.rederiveSearch letters now).Valid where
  searchable := by simp
  redirect := by simpa using redirect
  stray := by simpa using stray

theorem valid_applyCommitted (entity : KnowledgeEntity)
    (redirect : item.lifecycle = .coalesced → ∃ path, item.canonicalPath = some path ∧ path ≠ [])
    (stray : item.lifecycle ≠ .coalesced → item.canonicalPath = none) :
    (item.applyCommitted letters now entity).Valid where
  searchable := by simp [applyCommitted]
  redirect := by simpa [applyCommitted] using redirect
  stray := by simpa [applyCommitted] using stray

theorem valid_markCoalesced (canonicalPath : Text) (evidence : Option Json)
    (named : canonicalPath ≠ []) : (item.markCoalesced now canonicalPath evidence).Valid where
  searchable := rfl
  redirect _ := ⟨canonicalPath, rfl, named⟩
  stray other := absurd rfl other

theorem valid_markDiscarded (reason : Text) : (item.markDiscarded now reason).Valid where
  searchable := rfl
  redirect := by simp [markDiscarded]
  stray _ := rfl

end Valid

section Runs

inductive Act where
  | mergeContribution (now : Nat) (incoming : PendingEntityContribution)
  | markCoalesced (now : Nat) (canonicalPath : Text) (evidence : Option Json)
  | markDiscarded (now : Nat) (reason : Text)
  | applyCommitted (now : Nat) (entity : KnowledgeEntity)
  | rederiveSearch (now : Nat)
  | commitAuthored (now : Nat) (entity : KnowledgeEntity)

-- What the callers see to: a work item is merged into one that has a path.
def Act.Named : Act → Prop
  | .markCoalesced _ canonicalPath _ => canonicalPath ≠ []
  | _ => True

instance : (act : Act) → Decidable act.Named
  | .markCoalesced _ _ _ => inferInstanceAs (Decidable (_ ≠ _))
  | .mergeContribution _ _ | .markDiscarded _ _ | .applyCommitted _ _ | .rederiveSearch _
  | .commitAuthored _ _ => isTrue trivial

variable (letters : Letters)

def perform (item : KnowledgeConsolidationEntity) : Act → KnowledgeConsolidationEntity
  | .mergeContribution now incoming => item.mergeContribution letters now incoming
  | .markCoalesced now canonicalPath evidence => item.markCoalesced now canonicalPath evidence
  | .markDiscarded now reason => item.markDiscarded now reason
  | .applyCommitted now entity => item.applyCommitted letters now entity
  | .rederiveSearch now => item.rederiveSearch letters now
  | .commitAuthored now entity => item.commitAuthored letters now entity

theorem valid_perform {item : KnowledgeConsolidationEntity} (valid : item.Valid) (act : Act)
    (named : act.Named) : (item.perform letters act).Valid := by
  cases act with
  | mergeContribution now incoming =>
      exact valid_rederiveSearch letters now valid.redirect valid.stray
  | markCoalesced now canonicalPath evidence =>
      exact valid_markCoalesced now canonicalPath evidence named
  | markDiscarded now reason => exact valid_markDiscarded now reason
  | applyCommitted now entity => exact valid_applyCommitted letters now entity valid.redirect valid.stray
  | rederiveSearch now => exact valid_rederiveSearch letters now valid.redirect valid.stray
  | commitAuthored now entity =>
      let authored : KnowledgeConsolidationEntity := { item with
        lifecycle := .active
        canonicalPath := none
        category := entity.category
        sourceMemoryIds := entity.sourceMemoryIds
        entityId := some entity.id }
      have applied : (authored.applyCommitted letters now entity).Valid :=
        valid_applyCommitted letters now entity (by simp [authored]) (fun _ => rfl)
      exact valid_rederiveSearch letters now applied.redirect applied.stray

theorem valid_foldl {item : KnowledgeConsolidationEntity} (valid : item.Valid) (acts : List Act)
    (named : ∀ act ∈ acts, act.Named) : (acts.foldl (perform letters) item).Valid := by
  induction acts generalizing item with
  | nil => exact valid
  | cons act rest ih =>
      exact ih (valid_perform letters valid act (named act (by simp)))
        fun other member => named other (by simp [member])

/-- Whatever is done to a new work item, its validator accepts what comes out. -/
theorem validate_run (now : Nat) (newId consolidationId userId path : Text)
    (category : EntityCategory) (contributions : List PendingEntityContribution)
    (sourceMemoryIds : List Text) (acts : List Act) (named : ∀ act ∈ acts, act.Named) :
    (acts.foldl (perform letters) (pending letters now newId consolidationId userId path category
      contributions sourceMemoryIds)).validate = .ok () := by
  rw [validate_iff]
  exact valid_foldl letters (valid_rederiveSearch letters now (by simp) (fun _ => rfl)) acts named

def asciiLetters : Letters := ⟨Char.isAlphanum, List.map Char.toLower⟩

def newItem : KnowledgeConsolidationEntity :=
  pending asciiLetters 1 ['w'] ['c'] ['u'] "people/ann".toList .concept [] []

def mergedItem : List Act :=
  [.markCoalesced 2 "people/anne".toList none, .rederiveSearch 3, .markDiscarded 4 []]

theorem validate_run_mergedItem :
    (mergedItem.foldl (perform asciiLetters) newItem).validate = .ok () :=
  validate_run asciiLetters 1 ['w'] ['c'] ['u'] "people/ann".toList .concept [] [] mergedItem
    (by decide)

theorem unnamed_rejected :
    ¬∀ acts : List Act, (acts.foldl (perform asciiLetters) newItem).validate = .ok () := by
  intro accepted
  exact absurd (accepted [.markCoalesced 2 [] none]) (by decide)

end Runs

end KnowledgeConsolidationEntity

end Frona.Consolidate
