import Frona.Policy.Model

set_option autoImplicit false

namespace Frona.Policy

variable {T : Type}

section Effects

def Edit.removes (p : StoredPolicy T) : Edit T → Bool
  | .delete policyId => decide (p.id = policyId)
  | .create _ _ => false

def Edit.creation : Edit T → Option (String × T)
  | .create name policyText => some (name, policyText)
  | .delete _ => none

def kept (edits : List (Edit T)) (rows : List (StoredPolicy T)) : List (StoredPolicy T) :=
  rows.filter fun p => !edits.any (Edit.removes p)

/-- The table is what it was, less the planned deletes and with the planned creates. -/
structure Applied (backend : Backend) (userId : String) (edits : List (Edit T))
    (before after : List (StoredPolicy T)) : Prop where
  split : ∃ created : List (StoredPolicy T), after = kept edits before ++ created ∧
    created.map (fun p => (p.name, p.policyText)) = edits.filterMap Edit.creation ∧
    ∀ p ∈ created, p.userId = some userId ∧ p.enabled = true ∧ ∃ op, p.id = backend.newId op

def Edit.TakesEffect (rows : List (StoredPolicy T)) : Edit T → Prop
  | .create _ _ => True
  | .delete policyId => ∃ p ∈ rows, p.id = policyId

instance (rows : List (StoredPolicy T)) (edit : Edit T) : Decidable (edit.TakesEffect rows) :=
  match edit with
  | .create _ _ => inferInstanceAs (Decidable True)
  | .delete _ => inferInstanceAs (Decidable (∃ p ∈ rows, _))

def Edit.Fails (backend : Backend) (userId : String) (repo : Repo T) : Edit T → Prop
  | .delete policyId => backend.fails repo.ops = true ∨
      (∃ p ∈ repo.rows, p.id = policyId) ∧ backend.fails (repo.ops + 1) = true
  | .create name policyText => backend.fails repo.ops = true ∨
      Clashes repo.rows (newRow backend userId name policyText repo.ops)

def Edit.advance (backend : Backend) (userId : String) (repo : Repo T) : Edit T → Repo T
  | .delete policyId => ⟨kept [.delete policyId] repo.rows,
      repo.ops + if (Edit.delete policyId : Edit T).TakesEffect repo.rows then 2 else 1⟩
  | .create name policyText =>
      ⟨repo.rows ++ [newRow backend userId name policyText repo.ops], repo.ops + 1⟩

def NoneFails (backend : Backend) (userId : String) : List (Edit T) → Repo T → Prop
  | [], _ => True
  | edit :: edits, repo => ¬ edit.Fails backend userId repo ∧
      NoneFails backend userId edits (edit.advance backend userId repo)

/-- No edit fails behind one that takes effect. -/
def NoLateFailure (backend : Backend) (userId : String) : List (Edit T) → Repo T → Prop
  | [], _ => True
  | edit :: edits, repo => edit.Fails backend userId repo ∨
      if edit.TakesEffect repo.rows then
        NoneFails backend userId edits (edit.advance backend userId repo)
      else NoLateFailure backend userId edits (edit.advance backend userId repo)

/-- New ids are the ids of no row and of no planned delete. -/
def Fresh (backend : Backend) (edits : List (Edit T)) (rows : List (StoredPolicy T)) : Prop :=
  ∀ op, (∀ p ∈ rows, p.id ≠ backend.newId op) ∧ Edit.delete (backend.newId op) ∉ edits

theorem kept_cons (edit : Edit T) (edits : List (Edit T)) (rows : List (StoredPolicy T)) :
    kept (edit :: edits) rows = kept edits (kept [edit] rows) := by
  simp only [kept, List.filter_filter, List.any_cons, List.any_nil, Bool.or_false, Bool.not_or]
  congr 1
  funext p
  exact Bool.and_comm _ _

theorem kept_append (edits : List (Edit T)) (left right : List (StoredPolicy T)) :
    kept edits (left ++ right) = kept edits left ++ kept edits right := List.filter_append ..

theorem kept_eq_self (edits : List (Edit T)) (rows : List (StoredPolicy T))
    (spared : ∀ p ∈ rows, Edit.delete p.id ∉ edits) : kept edits rows = rows := by
  rw [kept, List.filter_eq_self]
  intro p member
  rw [Bool.not_eq_true', List.any_eq_false]
  intro edit inside
  cases edit with
  | create name policyText => simp [Edit.removes]
  | delete policyId =>
      have : p.id ≠ policyId := fun same => spared p member (same ▸ inside)
      simp [Edit.removes, this]

theorem kept_creation (name : String) (policyText : T) (rows : List (StoredPolicy T)) :
    kept [.create name policyText] rows = rows := by
  apply kept_eq_self
  simp

end Effects

section Step

variable (backend : Backend) (userId : String)

theorem commitEdit_cases (result : PolicyReconciliationResult) (edit : Edit T) (repo : Repo T) :
    (edit.Fails backend userId repo ∧ ∃ e after,
      commitEdit backend userId result edit repo = (.error e, after) ∧
        after.rows = repo.rows) ∨
    (¬ edit.Fails backend userId repo ∧ ∃ result',
      commitEdit backend userId result edit repo =
        (.ok result', edit.advance backend userId repo)) := by
  cases edit with
  | delete policyId =>
      by_cases lost : backend.fails repo.ops = true
      · exact .inl ⟨.inl lost, backend.failure repo.ops, repo.tick,
          by simp [commitEdit, findById, Repo.query, lost], rfl⟩
      cases found : repo.rows.find? fun p => decide (p.id = policyId) with
      | none =>
          have absent : ¬ ∃ p ∈ repo.rows, p.id = policyId := by
            simpa using List.find?_eq_none.mp found
          have idle : kept [.delete policyId] repo.rows = repo.rows := by
            apply kept_eq_self
            intro p member listed
            simp only [List.mem_singleton, Edit.delete.injEq] at listed
            exact absent ⟨p, member, listed⟩
          refine .inr ⟨?_, result, ?_⟩
          · rintro (failed | ⟨present, _⟩)
            · exact lost failed
            · exact absent present
          · simp [commitEdit, findById, Repo.query, lost, found, Edit.advance, idle,
              Edit.TakesEffect, absent, Repo.tick]
      | some row =>
          have present : ∃ p ∈ repo.rows, p.id = policyId :=
            ⟨row, List.mem_of_find?_eq_some found, by simpa using List.find?_some found⟩
          by_cases lost' : backend.fails (repo.ops + 1) = true
          · exact .inl ⟨.inr ⟨present, lost'⟩, backend.failure (repo.ops + 1), repo.tick.tick,
              by simp [commitEdit, findById, Repo.query, lost, found, delete, Repo.tick, lost'],
              rfl⟩
          · refine .inr ⟨?_, { result with deleted := result.deleted + 1 }, ?_⟩
            · rintro (failed | ⟨_, failed⟩)
              · exact lost failed
              · exact lost' failed
            · simp [commitEdit, findById, Repo.query, lost, found, delete, Repo.tick, lost',
                Edit.advance, Edit.TakesEffect, present, kept, Edit.removes]
  | create name policyText =>
      by_cases lost : backend.fails repo.ops = true ∨
          Clashes repo.rows (newRow backend userId name policyText repo.ops)
      · exact .inl ⟨lost, backend.failure repo.ops, repo.tick, by rw [commitEdit, create, if_pos lost], rfl⟩
      · exact .inr ⟨lost, { result with created := result.created + 1 }, by
          rw [commitEdit, create, if_neg lost, Edit.advance]⟩

theorem advance_applied (edit : Edit T) (repo : Repo T) :
    Applied backend userId [edit] repo.rows (edit.advance backend userId repo).rows := by
  cases edit with
  | delete policyId => exact ⟨[], by simp [Edit.advance], rfl, by simp⟩
  | create name policyText =>
      refine ⟨[newRow backend userId name policyText repo.ops], ?_, rfl, ?_⟩
      · rw [kept_creation, Edit.advance]
      · intro p member
        obtain rfl := List.mem_singleton.mp member
        exact ⟨rfl, rfl, repo.ops, rfl⟩

theorem Applied.cons {backend : Backend} {userId : String} {edit : Edit T}
    {edits : List (Edit T)} {before middle after : List (StoredPolicy T)}
    (fresh : ∀ op, Edit.delete (backend.newId op) ∉ edits)
    (head : Applied backend userId [edit] before middle)
    (tail : Applied backend userId edits middle after) :
    Applied backend userId (edit :: edits) before after := by
  obtain ⟨first, rfl, names, owned⟩ := head
  obtain ⟨others, rfl, names', owned'⟩ := tail
  refine ⟨first ++ others, ?_, ?_, ?_⟩
  · have spared : kept edits first = first := by
      apply kept_eq_self
      intro p member
      obtain ⟨_, _, op, same⟩ := owned p member
      rw [same]
      exact fresh op
    rw [kept_append, spared, kept_cons edit edits before, List.append_assoc]
  · rw [List.map_append, names, names', ← List.filterMap_append, List.singleton_append]
  · intro p member
    rcases List.mem_append.mp member with member | member
    · exact owned p member
    · exact owned' p member

theorem Applied.unchanged_iff {backend : Backend} {userId : String} {edits : List (Edit T)}
    {before after : List (StoredPolicy T)} (applied : Applied backend userId edits before after)
    (fresh : Fresh backend edits before) :
    after = before ↔ ∀ edit ∈ edits, ¬ edit.TakesEffect before := by
  obtain ⟨created, rfl, names, owned⟩ := applied
  constructor
  · intro same edit inside effect
    cases edit with
    | create name policyText =>
        have listed : (name, policyText) ∈ edits.filterMap Edit.creation :=
          List.mem_filterMap.mpr ⟨_, inside, rfl⟩
        rw [← names] at listed
        obtain ⟨p, member, _⟩ := List.mem_map.mp listed
        obtain ⟨_, _, op, id⟩ := owned p member
        exact (fresh op).1 p (same ▸ List.mem_append_right _ member) id
    | delete policyId =>
        obtain ⟨p, member, id⟩ := effect
        have stays := member
        rw [← same] at stays
        rcases List.mem_append.mp stays with left | right
        · have spared := (List.mem_filter.mp left).2
          rw [Bool.not_eq_true', List.any_eq_false] at spared
          exact spared _ inside (by simp [Edit.removes, id])
        · obtain ⟨_, _, op, new⟩ := owned p right
          exact (fresh op).1 p member new
  · intro idle
    have none : created = [] := by
      rw [← List.map_eq_nil_iff (f := fun p => (p.name, p.policyText)), names,
        List.filterMap_eq_nil_iff]
      intro edit inside
      cases edit with
      | create name policyText => exact absurd trivial (idle _ inside)
      | delete policyId => rfl
    rw [none, List.append_nil]
    exact kept_eq_self edits before fun p member inside => idle _ inside ⟨p, member, rfl⟩

end Step

section Run

variable (backend : Backend) (userId : String)

theorem advance_rows_eq (edit : Edit T) (repo : Repo T) (idle : ¬ edit.TakesEffect repo.rows) :
    (edit.advance backend userId repo).rows = repo.rows := by
  cases edit with
  | create name policyText => exact absurd trivial idle
  | delete policyId =>
      apply kept_eq_self
      intro p member listed
      simp only [List.mem_singleton, Edit.delete.injEq] at listed
      exact idle ⟨p, member, listed⟩

theorem commitEdits_cases (edits : List (Edit T)) (result : PolicyReconciliationResult)
    (repo : Repo T) (fresh : ∀ op, Edit.delete (backend.newId op) ∉ edits) :
    (∃ done rest e after, edits = done ++ rest ∧ ¬ NoneFails backend userId edits repo ∧
      commitEdits backend userId result edits repo = (.error e, after) ∧
      Applied backend userId done repo.rows after.rows ∧
      (NoLateFailure backend userId edits repo ↔
        ∀ edit ∈ done, ¬ edit.TakesEffect repo.rows)) ∨
    (NoneFails backend userId edits repo ∧ NoLateFailure backend userId edits repo ∧
      ∃ result' after, commitEdits backend userId result edits repo = (.ok result', after) ∧
        Applied backend userId edits repo.rows after.rows) := by
  induction edits generalizing result repo with
  | nil => exact .inr ⟨trivial, trivial, result, repo, rfl, ⟨[], by simp [kept], rfl, by simp⟩⟩
  | cons edit edits ih =>
      have later (op : Nat) : Edit.delete (backend.newId op) ∉ edits :=
        fun inside => fresh op (by simp [inside])
      rcases commitEdit_cases backend userId result edit repo with
        ⟨failed, e, after, step, same⟩ | ⟨passed, result', step⟩
      · refine .inl ⟨[], edit :: edits, e, after, rfl, fun none => none.1 failed, ?_, ?_, ?_⟩
        · simp [commitEdits, step]
        · exact ⟨[], by simp [kept, same], rfl, by simp⟩
        · simp [NoLateFailure, failed]
      have applied := advance_applied backend userId edit repo
      rcases ih result' (edit.advance backend userId repo) later with
        ⟨done, rest, e, after, rfl, some, run, tail, late⟩ | ⟨none, late, final, after, run, tail⟩
      · refine .inl ⟨edit :: done, rest, e, after, rfl, fun none => some none.2, ?_, ?_, ?_⟩
        · simp [commitEdits, step, run]
        · exact applied.cons (fun op inside => later op (by simp [inside])) tail
        · by_cases effect : edit.TakesEffect repo.rows
          · simp [NoLateFailure, passed, effect, some]
          · rw [advance_rows_eq backend userId edit repo effect] at late
            simp [NoLateFailure, passed, effect, late]
      · refine .inr ⟨⟨passed, none⟩, .inr ?_, final, after, ?_, applied.cons later tail⟩
        · split
          · exact none
          · exact late
        · simp [commitEdits, step, run]

end Run

section Atomic

variable (backend : Backend) (digest : List (String × Nat × T) → UInt64)

def Repo.owned (userId : String) (repo : Repo T) : List (StoredPolicy T) :=
  repo.rows.filter fun p => decide (p.userId = some userId)

def Repo.system (repo : Repo T) : List (StoredPolicy T) :=
  repo.rows.filter fun p => decide (p.userId = none)

/-- The plan has no conflicts, the rows can be read, and they are those of the plan. -/
def Admitted (plan : PolicyReconciliationPlan T) (repo : Repo T) : Prop :=
  plan.conflicts = [] ∧ backend.fails repo.ops = false ∧ backend.fails (repo.ops + 1) = false ∧
    fingerprint digest (repo.owned plan.userId ++ repo.system) = plan.fingerprint

/-- A commit that fails leaves the rows alone, and one that succeeds applies the plan. -/
structure Atomic (plan : PolicyReconciliationPlan T) (repo : Repo T) : Prop where
  failed : ∀ e after, commit backend digest plan repo = (.error e, after) →
    after.rows = repo.rows
  committed : ∀ result after, commit backend digest plan repo = (.ok result, after) →
    Applied backend plan.userId plan.edits repo.rows after.rows

theorem commit_cases (plan : PolicyReconciliationPlan T) (repo : Repo T) :
    (¬ Admitted backend digest plan repo ∧ ∃ e after,
      commit backend digest plan repo = (.error e, after) ∧ after.rows = repo.rows) ∨
    (Admitted backend digest plan repo ∧ commit backend digest plan repo =
      match commitEdits backend plan.userId ⟨0, 0⟩ plan.edits repo.tick.tick with
      | (.error e, repo) => (.error (.db e), repo)
      | (.ok result, repo) => (.ok result, repo)) := by
  by_cases clean : plan.conflicts = []
  case neg =>
    refine .inl ⟨fun admitted => clean admitted.1, .conflicts plan.conflicts, repo, ?_, rfl⟩
    simp [commit, clean]
  cases first : backend.fails repo.ops with
  | true =>
      refine .inl ⟨by simp [Admitted, first], .db (backend.failure repo.ops), repo.tick, ?_, rfl⟩
      simp [commit, clean, findByUserId, Repo.query, first]
  | false =>
      cases second : backend.fails (repo.ops + 1) with
      | true =>
          refine .inl ⟨by simp [Admitted, second], .db (backend.failure (repo.ops + 1)),
            repo.tick.tick, ?_, rfl⟩
          simp [commit, clean, findByUserId, findSystemPolicies, Repo.query, first, second]
      | false =>
          by_cases same :
              fingerprint digest (repo.owned plan.userId ++ repo.system) = plan.fingerprint
          · refine .inr ⟨⟨clean, first, second, same⟩, ?_⟩
            simp only [Repo.owned, Repo.system] at same
            rcases edits : commitEdits backend plan.userId ⟨0, 0⟩ plan.edits repo.tick.tick with
              ⟨_ | _, _⟩ <;>
            simp [commit, clean, findByUserId, findSystemPolicies, Repo.query, first, second, same,
              edits]
          · refine .inl ⟨fun admitted => same admitted.2.2.2, .stalePlan, repo.tick.tick, ?_, rfl⟩
            simp only [Repo.owned, Repo.system] at same
            simp [commit, clean, findByUserId, findSystemPolicies, Repo.query, first, second, same]

/-- A commit is atomic exactly when no edit fails behind one that takes effect. -/
theorem atomic_iff (plan : PolicyReconciliationPlan T) (repo : Repo T)
    (fresh : Fresh backend plan.edits repo.rows) :
    Atomic backend digest plan repo ↔ (Admitted backend digest plan repo →
      NoLateFailure backend plan.userId plan.edits repo.tick.tick) := by
  rcases commit_cases backend digest plan repo with ⟨refused, e, after, run, same⟩ |
    ⟨admitted, run⟩
  · constructor
    · exact fun _ admitted => absurd admitted refused
    · intro _
      constructor
      · rintro e' after' run'
        simp only [run, Prod.mk.injEq] at run'
        rw [← run'.2, same]
      · rintro result after' run'
        simp [run] at run'
  rcases commitEdits_cases backend plan.userId plan.edits ⟨0, 0⟩ repo.tick.tick
    (fun op => (fresh op).2) with
    ⟨done, rest, e, after, split, _, edits, applied, late⟩ | ⟨_, late, result, after, edits, applied⟩
  · rw [edits] at run
    have fresh' : Fresh backend done repo.rows :=
      fun op => ⟨(fresh op).1, fun inside => (fresh op).2 (by simp [split, inside])⟩
    simp only [Repo.tick_rows] at late applied
    simp only [admitted, true_imp_iff, late, ← applied.unchanged_iff fresh']
    constructor
    · exact fun atomic => atomic.failed _ _ run
    · intro same
      constructor
      · intro e' after' run'
        simp only [run, Prod.mk.injEq] at run'
        rw [← run'.2, same]
      · intro result after' run'
        simp [run] at run'
  · rw [edits] at run
    refine ⟨fun _ _ => late, fun _ => ⟨?_, ?_⟩⟩
    · intro e after' run'
      simp [run] at run'
    · intro result' after' run'
      simp only [run, Prod.mk.injEq] at run'
      rw [← run'.2]
      exact applied

end Atomic

section ForbidLost

-- One forbid row of a user, and the plan that replaces it.
def forbidRow : StoredPolicy String where
  id := "a"
  userId := some "u"
  name := "no-python"
  description := ""
  policyText := "forbid(principal, action, resource == Policy::Tool::\"python\");"
  enabled := true
  createdAt := 0
  updatedAt := 0

def replacement : Edit String :=
  .create "no-code" "forbid(principal, action, resource in Policy::ToolGroup::\"code\");"

def countRows (rows : List (String × Nat × String)) : UInt64 := rows.length.toUInt64

def replacingPlan : PolicyReconciliationPlan String where
  userId := "u"
  fingerprint := countRows [("a", 0, forbidRow.policyText)]
  edits := [.delete "a", replacement]
  conflicts := []

def failsAt (failing : Option Nat) : Backend where
  fails op := decide (failing = some op)
  failure _ := .database "connection lost"
  newId op := "row-" ++ toString op
  now op := op

theorem failsAt_fresh (failing : Option Nat) :
    Fresh (failsAt failing) replacingPlan.edits [forbidRow] := by
  intro op
  have new : (failsAt failing).newId op ≠ "a" := by
    intro same
    have := congrArg String.length same
    simp only [failsAt, String.length_append] at this
    have : "row-".length = 4 := rfl
    have : "a".length = 1 := rfl
    omega
  constructor
  · intro p member
    obtain rfl := List.mem_singleton.mp member
    exact new.symm
  · simp [replacingPlan, replacement, new]

theorem atomic_iff_replacement :
    Atomic (failsAt none) countRows replacingPlan ⟨[forbidRow], 0⟩ ↔
      (Admitted (failsAt none) countRows replacingPlan ⟨[forbidRow], 0⟩ →
        NoLateFailure (failsAt none) "u" replacingPlan.edits ⟨[forbidRow], 2⟩) :=
  atomic_iff (failsAt none) countRows replacingPlan ⟨[forbidRow], 0⟩ (failsAt_fresh none)

theorem forbid_lost :
    commit (failsAt (some 4)) countRows replacingPlan ⟨[forbidRow], 0⟩ =
        (.error (.db (.database "connection lost")), ⟨[], 5⟩) ∧
      ¬ Atomic (failsAt (some 4)) countRows replacingPlan ⟨[forbidRow], 0⟩ := by
  have loads : Repo.owned "u" ⟨[forbidRow], 0⟩ ++ Repo.system ⟨[forbidRow], 0⟩ = [forbidRow] := by
    decide
  have admitted : Admitted (failsAt (some 4)) countRows replacingPlan ⟨[forbidRow], 0⟩ := by
    refine ⟨rfl, by decide, by decide, ?_⟩
    rw [show replacingPlan.userId = "u" from rfl, loads]
    simp [fingerprint, countRows, replacingPlan]
  have edits : commitEdits (failsAt (some 4)) "u" ⟨0, 0⟩ replacingPlan.edits
      (Repo.tick (Repo.tick ⟨[forbidRow], 0⟩)) =
      (.error (.database "connection lost"), ⟨[], 5⟩) := by
    decide
  have run : commit (failsAt (some 4)) countRows replacingPlan ⟨[forbidRow], 0⟩ =
      (.error (.db (.database "connection lost")), ⟨[], 5⟩) := by
    rcases commit_cases (failsAt (some 4)) countRows replacingPlan ⟨[forbidRow], 0⟩ with
      ⟨refused, _⟩ | ⟨_, whole⟩
    · exact absurd admitted refused
    · rw [whole, show replacingPlan.userId = "u" from rfl, edits]
  refine ⟨run, fun atomic => ?_⟩
  have same := atomic.failed _ _ run
  cases same

end ForbidLost

end Frona.Policy
