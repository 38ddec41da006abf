import Frona.Policy.CommitAtomic
import Frona.Policy.Turns

set_option autoImplicit false

namespace Frona.Policy

open Cedar

section Sweep

variable {T : Type}

theorem mem_sweep (owned : List (StoredPolicy T)) (keptNames : List String)
    (pending : PendingEdits T) (id : String) :
    id ∈ (sweep owned keptNames pending).deletes ↔
      id ∈ pending.deletes ∨ ∃ row ∈ owned, row.id = id ∧ row.name ∉ keptNames := by
  induction owned generalizing pending with
  | nil => simp [sweep]
  | cons row rest ih =>
      have unfolded : sweep (row :: rest) keptNames pending = sweep rest keptNames
          (if row.id ∈ pending.deletes ∨ row.name ∈ keptNames then pending
            else pending.delete [row]) := rfl
      rw [unfolded, ih]
      by_cases marked : row.id ∈ pending.deletes ∨ row.name ∈ keptNames
      next =>
        rw [if_pos marked]
        constructor
        · intro deleted
          rcases deleted with listed | ⟨other, member, rest⟩
          next => exact .inl listed
          next => exact .inr ⟨other, List.mem_cons_of_mem _ member, rest⟩
        · intro deleted
          rcases deleted with listed | ⟨other, member, rfl, unkept⟩
          next => exact .inl listed
          next =>
            rcases List.mem_cons.mp member with rfl | member
            next => exact .inl (marked.resolve_right unkept)
            next => exact .inr ⟨other, member, rfl, unkept⟩
      next =>
        rw [if_neg marked]
        simp only [PendingEdits.delete_deletes, List.map_cons, List.map_nil, List.mem_append,
          List.mem_cons, List.not_mem_nil, or_false, exists_eq_or_imp]
        have unkept : row.name ∉ keptNames := fun kept => marked (.inr kept)
        constructor
        · intro deleted
          rcases deleted with (listed | rfl) | found
          next => exact .inl listed
          next => exact .inr (.inl ⟨rfl, unkept⟩)
          next => exact .inr (.inr found)
        · intro deleted
          rcases deleted with listed | ⟨rfl, _⟩ | found
          next => exact .inl (.inl listed)
          next => exact .inl (.inr rfl)
          next => exact .inr found

theorem sweep_creates (owned : List (StoredPolicy T)) (keptNames : List String)
    (pending : PendingEdits T) : (sweep owned keptNames pending).creates = pending.creates := by
  induction owned generalizing pending with
  | nil => rfl
  | cons row rest ih =>
      have unfolded : sweep (row :: rest) keptNames pending = sweep rest keptNames
          (if row.id ∈ pending.deletes ∨ row.name ∈ keptNames then pending
            else pending.delete [row]) := rfl
      rw [unfolded, ih]
      split <;> rfl

theorem sweep_new (owned : List (StoredPolicy T)) (keptNames : List String)
    (pending : PendingEdits T) :
    sweep owned keptNames pending = .new ↔
      pending = .new ∧ ∀ row ∈ owned, row.name ∈ keptNames := by
  constructor
  · intro swept
    have none (id : String) : ¬ (id ∈ pending.deletes ∨
        ∃ row ∈ owned, row.id = id ∧ row.name ∉ keptNames) := by
      rw [← mem_sweep, swept]
      simp
    have deletes : pending.deletes = [] :=
      List.eq_nil_iff_forall_not_mem.mpr fun id listed => none id (.inl listed)
    have creates : pending.creates = [] := by
      rw [← sweep_creates owned keptNames pending, swept]
      rfl
    refine ⟨PendingEdits.eq_new deletes creates, fun row member => ?_⟩
    by_contra unkept
    exact none row.id (.inr ⟨row, member, rfl, unkept⟩)
  · intro ⟨same, kept⟩
    subst same
    apply PendingEdits.eq_new
    · rw [List.eq_nil_iff_forall_not_mem]
      intro id listed
      rcases (mem_sweep owned keptNames .new id).mp listed with listed | ⟨row, member, _, unkept⟩
      next => simp at listed
      next => exact unkept (kept row member)
    · rw [sweep_creates]
      rfl

theorem pendingToEdits_nil (pending : PendingEdits T) :
    pendingToEdits pending = [] ↔ pending = .new := by
  constructor
  · intro none
    have := List.append_eq_nil_iff.mp none
    exact PendingEdits.eq_new (List.map_eq_nil_iff.mp this.1) (List.map_eq_nil_iff.mp this.2)
  · intro same
    subst same
    rfl

theorem kept_pendingToEdits (pending : PendingEdits T) (rows : List (StoredPolicy T)) :
    kept (pendingToEdits pending) rows = rows.filter fun p => decide (p.id ∉ pending.deletes) := by
  apply List.filter_congr
  intro p _
  have removed : (pendingToEdits pending).any (Edit.removes p) = true ↔ p.id ∈ pending.deletes := by
    simp [pendingToEdits, Edit.removes, Function.comp_def]
  by_cases listed : p.id ∈ pending.deletes
  next => simp [removed.mpr listed, listed]
  next =>
    have spared : (pendingToEdits pending).any (Edit.removes p) = false := by
      rw [Bool.eq_false_iff]
      exact fun any => listed (removed.mp any)
    simp [spared, listed]

theorem creation_pendingToEdits (pending : PendingEdits T) :
    (pendingToEdits pending).filterMap Edit.creation =
      pending.creates.map fun c => (c.name, c.text) := by
  rw [pendingToEdits, List.filterMap_append, List.filterMap_map, List.filterMap_map]
  have deletes : pending.deletes.filterMap (Edit.creation (T := T) ∘ Edit.delete) = [] := by
    simp [Edit.creation, Function.comp_def]
  have creates : pending.creates.filterMap
      (Edit.creation ∘ fun c => Edit.create c.name c.text) =
        pending.creates.map fun c => (c.name, c.text) := by
    simp [Edit.creation, Function.comp_def]
  rw [deletes, creates, List.nil_append]

end Sweep

section Quiet

variable {T A : Type} (format : TextFormat T A) (ctx : PlanCtx T A) (gctx : GroupCtx T)

/-- Every override is served as it is, no owned row opposes one, and each owned row is the first
that serves one. -/
structure Quiet : Prop where
  served : ∀ ov ∈ gctx.group.overrides, ∀ want, wantOf ov.intent = some want →
    Served format ctx gctx .new ov want
  clear : ∀ ov ∈ gctx.group.overrides, deletedBy format ctx gctx ov = []
  seen : ∀ row ∈ gctx.owned, ∃ ov ∈ gctx.group.overrides, ∃ want, wantOf ov.intent = some want ∧
    ∃ first, ownedForResource format ctx gctx ov (effectOf want) = some first ∧
      first.name = row.name

variable {format ctx gctx}

theorem planOverrides_quiet {overrides : List AccessOverride}
    (served : ∀ ov ∈ overrides, ∀ want, wantOf ov.intent = some want →
      Served format ctx gctx .new ov want)
    (clear : ∀ ov ∈ overrides, deletedBy format ctx gctx ov = []) (keptNames : List String) :
    ∃ names, planOverrides format ctx gctx overrides .new keptNames = .ok (.new, names) := by
  induction overrides generalizing keptNames with
  | nil => exact ⟨keptNames, rfl⟩
  | cons ov rest ih =>
      have later := ih (fun other member => served other (List.mem_cons_of_mem _ member))
        fun other member => clear other (List.mem_cons_of_mem _ member)
      have none := clear ov (by simp)
      simp only [planOverrides]
      split
      next free =>
        have same : deleteOwnedForResource format gctx.owned ov.resource PendingEdits.new = .new := by
          have unconstrained : gctx.owned.filter (constrainsResource format ov.resource) = [] := by
            simpa only [deletedBy, free] using none
          rw [deleteOwnedForResource, unconstrained, PendingEdits.delete_nil]
        rw [same]
        exact later _
      next want wanted =>
        rw [planOverride_served wanted (served ov (by simp) want wanted) none]
        exact later _

theorem planOverrides_new {overrides : List AccessOverride} {keptNames : List String}
    (planned : planOverrides format ctx gctx overrides .new [] = .ok (.new, keptNames)) :
    (∀ ov ∈ overrides, ∀ want, wantOf ov.intent = some want →
        Served format ctx gctx .new ov want) ∧
      ∀ ov ∈ overrides, deletedBy format ctx gctx ov = [] := by
  have deletes := planOverrides_deletes planned
  have clear : ∀ ov ∈ overrides, deletedBy format ctx gctx ov = [] := by
    have : overrides.flatMap (deletedBy format ctx gctx) = [] := by simpa using deletes
    simpa using this
  refine ⟨fun ov member want wanted => ?_, clear⟩
  obtain ⟨before, after, split⟩ := List.append_of_mem member
  obtain ⟨edits, turn⟩ := exists_turn planned split wanted
  obtain ⟨names, first⟩ := turn.state
  -- Nothing was done before the turn, and a turn that does not find its override served deletes
  -- or emits a row.
  have untouched : edits = .new := by
    apply PendingEdits.eq_new
    · rw [planOverrides_deletes first]
      have none : before.flatMap (deletedBy format ctx gctx) = [] := by
        simp only [List.flatMap_eq_nil_iff]
        intro other listed
        exact clear other (by simp [split, listed])
      simp [none]
    · rw [split, planOverrides_append, first] at planned
      have grown := planOverrides_creates planned
      simpa using grown
  subst untouched
  by_contra unserved
  have needs : Needs format ctx gctx .new ov want :=
    ⟨unserved, by rwa [clear ov member, PendingEdits.delete_nil]⟩
  obtain ⟨back, creates⟩ := turn.creates needs planned
  simp at creates

theorem pendingFor_quiet [DecidableEq T] (shape : canonicalShape gctx.group = .perOverride) :
    pendingFor format ctx gctx = .ok .new ↔ Quiet format ctx gctx := by
  unfold pendingFor
  simp only [shape]
  constructor
  · intro planned
    split at planned
    next => cases planned
    next pending keptNames run =>
      obtain ⟨rfl, kept⟩ := (sweep_new _ _ _).mp (Except.ok.inj planned)
      obtain ⟨served, clear⟩ := planOverrides_new run
      refine ⟨served, clear, fun row member => ?_⟩
      obtain ⟨before, ov, want, edits, turn, reason⟩ := (mem_keptNames run _).mp (kept row member)
      rcases reason with ⟨_, first, found, same⟩ | ⟨needs, _⟩
      next => exact ⟨ov, turn.mem, want, turn.wanted, first, found, same⟩
      next =>
        obtain ⟨back, creates⟩ := turn.creates needs run
        simp at creates
  · intro quiet
    obtain ⟨keptNames, run⟩ := planOverrides_quiet quiet.served quiet.clear []
    rw [run]
    simp only [Except.ok.injEq]
    refine (sweep_new _ _ _).mpr ⟨rfl, fun row member => ?_⟩
    obtain ⟨ov, listed, want, wanted, first, found, same⟩ := quiet.seen row member
    obtain ⟨before, after, split⟩ := List.append_of_mem listed
    obtain ⟨edits, turn⟩ := exists_turn run split wanted
    refine (mem_keptNames run _).mpr ⟨before, ov, want, edits, turn, .inl ⟨?_, first, found, same⟩⟩
    have untouched : ∃ names,
        planOverrides format ctx gctx before .new [] = .ok (.new, names) :=
      planOverrides_quiet (fun other member => quiet.served other (by simp [split, member]))
        (fun other member => quiet.clear other (by simp [split, member])) []
    obtain ⟨names, first⟩ := untouched
    rw [turn.state_eq first]
    exact quiet.served ov listed want wanted

end Quiet

end Frona.Policy
