import Frona.Machine.Lists
import Frona.Policy.Plan
import Mathlib.Data.List.Induction

set_option autoImplicit false

namespace Frona.Policy

open Cedar

section Pending

variable {T : Type}

@[simp] theorem PendingEdits.delete_nil (pending : PendingEdits T) : pending.delete [] = pending := by
  simp [PendingEdits.delete]

@[simp] theorem PendingEdits.delete_deletes (pending : PendingEdits T)
    (rows : List (StoredPolicy T)) :
    (pending.delete rows).deletes = pending.deletes ++ rows.map (·.id) := rfl

@[simp] theorem PendingEdits.delete_creates (pending : PendingEdits T)
    (rows : List (StoredPolicy T)) : (pending.delete rows).creates = pending.creates := rfl

@[simp] theorem PendingEdits.create_deletes (pending : PendingEdits T) (policy : NewPolicy T) :
    (pending.create policy).deletes = pending.deletes := rfl

@[simp] theorem PendingEdits.create_creates (pending : PendingEdits T) (policy : NewPolicy T) :
    (pending.create policy).creates = pending.creates ++ [policy] := rfl

@[simp] theorem PendingEdits.new_deletes : (PendingEdits.new : PendingEdits T).deletes = [] := rfl

@[simp] theorem PendingEdits.new_creates : (PendingEdits.new : PendingEdits T).creates = [] := rfl

theorem PendingEdits.eq_new {pending : PendingEdits T} (deletes : pending.deletes = [])
    (creates : pending.creates = []) : pending = .new := by
  cases pending
  simp_all [PendingEdits.new]

end Pending

section Override

variable {T A : Type} (format : TextFormat T A) (ctx : PlanCtx T A) (gctx : GroupCtx T)

def ownedForResource (ov : AccessOverride) (effect : Effect) : Option (StoredPolicy T) :=
  gctx.owned.find? (coversOverride format ctx gctx ov effect)

def deletedBy (ov : AccessOverride) : List (StoredPolicy T) :=
  match wantOf ov.intent with
  | none => gctx.owned.filter (constrainsResource format ov.resource)
  | some want => (ownedForResource format ctx gctx ov (effectOf want).flip).toList

def creationFor (ov : AccessOverride) (want : Decision) : NewPolicy T :=
  let name := perResourcePolicyName format gctx.group.principal gctx.group.action ov.resource
    (effectOf want)
  ⟨name, buildPerResourceText format name gctx.group.principal gctx.group.action ov.resource
    (effectOf want)⟩

def Served (pending : PendingEdits T) (ov : AccessOverride) (want : Decision) : Prop :=
  ∃ uid, ov.resource.toCedarUid format = some uid ∧
    evalNow format ctx gctx pending uid = .ok want

def Needs (pending : PendingEdits T) (ov : AccessOverride) (want : Decision) : Prop :=
  ¬ Served format ctx gctx pending ov want ∧
    ¬ Served format ctx gctx (pending.delete (deletedBy format ctx gctx ov)) ov want

inductive Taken (ov : AccessOverride) (pending : PendingEdits T) (keptNames : List String) :
    PendingEdits T → List String → Prop where
  | cleared (free : wantOf ov.intent = none) :
      Taken ov pending keptNames (pending.delete (deletedBy format ctx gctx ov)) keptNames
  | served {want : Decision} (wanted : wantOf ov.intent = some want)
      (before : Served format ctx gctx pending ov want) :
      Taken ov pending keptNames (pending.delete (deletedBy format ctx gctx ov))
        (keptNames ++
          (ownedForResource format ctx gctx ov (effectOf want)).toList.map (·.name))
  | freed {want : Decision} (wanted : wantOf ov.intent = some want)
      (before : ¬ Served format ctx gctx pending ov want)
      (after : Served format ctx gctx (pending.delete (deletedBy format ctx gctx ov)) ov want) :
      Taken ov pending keptNames (pending.delete (deletedBy format ctx gctx ov)) keptNames
  | emitted {want : Decision} (wanted : wantOf ov.intent = some want)
      (needs : Needs format ctx gctx pending ov want) :
      Taken ov pending keptNames
        ((pending.delete (deletedBy format ctx gctx ov)).create (creationFor format gctx ov want))
        (keptNames ++ [(creationFor format gctx ov want).name])

variable {format ctx gctx}

theorem served_iff {pending : PendingEdits T} {ov : AccessOverride} {want : Decision}
    {uid : EntityUid} (resource : ov.resource.toCedarUid format = some uid) :
    Served format ctx gctx pending ov want ↔ evalNow format ctx gctx pending uid = .ok want := by
  simp [Served, resource]

theorem emitOverride_ok {ov : AccessOverride} {want : Decision} {uid : EntityUid}
    {pending pending' : PendingEdits T} {keptNames keptNames' : List String}
    (emitted : emitOverride format ctx gctx ov want uid pending keptNames =
      .ok (pending', keptNames')) :
    pending' = pending.create (creationFor format gctx ov want) ∧
      keptNames' = keptNames ++ [(creationFor format gctx ov want).name] := by
  unfold emitOverride at emitted
  dsimp only at emitted
  split at emitted
  next => cases emitted
  next after evaluated =>
    split at emitted
    next =>
      cases emitted
      exact ⟨rfl, rfl⟩
    next => cases emitted

theorem planOverride_taken {ov : AccessOverride} {want : Decision}
    (wanted : wantOf ov.intent = some want) {pending pending' : PendingEdits T}
    {keptNames keptNames' : List String}
    (planned : planOverride format ctx gctx ov want pending keptNames =
      .ok (pending', keptNames')) :
    Taken format ctx gctx ov pending keptNames pending' keptNames' := by
  have deleted : deletedBy format ctx gctx ov =
      (ownedForResource format ctx gctx ov (effectOf want).flip).toList := by
    simp [deletedBy, wanted]
  unfold planOverride at planned
  split at planned
  next => cases planned
  next uid resource =>
    have served (edits : PendingEdits T) : Served format ctx gctx edits ov want ↔
        evalNow format ctx gctx edits uid = .ok want := served_iff resource
    dsimp only at planned
    split at planned
    next => cases planned
    next current evaluated =>
      split at planned
      next same =>
        cases planned
        have turn : Taken format ctx gctx ov pending keptNames _ _ :=
          .served wanted ((served pending).mpr (by rw [evaluated, same]))
        rwa [deleted] at turn
      next different =>
        have unserved : ¬ Served format ctx gctx pending ov want := by
          rw [served, evaluated]
          simpa using different
        split at planned
        next absent =>
          obtain ⟨rfl, rfl⟩ := emitOverride_ok planned
          have none : deletedBy format ctx gctx ov = [] := by
            rw [deleted]
            simp [ownedForResource, absent]
          have turn : Taken format ctx gctx ov pending keptNames _ _ :=
            .emitted wanted ⟨unserved, by rwa [none, PendingEdits.delete_nil]⟩
          rwa [none, PendingEdits.delete_nil] at turn
        next row found =>
          have one : deletedBy format ctx gctx ov = [row] := by
            rw [deleted]
            simp [ownedForResource, found]
          split at planned
          next => cases planned
          next after cleared =>
            split at planned
            next same =>
              cases planned
              have turn : Taken format ctx gctx ov pending keptNames _ _ :=
                .freed wanted unserved (by rw [one, served, cleared, same])
              rwa [one] at turn
            next still =>
              obtain ⟨rfl, rfl⟩ := emitOverride_ok planned
              have turn : Taken format ctx gctx ov pending keptNames _ _ :=
                .emitted wanted ⟨unserved, by rw [one, served, cleared]; simpa using still⟩
              rwa [one] at turn

theorem planOverrides_cons {ov : AccessOverride} {rest : List AccessOverride}
    {pending : PendingEdits T} {keptNames : List String} {result : PendingEdits T × List String}
    (planned : planOverrides format ctx gctx (ov :: rest) pending keptNames = .ok result) :
    ∃ pending' keptNames', Taken format ctx gctx ov pending keptNames pending' keptNames' ∧
      planOverrides format ctx gctx rest pending' keptNames' = .ok result := by
  unfold planOverrides at planned
  split at planned
  next free =>
    refine ⟨_, _, .cleared free, ?_⟩
    rw [← planned]
    simp [deletedBy, free, deleteOwnedForResource]
  next want wanted =>
    split at planned
    next => cases planned
    next pending' keptNames' taken =>
      exact ⟨pending', keptNames', planOverride_taken wanted taken, planned⟩

theorem planOverride_served {ov : AccessOverride} {want : Decision} {pending : PendingEdits T}
    (wanted : wantOf ov.intent = some want) (served : Served format ctx gctx pending ov want)
    (clear : deletedBy format ctx gctx ov = []) (keptNames : List String) :
    planOverride format ctx gctx ov want pending keptNames =
      .ok (pending, keptNames ++
        (ownedForResource format ctx gctx ov (effectOf want)).toList.map (·.name)) := by
  obtain ⟨uid, resource, evaluated⟩ := served
  have none : gctx.owned.find? (coversOverride format ctx gctx ov (effectOf want).flip) = none := by
    simpa [deletedBy, wanted, ownedForResource] using clear
  simp [planOverride, resource, evaluated, none, ownedForResource]

end Override

section Run

variable {T A : Type} {format : TextFormat T A} {ctx : PlanCtx T A} {gctx : GroupCtx T}

theorem planOverrides_append (left right : List AccessOverride) (pending : PendingEdits T)
    (keptNames : List String) :
    planOverrides format ctx gctx (left ++ right) pending keptNames =
      match planOverrides format ctx gctx left pending keptNames with
      | .error e => .error e
      | .ok (pending, keptNames) => planOverrides format ctx gctx right pending keptNames := by
  induction left generalizing pending keptNames with
  | nil => rfl
  | cons ov rest ih =>
      simp only [List.cons_append, planOverrides]
      split
      next => exact ih _ _
      next =>
        split
        next => rfl
        next => exact ih _ _

theorem planOverrides_snoc {before : List AccessOverride} {ov : AccessOverride}
    {result : PendingEdits T × List String}
    (planned : planOverrides format ctx gctx (before ++ [ov]) .new [] = .ok result) :
    ∃ pending keptNames, planOverrides format ctx gctx before .new [] = .ok (pending, keptNames) ∧
      Taken format ctx gctx ov pending keptNames result.1 result.2 := by
  rw [planOverrides_append] at planned
  split at planned
  next => cases planned
  next pending keptNames first =>
    obtain ⟨pending', keptNames', taken, rest⟩ := planOverrides_cons planned
    cases rest
    exact ⟨pending, keptNames, first, taken⟩

theorem planOverrides_deletes {overrides : List AccessOverride} {pending : PendingEdits T}
    {keptNames : List String} {result : PendingEdits T × List String}
    (planned : planOverrides format ctx gctx overrides pending keptNames = .ok result) :
    result.1.deletes =
      pending.deletes ++ (overrides.flatMap (deletedBy format ctx gctx)).map (·.id) := by
  induction overrides generalizing pending keptNames with
  | nil =>
      cases planned
      simp
  | cons ov rest ih =>
      obtain ⟨pending', keptNames', taken, later⟩ := planOverrides_cons planned
      have deleted : pending'.deletes =
          pending.deletes ++ (deletedBy format ctx gctx ov).map (·.id) := by
        cases taken <;> rfl
      rw [ih later, deleted, List.flatMap_cons, List.map_append, List.append_assoc]

theorem planOverrides_creates {overrides : List AccessOverride} {pending : PendingEdits T}
    {keptNames : List String} {result : PendingEdits T × List String}
    (planned : planOverrides format ctx gctx overrides pending keptNames = .ok result) :
    pending.creates <+: result.1.creates := by
  induction overrides generalizing pending keptNames with
  | nil =>
      cases planned
      exact List.prefix_refl _
  | cons ov rest ih =>
      obtain ⟨pending', keptNames', taken, later⟩ := planOverrides_cons planned
      have grown : pending.creates <+: pending'.creates := by
        cases taken with
        | emitted wanted needs => exact List.prefix_append _ _
        | _ => exact List.prefix_refl _
      exact grown.trans (ih later)

variable (format ctx gctx) in
structure Turn (overrides before : List AccessOverride) (ov : AccessOverride) (want : Decision)
    (pending : PendingEdits T) : Prop where
  position : ∃ after, overrides = before ++ ov :: after
  wanted : wantOf ov.intent = some want
  state : ∃ keptNames, planOverrides format ctx gctx before .new [] = .ok (pending, keptNames)

theorem Turn.mem {overrides before : List AccessOverride} {ov : AccessOverride} {want : Decision}
    {pending : PendingEdits T}
    (turn : Turn format ctx gctx overrides before ov want pending) : ov ∈ overrides := by
  obtain ⟨after, rfl⟩ := turn.position
  simp

theorem Turn.snoc {overrides before : List AccessOverride} {ov : AccessOverride}
    {want : Decision} {pending : PendingEdits T}
    (turn : Turn format ctx gctx overrides before ov want pending) (other : AccessOverride) :
    Turn format ctx gctx (overrides ++ [other]) before ov want pending := by
  obtain ⟨⟨after, rfl⟩, wanted, state⟩ := turn
  exact ⟨⟨after ++ [other], by simp⟩, wanted, state⟩

theorem exists_turn {overrides before after : List AccessOverride} {ov : AccessOverride}
    {want : Decision} {result : PendingEdits T × List String}
    (planned : planOverrides format ctx gctx overrides .new [] = .ok result)
    (split : overrides = before ++ ov :: after) (wanted : wantOf ov.intent = some want) :
    ∃ pending, Turn format ctx gctx overrides before ov want pending := by
  rw [split, planOverrides_append] at planned
  split at planned
  next => cases planned
  next pending keptNames first => exact ⟨pending, ⟨after, split⟩, wanted, keptNames, first⟩

theorem Turn.of_snoc {overrides before : List AccessOverride} {ov other : AccessOverride}
    {want : Decision} {pending : PendingEdits T}
    (turn : Turn format ctx gctx (overrides ++ [other]) before ov want pending) :
    Turn format ctx gctx overrides before ov want pending ∨ before = overrides ∧ ov = other := by
  obtain ⟨⟨after, split⟩, wanted, state⟩ := turn
  rcases Machine.split_concat split with ⟨rfl, rfl, -⟩ | ⟨front, -, earlier⟩
  next => exact .inr ⟨rfl, rfl⟩
  next => exact .inl ⟨⟨front, earlier⟩, wanted, state⟩

theorem Turn.state_eq {overrides before : List AccessOverride} {ov : AccessOverride}
    {want : Decision} {pending : PendingEdits T}
    (turn : Turn format ctx gctx overrides before ov want pending)
    {result : PendingEdits T × List String}
    (planned : planOverrides format ctx gctx before .new [] = .ok result) :
    pending = result.1 := by
  obtain ⟨keptNames, first⟩ := turn.state
  rw [first] at planned
  cases planned
  rfl

theorem mem_keptNames {overrides : List AccessOverride} {pending : PendingEdits T}
    {keptNames : List String}
    (planned : planOverrides format ctx gctx overrides .new [] = .ok (pending, keptNames))
    (name : String) :
    name ∈ keptNames ↔
      ∃ before ov want edits, Turn format ctx gctx overrides before ov want edits ∧
        ((Served format ctx gctx edits ov want ∧
            ∃ row, ownedForResource format ctx gctx ov (effectOf want) = some row ∧
              row.name = name) ∨
          (Needs format ctx gctx edits ov want ∧ (creationFor format gctx ov want).name = name)) := by
  induction overrides using List.reverseRecOn generalizing pending keptNames with
  | nil =>
      cases planned
      constructor
      · intro member
        simp at member
      · intro ⟨before, ov, want, edits, turn, _⟩
        have := turn.mem
        simp at this
  | append_singleton rest last ih =>
      obtain ⟨edits, names, first, taken⟩ := planOverrides_snoc planned
      have earlier := ih first
      have here {want : Decision} (wanted : wantOf last.intent = some want) :
          Turn format ctx gctx (rest ++ [last]) rest last want edits :=
        ⟨⟨[], rfl⟩, wanted, names, first⟩
      constructor
      · intro member
        have cases : name ∈ names ∨ ∃ want, wantOf last.intent = some want ∧
            ((Served format ctx gctx edits last want ∧
              ∃ row, ownedForResource format ctx gctx last (effectOf want) = some row ∧
                row.name = name) ∨
            (Needs format ctx gctx edits last want ∧
              (creationFor format gctx last want).name = name)) := by
          cases taken with
          | cleared => exact .inl member
          | freed => exact .inl member
          | served wanted served =>
              rcases List.mem_append.mp member with member | member
              next => exact .inl member
              next => exact .inr ⟨_, wanted, .inl ⟨served, by simpa using member⟩⟩
          | emitted wanted needs =>
              rcases List.mem_append.mp member with member | member
              next => exact .inl member
              next => exact .inr ⟨_, wanted, .inr ⟨needs, (List.mem_singleton.mp member).symm⟩⟩
        rcases cases with member | ⟨want, wanted, kept⟩
        next =>
          obtain ⟨before, ov, want, state, turn, kept⟩ := earlier.mp member
          exact ⟨before, ov, want, state, turn.snoc last, kept⟩
        next => exact ⟨rest, last, want, edits, here wanted, kept⟩
      · intro ⟨before, ov, want, state, turn, kept⟩
        rcases turn.of_snoc with turn | ⟨rfl, rfl⟩
        next =>
          have member := earlier.mpr ⟨before, ov, want, state, turn, kept⟩
          cases taken with
          | cleared => exact member
          | freed => exact member
          | served => exact List.mem_append_left _ member
          | emitted => exact List.mem_append_left _ member
        next =>
          obtain rfl := turn.state_eq first
          have wanted' := turn.wanted
          rcases kept with ⟨served, row, found, rfl⟩ | ⟨needs, rfl⟩
          next =>
            cases taken with
            | cleared free => simp [free] at wanted'
            | freed wanted unserved =>
                obtain rfl := Option.some.inj (wanted.symm.trans wanted')
                exact absurd served unserved
            | served wanted =>
                obtain rfl := Option.some.inj (wanted.symm.trans wanted')
                exact List.mem_append_right _ (by simp [found])
            | emitted wanted needs =>
                obtain rfl := Option.some.inj (wanted.symm.trans wanted')
                exact absurd served needs.1
          next =>
            cases taken with
            | cleared free => simp [free] at wanted'
            | freed wanted unserved served =>
                obtain rfl := Option.some.inj (wanted.symm.trans wanted')
                exact absurd served needs.2
            | served wanted served =>
                obtain rfl := Option.some.inj (wanted.symm.trans wanted')
                exact absurd served needs.1
            | emitted wanted =>
                obtain rfl := Option.some.inj (wanted.symm.trans wanted')
                exact List.mem_append_right _ (by simp)

theorem creates_turn {overrides : List AccessOverride} {pending : PendingEdits T}
    {keptNames : List String}
    (planned : planOverrides format ctx gctx overrides .new [] = .ok (pending, keptNames))
    {front back : List (NewPolicy T)} {policy : NewPolicy T}
    (split : pending.creates = front ++ policy :: back) :
    ∃ before ov want edits, Turn format ctx gctx overrides before ov want edits ∧
      Needs format ctx gctx edits ov want ∧ edits.creates = front ∧
        policy = creationFor format gctx ov want := by
  induction overrides using List.reverseRecOn generalizing pending keptNames back with
  | nil =>
      cases planned
      simp at split
  | append_singleton rest last ih =>
      obtain ⟨edits, names, first, taken⟩ := planOverrides_snoc planned
      have earlier {back : List (NewPolicy T)} (split : edits.creates = front ++ policy :: back) :
          ∃ before ov want edits, Turn format ctx gctx (rest ++ [last]) before ov want edits ∧
            Needs format ctx gctx edits ov want ∧ edits.creates = front ∧
              policy = creationFor format gctx ov want := by
        obtain ⟨before, ov, want, state, turn, found⟩ := ih first split
        exact ⟨before, ov, want, state, turn.snoc last, found⟩
      cases taken with
      | cleared => exact earlier split
      | served => exact earlier split
      | freed => exact earlier split
      | @emitted want wanted needs =>
          simp only [PendingEdits.delete_creates] at split
          rcases Machine.split_concat split with ⟨same, one, -⟩ | ⟨others, -, before⟩
          next =>
            exact ⟨rest, last, want, edits, ⟨⟨[], rfl⟩, wanted, names, first⟩, needs, same.symm, one⟩
          next => exact earlier before

theorem Turn.creates {overrides before : List AccessOverride} {ov : AccessOverride}
    {want : Decision} {edits : PendingEdits T}
    (turn : Turn format ctx gctx overrides before ov want edits)
    (needs : Needs format ctx gctx edits ov want) {result : PendingEdits T × List String}
    (planned : planOverrides format ctx gctx overrides .new [] = .ok result) :
    ∃ back, result.1.creates = edits.creates ++ creationFor format gctx ov want :: back := by
  obtain ⟨after, rfl⟩ := turn.position
  obtain ⟨names, first⟩ := turn.state
  rw [planOverrides_append, first] at planned
  obtain ⟨edits', names', taken, later⟩ := planOverrides_cons planned
  have emitted : edits'.creates = edits.creates ++ [creationFor format gctx ov want] := by
    have wanted' := turn.wanted
    cases taken with
    | cleared free => simp [free] at wanted'
    | freed wanted unserved served =>
        obtain rfl := Option.some.inj (wanted.symm.trans wanted')
        exact absurd served needs.2
    | served wanted served =>
        obtain rfl := Option.some.inj (wanted.symm.trans wanted')
        exact absurd served needs.1
    | emitted wanted =>
        obtain rfl := Option.some.inj (wanted.symm.trans wanted')
        rfl
  obtain ⟨back, whole⟩ := planOverrides_creates later
  exact ⟨back, by rw [← whole, emitted]; simp⟩

end Run

end Frona.Policy
