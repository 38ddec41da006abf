import Frona.Policy.Replan

set_option autoImplicit false

namespace Frona.Policy

open Cedar

section Created

variable {T A : Type} {format : TextFormat T A} {ctx : PlanCtx T A} {gctx : GroupCtx T}

theorem EntityRef.isUid_uid (r s : EntityRef) : r.isUid s.uid = decide (r = s) := by
  have apart : s.cedarType = r.cedarType ∧ s.id = r.id ↔ r = s := by
    constructor
    · intro ⟨type, id⟩
      cases r <;> cases s <;>
        simp_all [EntityRef.cedarType, EntityRef.id, entityTypeName]
    · intro same
      simp [same]
  rw [EntityRef.isUid, EntityRef.uid, ← Bool.decide_and]
  exact decide_eq_decide.mpr apart

theorem parseFirst_print (policy : Cedar.Policy A) :
    parseFirst format (format.print policy) = some policy := by
  simp [parseFirst, format.parse_print]

theorem effectOf_inj {want want' : Decision} (same : effectOf want = effectOf want') :
    want = want' := by
  cases want <;> cases want' <;> simp_all [effectOf]

theorem effectOf_flip {want want' : Decision} :
    effectOf want = (effectOf want').flip ↔ want ≠ want' := by
  cases want <;> cases want' <;> simp [effectOf, Effect.flip]

variable (ctx) in
def Under (ov : AccessOverride) (resource : EntityRef) : Prop :=
  ov.resource = resource ∨ ctx.hierarchy.parentOf ov.resource = some resource

instance (ov : AccessOverride) (resource : EntityRef) : Decidable (Under ctx ov resource) :=
  inferInstanceAs (Decidable (_ ∨ _))

variable {row : StoredPolicy T} {ov other : AccessOverride} {want : Decision}

theorem parseFirst_creation (text : row.policyText = (creationFor format gctx ov want).text) :
    parseFirst format row.policyText =
      some (perResourcePolicy (creationFor format gctx ov want).name gctx.group.principal
        gctx.group.action ov.resource (effectOf want)) := by
  rw [text]
  exact parseFirst_print _

theorem coversOverride_creation (text : row.policyText = (creationFor format gctx ov want).text)
    (effect : Effect) :
    coversOverride format ctx gctx other effect row = true ↔
      effectOf want = effect ∧ Under ctx other ov.resource := by
  have parent : ((ctx.hierarchy.parentOf other.resource).any
      fun ancestor => decide (ancestor = ov.resource)) = true ↔
        ctx.hierarchy.parentOf other.resource = some ov.resource := by
    cases ctx.hierarchy.parentOf other.resource <;> simp
  unfold coversOverride
  simp only [parseFirst_creation text]
  by_cases group : usesInConstraint ov.resource = true <;>
    simp [perResourcePolicy, groupPolicy, group, hasNoConditions, conditionKind,
      principalConstraintMatches, actionConstraintMatches, actionEntityUid, entityUid,
      EntityRef.isUid_uid, Under, parent]

theorem constrainsResource_creation
    (text : row.policyText = (creationFor format gctx ov want).text) (resource : EntityRef) :
    constrainsResource format resource row = true ↔ resource = ov.resource := by
  unfold constrainsResource
  simp only [parseFirst_creation text]
  by_cases group : usesInConstraint ov.resource = true <;>
    simp [perResourcePolicy, groupPolicy, group, hasNoConditions, conditionKind,
      EntityRef.isUid_uid]

theorem ownsRow_creation (text : row.policyText = (creationFor format gctx ov want).text)
    (user : row.userId.isSome = true) :
    ownsRow format gctx.group.principal gctx.group.action row = true := by
  have owner : row.userId.isNone = false := by simpa using user
  unfold ownsRow
  simp only [parseFirst_creation text, owner]
  by_cases group : usesInConstraint ov.resource = true <;>
    simp [isOwned, perResourcePolicy, groupPolicy, group, hasNoConditions, conditionKind,
      principalConstraintMatches, actionConstraintMatches, actionEntityUid, entityUid,
      EntityRef.isUid_uid]

end Created

section Rows

variable {T A : Type} (format : TextFormat T A) (ctx : PlanCtx T A) (gctx : GroupCtx T)

/-- The rows that a plan for the user is made from: his own and those of the system. The table
keeps its ids apart, and the names of a user's rows. -/
structure LiveOf (userId : String) (rows : List (StoredPolicy T)) : Prop where
  users : ∀ p ∈ rows, p.userId = none ∨ p.userId = some userId
  ids : (rows.map (·.id)).Nodup
  names : ∀ p ∈ rows, ∀ q ∈ rows, p.userId = some userId → q.userId = some userId →
    p.name = q.name → p = q

theorem LiveOf.id_inj {userId : String} {rows : List (StoredPolicy T)} (live : LiveOf userId rows)
    {p q : StoredPolicy T} (left : p ∈ rows) (right : q ∈ rows) (same : p.id = q.id) : p = q :=
  List.inj_on_of_nodup_map live.ids left right same

structure Stays (row : StoredPolicy T) : Prop where
  owned : row ∈ gctx.owned
  serves : ∃ before ov want edits,
    Turn format ctx gctx gctx.group.overrides before ov want edits ∧
      Served format ctx gctx edits ov want ∧
        ownedForResource format ctx gctx ov (effectOf want) = some row
  spared : ∀ ov ∈ gctx.group.overrides, row ∉ deletedBy format ctx gctx ov

def survivors (pending : PendingEdits T) (keptNames : List String) : List (StoredPolicy T) :=
  gctx.owned.filter fun p => decide (p.id ∉ (sweep gctx.owned keptNames pending).deletes)

structure Rerun (userId : String) (created : List (StoredPolicy T)) (pending : PendingEdits T)
    (keptNames : List String) : Prop where
  run : planOverrides format ctx gctx gctx.group.overrides .new [] = .ok (pending, keptNames)
  owned : gctx.owned = ownedRows format gctx.group.principal gctx.group.action ctx.live
  creates : created.map (fun p => (p.name, p.policyText)) =
    pending.creates.map fun c => (c.name, c.text)
  fresh : ∀ p ∈ created, p.userId = some userId ∧ p.enabled = true
  before : LiveOf userId ctx.live
  after : LiveOf userId
    (kept (pendingToEdits (sweep gctx.owned keptNames pending)) ctx.live ++ created)

variable {format ctx gctx} {userId : String} {created : List (StoredPolicy T)}
  {pending : PendingEdits T} {keptNames : List String}
  (rerun : Rerun format ctx gctx userId created pending keptNames)
include rerun

theorem Rerun.owned_live {row : StoredPolicy T} (member : row ∈ gctx.owned) :
    row ∈ ctx.live ∧ row.userId = some userId := by
  rw [rerun.owned] at member
  obtain ⟨listed, kind⟩ := List.mem_filter.mp member
  simp only [Bool.and_eq_true] at kind
  refine ⟨listed, (rerun.before.users row listed).resolve_left fun none => ?_⟩
  simp [none] at kind

theorem Rerun.survivors_live {row : StoredPolicy T}
    (member : row ∈ survivors gctx pending keptNames) :
    row ∈ kept (pendingToEdits (sweep gctx.owned keptNames pending)) ctx.live := by
  obtain ⟨owned, undeleted⟩ := List.mem_filter.mp member
  rw [kept_pendingToEdits]
  exact List.mem_filter.mpr ⟨(rerun.owned_live owned).1, undeleted⟩

theorem Rerun.disjoint {row : StoredPolicy T} (member : row ∈ survivors gctx pending keptNames) :
    row ∉ created := by
  intro new
  have ids := rerun.after.ids
  rw [List.map_append] at ids
  exact List.disjoint_of_nodup_append ids
    (List.mem_map.mpr ⟨row, rerun.survivors_live member, rfl⟩) (List.mem_map.mpr ⟨row, new, rfl⟩)

theorem Rerun.created_split {front back : List (NewPolicy T)} {policy : NewPolicy T}
    (split : pending.creates = front ++ policy :: back) :
    ∃ created₀ row created₁, created = created₀ ++ row :: created₁ ∧
      created₀.map (fun p => (p.name, p.policyText)) = front.map (fun c => (c.name, c.text)) ∧
      row.name = policy.name ∧ row.policyText = policy.text := by
  have creates := rerun.creates
  rw [split, List.map_append, List.map_cons] at creates
  obtain ⟨created₀, rest, rfl, head, tail⟩ := List.map_eq_append_iff.mp creates
  obtain ⟨row, created₁, rfl, same, _⟩ := List.map_eq_cons_iff.mp tail
  simp only [Prod.mk.injEq] at same
  exact ⟨created₀, row, created₁, rfl, head, same.1, same.2⟩

theorem Rerun.creates_split {created₀ created₁ : List (StoredPolicy T)} {row : StoredPolicy T}
    (split : created = created₀ ++ row :: created₁) :
    ∃ front policy back, pending.creates = front ++ policy :: back ∧
      created₀.map (fun p => (p.name, p.policyText)) = front.map (fun c => (c.name, c.text)) ∧
      row.name = policy.name ∧ row.policyText = policy.text := by
  have creates := rerun.creates.symm
  rw [split, List.map_append, List.map_cons] at creates
  obtain ⟨front, rest, whole, head, tail⟩ := List.map_eq_append_iff.mp creates
  obtain ⟨policy, back, rfl, same, _⟩ := List.map_eq_cons_iff.mp tail
  simp only [Prod.mk.injEq] at same
  exact ⟨front, policy, back, whole, head.symm, same.1.symm, same.2.symm⟩

theorem Rerun.created_needs {row : StoredPolicy T} (member : row ∈ created) :
    ∃ before ov want edits, Turn format ctx gctx gctx.group.overrides before ov want edits ∧
      Needs format ctx gctx edits ov want ∧
      row.policyText = (creationFor format gctx ov want).text := by
  obtain ⟨created₀, created₁, split⟩ := List.append_of_mem member
  obtain ⟨front, policy, back, creates, _, _, text⟩ := rerun.creates_split split
  obtain ⟨before, ov, want, edits, turn, needs, _, rfl⟩ := creates_turn rerun.run creates
  exact ⟨before, ov, want, edits, turn, needs, text⟩

theorem Rerun.needs_created {before : List AccessOverride} {ov : AccessOverride}
    {want : Decision} {edits : PendingEdits T}
    (turn : Turn format ctx gctx gctx.group.overrides before ov want edits)
    (needs : Needs format ctx gctx edits ov want) :
    ∃ row ∈ created, row.name = (creationFor format gctx ov want).name ∧
      row.policyText = (creationFor format gctx ov want).text := by
  obtain ⟨back, creates⟩ := turn.creates needs rerun.run
  obtain ⟨created₀, row, created₁, rfl, _, name, text⟩ := rerun.created_split creates
  exact ⟨row, by simp, name, text⟩

theorem Rerun.ownedRows_next :
    ownedRows format gctx.group.principal gctx.group.action
        (kept (pendingToEdits (sweep gctx.owned keptNames pending)) ctx.live ++ created) =
      survivors gctx pending keptNames ++ created := by
  unfold ownedRows
  rw [List.filter_append]
  congr 1
  · rw [kept_pendingToEdits, List.filter_comm, survivors]
    congr 1
    exact rerun.owned.symm
  · rw [List.filter_eq_self]
    intro row member
    obtain ⟨user, enabled⟩ := rerun.fresh row member
    obtain ⟨_, ov, want, _, _, _, text⟩ := rerun.created_needs member
    have owned := ownsRow_creation (A := A) text (by rw [user]; rfl)
    simp [user, enabled, owned]

theorem Rerun.mem_survivors (row : StoredPolicy T) :
    row ∈ survivors gctx pending keptNames ↔ Stays format ctx gctx row := by
  have deletes := planOverrides_deletes rerun.run
  constructor
  · intro member
    obtain ⟨owned, undeleted⟩ := List.mem_filter.mp member
    simp only [decide_eq_true_eq, mem_sweep, not_or, not_exists, not_and, not_not] at undeleted
    obtain ⟨undeleted, named⟩ := undeleted
    refine ⟨owned, ?_, fun ov listed deleted => ?_⟩
    · obtain ⟨before, ov, want, edits, turn, reason⟩ :=
        (mem_keptNames rerun.run row.name).mp (named row owned rfl)
      rcases reason with ⟨served, first, found, same⟩ | ⟨needs, same⟩
      next =>
        have listed : first ∈ gctx.owned := List.mem_of_find?_eq_some found
        obtain ⟨firstLive, firstUser⟩ := rerun.owned_live listed
        obtain ⟨rowLive, rowUser⟩ := rerun.owned_live owned
        obtain rfl := rerun.before.names first firstLive row rowLive firstUser rowUser same
        exact ⟨before, ov, want, edits, turn, served, found⟩
      next =>
        -- The new row would have the name of this one.
        obtain ⟨new, listed, name, _⟩ := rerun.needs_created turn needs
        have clash := rerun.after.names new (List.mem_append_right _ listed) row
          (List.mem_append_left _ (rerun.survivors_live member)) (rerun.fresh new listed).1
          (rerun.owned_live owned).2 (name.trans same)
        exact absurd (clash ▸ listed) (rerun.disjoint member)
    · apply undeleted
      rw [deletes]
      simp only [PendingEdits.new_deletes, List.nil_append, List.mem_map, List.mem_flatMap]
      exact ⟨row, ⟨ov, listed, deleted⟩, rfl⟩
  · intro ⟨owned, ⟨before, ov, want, edits, turn, served, found⟩, spared⟩
    have named : row.name ∈ keptNames :=
      (mem_keptNames rerun.run row.name).mpr
        ⟨before, ov, want, edits, turn, .inl ⟨served, row, found, rfl⟩⟩
    have unique (other : StoredPolicy T) (listed : other ∈ gctx.owned) (same : other.id = row.id) :
        other = row :=
      rerun.before.id_inj (rerun.owned_live listed).1 (rerun.owned_live owned).1 same
    refine List.mem_filter.mpr ⟨owned, ?_⟩
    simp only [decide_eq_true_eq, mem_sweep, not_or, not_exists, not_and, not_not]
    constructor
    · intro deleted
      rw [deletes] at deleted
      simp only [PendingEdits.new_deletes, List.nil_append, List.mem_map, List.mem_flatMap]
        at deleted
      obtain ⟨other, ⟨ov, listed, deleted⟩, same⟩ := deleted
      have inOwned : other ∈ gctx.owned := by
        unfold deletedBy at deleted
        split at deleted
        next => exact (List.mem_filter.mp deleted).1
        next =>
          exact List.mem_of_find?_eq_some (Option.mem_toList.mp deleted)
      exact spared ov listed (unique other inOwned same ▸ deleted)
    · intro other listed same
      rw [unique other listed same]
      exact named

end Rows

section Agree

variable {T A : Type} (format : TextFormat T A) (ctx : PlanCtx T A) (gctx : GroupCtx T)

structure RowsAgree : Prop where
  staying : ∀ row, Stays format ctx gctx row → ∀ ov ∈ gctx.group.overrides, ∀ want,
    wantOf ov.intent = some want →
    coversOverride format ctx gctx ov (effectOf want).flip row = false
  opposed : ∀ before ov want edits, Turn format ctx gctx gctx.group.overrides before ov want edits →
    Needs format ctx gctx edits ov want → ∀ other ∈ gctx.group.overrides, ∀ want',
      wantOf other.intent = some want' → Under ctx other ov.resource → want' = want
  unset : ∀ before ov want edits, Turn format ctx gctx gctx.group.overrides before ov want edits →
    Needs format ctx gctx edits ov want → ∀ other ∈ gctx.group.overrides,
      wantOf other.intent = none → other.resource ≠ ov.resource
  seen : ∀ before ov want edits, Turn format ctx gctx gctx.group.overrides before ov want edits →
    Needs format ctx gctx edits ov want → ∃ other ∈ gctx.group.overrides,
      wantOf other.intent = some want ∧ Under ctx other ov.resource ∧
      (∀ row, Stays format ctx gctx row →
        coversOverride format ctx gctx other (effectOf want) row = false) ∧
      ∀ before' ov' edits', Turn format ctx gctx gctx.group.overrides before' ov' want edits' →
        Needs format ctx gctx edits' ov' want → before'.length < before.length →
        ¬ Under ctx other ov'.resource

def PlanCtx.again (live : List (StoredPolicy T)) (hashOrder : List EntityRef → List EntityRef)
    (hashOrder_perm : ∀ keys, (hashOrder keys).Perm keys) : PlanCtx T A :=
  { ctx with live := live, hashOrder := hashOrder, hashOrder_perm := hashOrder_perm }

def GroupCtx.again (overrides : List AccessOverride) (owned : List (StoredPolicy T)) :
    GroupCtx T :=
  { gctx with group := { gctx.group with overrides := overrides }, owned := owned }

variable {format ctx gctx} {live : List (StoredPolicy T)}
  {hashOrder : List EntityRef → List EntityRef}
  {hashOrder_perm : ∀ keys, (hashOrder keys).Perm keys}
  {overrides : List AccessOverride} {owned : List (StoredPolicy T)}

theorem ownedForResource_again (ov : AccessOverride) (effect : Effect) :
    ownedForResource format (ctx.again live hashOrder hashOrder_perm)
        (gctx.again overrides owned) ov effect =
      owned.find? (coversOverride format ctx gctx ov effect) := rfl

theorem deletedBy_again_nil (ov : AccessOverride) :
    deletedBy format (ctx.again live hashOrder hashOrder_perm) (gctx.again overrides owned) ov = [] ↔
      (wantOf ov.intent = none → ∀ row ∈ owned, constrainsResource format ov.resource row = false) ∧
      ∀ want, wantOf ov.intent = some want → ∀ row ∈ owned,
        coversOverride format ctx gctx ov (effectOf want).flip row = false := by
  unfold deletedBy
  rw [show (gctx.again overrides owned).owned = owned from rfl]
  split
  next free => simp [free, List.filter_eq_nil_iff]
  next want wanted => simp [wanted, ownedForResource_again]

variable {userId : String} {created : List (StoredPolicy T)} {pending : PendingEdits T}
  {keptNames : List String} (rerun : Rerun format ctx gctx userId created pending keptNames)
include rerun

theorem RowsAgree.clear (agree : RowsAgree format ctx gctx) {ov : AccessOverride}
    (listed : ov ∈ gctx.group.overrides) :
    deletedBy format (ctx.again live hashOrder hashOrder_perm)
      (gctx.again overrides (survivors gctx pending keptNames ++ created)) ov = [] := by
  rw [deletedBy_again_nil]
  constructor
  · intro free row member
    rw [Bool.eq_false_iff]
    intro constrains
    rcases List.mem_append.mp member with member | member
    next =>
      have stays := (rerun.mem_survivors row).mp member
      apply stays.spared ov listed
      simp only [deletedBy, free]
      exact List.mem_filter.mpr ⟨stays.owned, constrains⟩
    next =>
      obtain ⟨before, other, want, edits, turn, needs, text⟩ := rerun.created_needs member
      exact agree.unset before other want edits turn needs ov listed free
        ((constrainsResource_creation text ov.resource).mp constrains)
  · intro want wanted row member
    rcases List.mem_append.mp member with member | member
    next => exact agree.staying row ((rerun.mem_survivors row).mp member) ov listed want wanted
    next =>
      rw [Bool.eq_false_iff]
      intro covers
      obtain ⟨before, other, want', edits, turn, needs, text⟩ := rerun.created_needs member
      obtain ⟨opposite, under⟩ := (coversOverride_creation text _).mp covers
      exact effectOf_flip.mp opposite
        (agree.opposed before other want' edits turn needs ov listed want wanted under).symm

omit rerun in
theorem find_survivors {row : StoredPolicy T} {covers : StoredPolicy T → Bool}
    (found : gctx.owned.find? covers = some row)
    (stays : row ∈ survivors gctx pending keptNames) :
    (survivors gctx pending keptNames ++ created).find? covers = some row := by
  obtain ⟨covered, front, back, whole, earlier⟩ := List.find?_eq_some_iff_append.mp found
  have undeleted := (List.mem_filter.mp stays).2
  rw [List.find?_eq_some_iff_append]
  refine ⟨covered, front.filter fun p => decide (p.id ∉ (sweep gctx.owned keptNames pending).deletes),
    (back.filter fun p => decide (p.id ∉ (sweep gctx.owned keptNames pending).deletes)) ++ created,
    ?_, fun other member => earlier other (List.mem_filter.mp member).1⟩
  have split : survivors gctx pending keptNames =
      (front ++ row :: back).filter fun p =>
        decide (p.id ∉ (sweep gctx.owned keptNames pending).deletes) := by
    rw [← whole]
    rfl
  rw [split, List.filter_append, List.filter_cons, if_pos undeleted]
  simp

omit rerun in
theorem find_created {created₀ created₁ : List (StoredPolicy T)} {row : StoredPolicy T}
    {covers : StoredPolicy T → Bool} (covered : covers row = true)
    (staying : ∀ other ∈ survivors gctx pending keptNames, covers other = false)
    (earlier : ∀ other ∈ created₀, covers other = false) :
    (survivors gctx pending keptNames ++ (created₀ ++ row :: created₁)).find? covers = some row := by
  rw [List.find?_eq_some_iff_append]
  refine ⟨covered, survivors gctx pending keptNames ++ created₀, created₁, by simp, ?_⟩
  intro other member
  rcases List.mem_append.mp member with member | member
  next => simp [staying other member]
  next => simp [earlier other member]

theorem RowsAgree.seen_created (agree : RowsAgree format ctx gctx) {row : StoredPolicy T}
    (member : row ∈ created) :
    ∃ ov ∈ gctx.group.overrides, ∃ want, wantOf ov.intent = some want ∧
      (survivors gctx pending keptNames ++ created).find?
        (coversOverride format ctx gctx ov (effectOf want)) = some row := by
  obtain ⟨created₀, created₁, split⟩ := List.append_of_mem member
  obtain ⟨front, policy, back, creates, head, _, text⟩ := rerun.creates_split split
  obtain ⟨before, ov, want, edits, turn, needs, rfl, rfl⟩ := creates_turn rerun.run creates
  obtain ⟨other, listed, wanted, under, staying, earlier⟩ :=
    agree.seen before ov want edits turn needs
  refine ⟨other, listed, want, wanted, ?_⟩
  rw [split]
  apply find_created
  · exact (coversOverride_creation text _).mpr ⟨rfl, under⟩
  · exact fun row member => staying row ((rerun.mem_survivors row).mp member)
  · intro new inFront
    rw [Bool.eq_false_iff]
    intro covers
    -- A row created before comes from a turn before.
    have mapped : (new.name, new.policyText) ∈
        created₀.map fun p => (p.name, p.policyText) := List.mem_map.mpr ⟨new, inFront, rfl⟩
    rw [head] at mapped
    obtain ⟨policy', listed', same⟩ := List.mem_map.mp mapped
    obtain ⟨front', back', creates'⟩ := List.append_of_mem listed'
    obtain ⟨names, first⟩ := turn.state
    obtain ⟨before', ov', want', edits', turn', needs', _, rfl⟩ := creates_turn first creates'
    simp only [Prod.mk.injEq] at same
    obtain ⟨effect, under'⟩ := (coversOverride_creation same.2.symm _).mp covers
    obtain rfl := effectOf_inj effect
    obtain ⟨after', rfl⟩ := turn'.position
    obtain ⟨after, position⟩ := turn.position
    have inRun : Turn format ctx gctx gctx.group.overrides before' ov' want' edits' :=
      ⟨⟨after' ++ ov :: after, by simp [position]⟩, turn'.wanted, turn'.state⟩
    refine earlier before' ov' edits' inRun needs' ?_ under'
    rw [List.length_append, List.length_cons]
    omega

theorem Rerun.agree_of_clear
    (clear : ∀ ov ∈ gctx.group.overrides, deletedBy format
      (ctx.again live hashOrder hashOrder_perm)
      (gctx.again overrides (survivors gctx pending keptNames ++ created)) ov = [])
    (seen : ∀ row ∈ created, ∃ ov ∈ gctx.group.overrides, ∃ want, wantOf ov.intent = some want ∧
      ∃ first, (survivors gctx pending keptNames ++ created).find?
        (coversOverride format ctx gctx ov (effectOf want)) = some first ∧
        first.name = row.name) :
    RowsAgree format ctx gctx where
  staying := by
    intro row stays ov listed want wanted
    have none := (deletedBy_again_nil ov).mp (clear ov listed)
    exact none.2 want wanted row (List.mem_append_left _ ((rerun.mem_survivors row).mpr stays))
  opposed := by
    intro before ov want edits turn needs other listed want' wanted under
    obtain ⟨row, member, _, text⟩ := rerun.needs_created turn needs
    have none := (deletedBy_again_nil other).mp (clear other listed)
    have uncovered := none.2 want' wanted row (List.mem_append_right _ member)
    by_contra differ
    rw [(coversOverride_creation text _).mpr ⟨effectOf_flip.mpr (Ne.symm differ), under⟩]
      at uncovered
    cases uncovered
  unset := by
    intro before ov want edits turn needs other listed free same
    obtain ⟨row, member, _, text⟩ := rerun.needs_created turn needs
    have none := (deletedBy_again_nil other).mp (clear other listed)
    have unconstrained := none.1 free row (List.mem_append_right _ member)
    rw [(constrainsResource_creation text _).mpr same] at unconstrained
    cases unconstrained
  seen := by
    intro before ov want edits turn needs
    obtain ⟨back, creates⟩ := turn.creates needs rerun.run
    obtain ⟨created₀, row, created₁, split, head, _, text⟩ := rerun.created_split creates
    have member : row ∈ created := by simp [split]
    obtain ⟨other, listed, want', wanted, first, found, same⟩ := seen row member
    have inNext (p : StoredPolicy T) (at' : p ∈ survivors gctx pending keptNames ++ created) :
        p ∈ kept (pendingToEdits (sweep gctx.owned keptNames pending)) ctx.live ++ created ∧
          p.userId = some userId := by
      rcases List.mem_append.mp at' with staying | new
      next =>
        exact ⟨List.mem_append_left _ (rerun.survivors_live staying),
          (rerun.owned_live (List.mem_filter.mp staying).1).2⟩
      next => exact ⟨List.mem_append_right _ new, (rerun.fresh p new).1⟩
    have firstIn := inNext first (List.mem_of_find?_eq_some found)
    have rowIn := inNext row (List.mem_append_right _ member)
    obtain rfl := rerun.after.names first firstIn.1 row rowIn.1 firstIn.2 rowIn.2 same
    obtain ⟨effect, under⟩ :=
      (coversOverride_creation text _).mp (List.find?_some found)
    obtain rfl := effectOf_inj effect
    -- Whatever is found before the new row would be found in its place.
    have before_row (p : StoredPolicy T) (ahead : p ∈ survivors gctx pending keptNames ++ created₀) :
        coversOverride format ctx gctx other (effectOf want) p = false := by
      rw [split, ← List.append_assoc, List.find?_append] at found
      cases early : (survivors gctx pending keptNames ++ created₀).find?
          (coversOverride format ctx gctx other (effectOf want)) with
      | none => simpa using List.find?_eq_none.mp early p ahead
      | some one =>
          rw [early] at found
          obtain rfl : one = first := by simpa using found
          have twice := List.mem_of_find?_eq_some early
          have ids := rerun.after.ids
          rcases List.mem_append.mp twice with staying | new
          next => exact absurd member (rerun.disjoint staying)
          next =>
            rw [List.map_append, List.nodup_append] at ids
            have apart := ids.2.1
            rw [split, List.map_append, List.map_cons, List.nodup_append] at apart
            exact absurd rfl (apart.2.2 _ (List.mem_map.mpr ⟨_, new, rfl⟩) _ (by simp))
    refine ⟨other, listed, wanted, under, fun p stays => ?_, ?_⟩
    · exact before_row p (List.mem_append_left _ ((rerun.mem_survivors p).mpr stays))
    · intro before' ov' edits' turn' needs' shorter under'
      -- The earlier turn is one of the run before this turn.
      obtain ⟨names, state⟩ := turn.state
      obtain ⟨after, position⟩ := turn.position
      obtain ⟨after', position'⟩ := turn'.position
      obtain ⟨middle, rfl⟩ : ∃ middle, before = before' ++ ov' :: middle := by
        have same : before ++ (ov :: after) = before' ++ (ov' :: after') := by
          rw [← position, ← position']
        rcases List.append_eq_append_iff.mp same with ⟨gap, rfl, _⟩ | ⟨gap, rfl, rest⟩
        next =>
          rw [List.length_append] at shorter
          omega
        next =>
          cases gap with
          | nil =>
              rw [List.append_nil] at shorter
              omega
          | cons head tail =>
              obtain ⟨rfl, _⟩ := List.cons.inj rest
              exact ⟨tail, rfl⟩
      have inBefore : Turn format ctx gctx (before' ++ ov' :: middle) before' ov' want edits' :=
        ⟨⟨middle, rfl⟩, turn'.wanted, turn'.state⟩
      obtain ⟨back', creates'⟩ := inBefore.creates needs' state
      have emitted : ((creationFor format gctx ov' want).name,
          (creationFor format gctx ov' want).text) ∈
            created₀.map fun p => (p.name, p.policyText) := by
        rw [head, creates']
        simp
      obtain ⟨new, inFront, text'⟩ := List.mem_map.mp emitted
      simp only [Prod.mk.injEq] at text'
      have uncovered := before_row new (List.mem_append_right _ inFront)
      rw [(coversOverride_creation text'.2 _).mpr ⟨rfl, under'⟩] at uncovered
      cases uncovered

theorem Rerun.quiet_iff (perm : overrides.Perm gctx.group.overrides) :
    Quiet format (ctx.again live hashOrder hashOrder_perm)
        (gctx.again overrides (survivors gctx pending keptNames ++ created)) ↔
      (∀ ov ∈ gctx.group.overrides, ∀ want, wantOf ov.intent = some want →
        Served format (ctx.again live hashOrder hashOrder_perm)
          (gctx.again overrides (survivors gctx pending keptNames ++ created)) .new ov want) ∧
        RowsAgree format ctx gctx := by
  constructor
  · intro quiet
    have listed {ov : AccessOverride} (member : ov ∈ gctx.group.overrides) : ov ∈ overrides :=
      perm.mem_iff.mpr member
    refine ⟨fun ov member => quiet.served ov (listed member), rerun.agree_of_clear
      (fun ov member => quiet.clear ov (listed member)) fun row member => ?_⟩
    obtain ⟨ov, member, want, wanted, first, found, same⟩ :=
      quiet.seen row (List.mem_append_right _ member)
    exact ⟨ov, perm.mem_iff.mp member, want, wanted, first, found, same⟩
  · intro ⟨served, agree⟩
    have listed {ov : AccessOverride} (member : ov ∈ overrides) : ov ∈ gctx.group.overrides :=
      perm.mem_iff.mp member
    refine ⟨fun ov member => served ov (listed member),
      fun ov member => agree.clear rerun (listed member), fun row member => ?_⟩
    rcases List.mem_append.mp member with staying | new
    next =>
      obtain ⟨before, ov, want, edits, turn, _, found⟩ :=
        ((rerun.mem_survivors row).mp staying).serves
      exact ⟨ov, perm.mem_iff.mpr turn.mem, want, turn.wanted, row,
        find_survivors found staying, rfl⟩
    next =>
      obtain ⟨ov, inGroup, want, wanted, found⟩ := agree.seen_created rerun new
      exact ⟨ov, perm.mem_iff.mpr inGroup, want, wanted, row, found, rfl⟩

end Agree

end Frona.Policy
