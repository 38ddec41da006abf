import Frona.Evidence.Search

set_option autoImplicit false

namespace Frona.Evidence

open Utf8 (Text)
open Frona.Chat (Json)
open Frona.Inference (estimateTokens)

section Digits

theorem colon_not_mem_toDigits (n : Nat) : ':' ∉ Nat.toDigits 10 n := by
  intro member
  have digit := Nat.isDigit_of_mem_toDigits (by decide) (by decide) member
  exact absurd digit (by decide)

theorem last_colon_inj {a b x y : Text} (same : a ++ ':' :: x = b ++ ':' :: y) (left : ':' ∉ x)
    (right : ':' ∉ y) : a = b ∧ x = y := by
  obtain ⟨middle, ends, rest⟩ | ⟨middle, ends, rest⟩ := List.append_eq_append_iff.mp same
  · cases middle with
    | nil => exact ⟨by simpa using ends.symm, by simpa using rest⟩
    | cons c more =>
        simp only [List.cons_append, List.cons.injEq] at rest
        exact absurd (by rw [rest.2]; simp) left
  · cases middle with
    | nil => exact ⟨by simpa using ends, by simpa using rest.symm⟩
    | cons c more =>
        simp only [List.cons_append, List.cons.injEq] at rest
        exact absurd (by rw [rest.2]; simp) right

theorem chunkId_eq (target : EvidenceHandleTarget) : chunkId target =
    target.callLocalId ++ ':' :: ("chunk".toList ++ Nat.toDigits 10 (target.chunkIndex + 1)) := by
  simp [chunkId]

theorem colon_not_mem_suffix (word : Text) (plain : ':' ∉ word) (n : Nat) :
    ':' ∉ word ++ Nat.toDigits 10 n := by
  simp [plain, colon_not_mem_toDigits]

theorem chunkId_inj {first second : EvidenceHandleTarget} (same : chunkId first = chunkId second) :
    first = second := by
  rw [chunkId_eq, chunkId_eq] at same
  obtain ⟨ids, numbers⟩ := last_colon_inj same (colon_not_mem_suffix _ (by decide) _)
    (colon_not_mem_suffix _ (by decide) _)
  have index := Text.toDigits_inj (List.append_cancel_left numbers)
  cases first
  cases second
  simp_all

theorem legacyId_ne (prompt : Text) (number : Nat) (target : EvidenceHandleTarget) :
    legacyId prompt number ≠ chunkId target := by
  intro same
  have legacy : legacyId prompt number =
      prompt ++ ':' :: ("tool".toList ++ Nat.toDigits 10 number) := by simp [legacyId]
  rw [legacy, chunkId_eq] at same
  have ends := (last_colon_inj same (colon_not_mem_suffix _ (by decide) _)
    (colon_not_mem_suffix _ (by decide) _)).2
  simp at ends

end Digits

section Handles

def Minted (handles : EvidenceHandleState) : Prop :=
  ∀ target id, handles.byTarget target = some id →
    id = chunkId target ∧ handles.byId id = some target

def Extends (before after : EvidenceHandleState) : Prop :=
  ∀ target id, before.byTarget target = some id → after.byTarget target = some id

variable {handles : EvidenceHandleState}

theorem Extends.refl (handles : EvidenceHandleState) : Extends handles handles :=
  fun _ _ found => found

theorem Extends.trans {first second third : EvidenceHandleState} (left : Extends first second)
    (right : Extends second third) : Extends first third :=
  fun target id found => right target id (left target id found)

theorem evidenceId_extends (handles : EvidenceHandleState) (prompt : Text)
    (target : EvidenceHandleTarget) : Extends handles (handles.evidenceId prompt target).1 := by
  intro other id found
  unfold EvidenceHandleState.evidenceId
  split
  next => exact found
  next missing =>
    have apart : other ≠ target := by
      rintro rfl
      rw [missing] at found
      cases found
    simpa [apart] using found

theorem evidenceId_found (prompt : Text) (target : EvidenceHandleTarget) :
    (handles.evidenceId prompt target).1.byTarget target =
      some (handles.evidenceId prompt target).2 := by
  unfold EvidenceHandleState.evidenceId
  split
  next existing found => exact found
  next => simp

theorem Minted.evidenceId (minted : Minted handles) (prompt : Text)
    (target : EvidenceHandleTarget) : Minted (handles.evidenceId prompt target).1 := by
  unfold EvidenceHandleState.evidenceId
  split
  next => exact minted
  next missing =>
    intro other id found
    have own : id = chunkId other ∧ (other = target ∨ handles.byId id = some other) := by
      by_cases same : other = target
      · subst same
        exact ⟨by simpa using found.symm, Or.inl rfl⟩
      · have before := minted other id (by simpa [same] using found)
        exact ⟨before.1, Or.inr before.2⟩
    obtain ⟨rfl, kept⟩ := own
    refine ⟨rfl, ?_⟩
    simp only
    rw [Function.update_of_ne (legacyId_ne _ _ _).symm]
    by_cases same : other = target
    · subst same
      simp
    · rw [Function.update_of_ne fun equal => same (chunkId_inj equal)]
      exact kept.resolve_left same

end Handles

section Shows

variable {library : Library} {projection : ToolEvidenceProjection}

structure Shows (projection : ToolEvidenceProjection) (shown : Shown) : Prop where
  call : ∃ call scope, projection.byLocalId shown.target.callLocalId = some call ∧
    projection.byAssertionMessage shown.assertionMessageId = some scope ∧
    shown.target.callLocalId ∈ scope ∧
    (shown.wholeResult = false → ∃ text, call.chunks[shown.target.chunkIndex]? = some text ∧
      shown.text = bounded text 2000)

structure Kept (projection : ToolEvidenceProjection) (handles : EvidenceHandleState)
    (shown : Shown) : Prop where
  minted : handles.byTarget shown.target = some shown.evidenceId
  shows : Shows projection shown

theorem Kept.extend {before after : EvidenceHandleState} {shown : Shown}
    (kept : Kept projection before shown) (extended : Extends before after) :
    Kept projection after shown :=
  ⟨extended _ _ kept.minted, kept.shows⟩

/-- The handles are in order, and so is every result. -/
structure Sound (projection : ToolEvidenceProjection)
    (state : EvidenceHandleState × List Shown) : Prop where
  minted : Minted state.1
  kept : ∀ shown ∈ state.2, Kept projection state.1 shown

theorem qualified_mem {messageId : Text} {call : ProjectedEvidenceCall}
    (member : call ∈ projection.qualifiedForMessage messageId) :
    ∃ scope, projection.byAssertionMessage messageId = some scope ∧ call.localId ∈ scope ∧
      projection.byLocalId call.localId = some call := by
  simp only [ToolEvidenceProjection.qualifiedForMessage, List.mem_filter, List.mem_filterMap]
    at member
  obtain ⟨⟨id, listed, found⟩, _⟩ := member
  have own : call.localId = id := by
    simpa [ToolEvidenceProjection.byLocalId] using List.find?_some found
  subst own
  cases scope : projection.byAssertionMessage messageId with
  | none => simp [scope] at listed
  | some ids => exact ⟨ids, rfl, by simpa [scope] using listed, found⟩

theorem ranked_mem {messageId claim quote : Text} {call : ProjectedEvidenceCall}
    (member : call ∈ rankedForMessage library projection messageId claim quote) :
    call ∈ projection.qualifiedForMessage messageId := by
  simp only [rankedForMessage, List.mem_map, List.mem_mergeSort] at member
  obtain ⟨entry, ⟨ranked, listed, rfl⟩, rfl⟩ := member
  exact (List.mem_filter.mp listed).1

theorem shownChunks_mem {call : ProjectedEvidenceCall} {query : Text}
    {chunk : Nat × Text × ℚ × Bool} (member : chunk ∈ shownChunks library call query)
    (part : chunk.2.2.2 = false) : call.chunks[chunk.1]? = some chunk.2.1 := by
  unfold shownChunks at member
  simp only at member
  split at member
  next =>
    obtain rfl := List.mem_singleton.mp member
    cases part
  next =>
    rw [List.mem_mergeSort, List.mem_filter, List.mem_map] at member
    obtain ⟨⟨entry, listed, rfl⟩, _⟩ := member
    exact List.mk_mem_zipIdx_iff_getElem?.mp listed

theorem Sound.showChunks (library : Library) {request : SearchRequest}
    {call : ProjectedEvidenceCall} (qualified : call ∈ projection.qualifiedForMessage request.messageId)
    (chunks : List (Nat × Text × ℚ × Bool))
    (own : ∀ chunk ∈ chunks, chunk.2.2.2 = false → call.chunks[chunk.1]? = some chunk.2.1)
    {state : EvidenceHandleState × List Shown} (sound : Sound projection state) :
    Sound projection (showChunks library request call chunks state) ∧
      Extends state.1 (showChunks library request call chunks state).1 := by
  induction chunks generalizing state with
  | nil => exact ⟨sound, Extends.refl _⟩
  | cons chunk rest ih =>
      obtain ⟨handles, results⟩ := state
      have extended := evidenceId_extends handles request.promptMessage
        ⟨call.localId, chunk.1⟩
      have minted := sound.minted.evidenceId request.promptMessage ⟨call.localId, chunk.1⟩
      have before := fun shown member => (sound.kept shown member).extend extended
      simp only [Evidence.showChunks]
      split
      next => exact ⟨⟨minted, before⟩, extended⟩
      next =>
        have added : Sound projection ((handles.evidenceId request.promptMessage
            ⟨call.localId, chunk.1⟩).1, results ++ [candidate request call
              (handles.evidenceId request.promptMessage ⟨call.localId, chunk.1⟩).2 chunk]) := by
          refine ⟨minted, ?_⟩
          intro shown member
          obtain old | new := List.mem_append.mp member
          · exact before shown old
          · obtain rfl := List.mem_singleton.mp new
            obtain ⟨scope, owned, listed, found⟩ := qualified_mem qualified
            refine ⟨evidenceId_found request.promptMessage _,
              ⟨call, scope, found, owned, listed, ?_⟩⟩
            intro part
            exact ⟨chunk.2.1, own chunk (by simp) part, rfl⟩
        obtain ⟨later, further⟩ := ih (fun other member => own other (by simp [member])) added
        exact ⟨later, extended.trans further⟩

theorem Sound.search (library : Library) (projection : ToolEvidenceProjection)
    (request : SearchRequest) {handles : EvidenceHandleState} (minted : Minted handles) :
    Sound projection (searchForMessageWithHandles library projection request handles) ∧
      Extends handles (searchForMessageWithHandles library projection request handles).1 := by
  have start : Sound projection (handles, []) := ⟨minted, by simp⟩
  unfold searchForMessageWithHandles
  split
  next => exact ⟨start, Extends.refl _⟩
  next =>
    have ranked : ∀ call ∈ rankedForMessage library projection request.messageId request.query
        request.query, call ∈ projection.qualifiedForMessage request.messageId :=
      fun call => ranked_mem
    generalize rankedForMessage library projection request.messageId request.query request.query =
      calls at ranked
    have run : ∀ state : EvidenceHandleState × List Shown, Sound projection state →
        Sound projection (calls.foldl (fun state call => Evidence.showChunks library request call
          (shownChunks library call request.query) state) state) ∧
        Extends state.1 (calls.foldl (fun state call => Evidence.showChunks library request call
          (shownChunks library call request.query) state) state).1 := by
      induction calls with
      | nil => exact fun state sound => ⟨sound, Extends.refl _⟩
      | cons call rest ih =>
          intro state sound
          have shown := sound.showChunks library (ranked call (by simp))
            (shownChunks library call request.query) (fun chunk => shownChunks_mem)
          have later := ih (fun other member => ranked other (by simp [member])) _ shown.1
          exact ⟨later.1, shown.2.trans later.2⟩
    exact run _ start

theorem sound_searches (library : Library) (projection : ToolEvidenceProjection)
    (requests : List SearchRequest) :
    Sound projection ((searches library projection requests).handles,
      (searches library projection requests).shown) := by
  have run : ∀ world : World, Sound projection (world.handles, world.shown) →
      Sound projection ((requests.foldl (World.search library projection) world).handles,
        (requests.foldl (World.search library projection) world).shown) := by
    induction requests with
    | nil => exact fun world sound => sound
    | cons request rest ih =>
        intro world sound
        obtain ⟨found, extended⟩ := Sound.search library projection request sound.minted
        refine ih _ ⟨found.minted, ?_⟩
        intro shown member
        obtain old | new := List.mem_append.mp member
        · exact (sound.kept shown old).extend extended
        · exact found.kept shown new
  refine run ⟨.empty, []⟩ ⟨?_, by simp⟩
  intro target id found
  cases found

end Shows

end Frona.Evidence
