import Mathlib.Algebra.Order.BigOperators.Group.List
import Mathlib.Data.List.Nodup
import Mathlib.Tactic.Positivity
import Frona.Evidence.HandleRuns

set_option autoImplicit false

namespace Frona.Evidence

open Utf8 (Text)
open Frona.Chat (Json)
open Frona.Inference (estimateTokens)
open Frona.Text (words)

section Scope

def Conversation.InScope (conversation : Conversation) (assertion : Text)
    (call : ProjectedEvidenceCall) : Prop :=
  (∃ horizon, conversation.horizon assertion = some horizon ∧ call.messageId ∈ horizon) ∨
    ∃ task ∈ conversation.taskCalls, task.1 = assertion ∧ ∃ execution ∈ task.2,
      execution.id = call.toolCallId

variable {library : Library} {conversation : Conversation}

structure Numbered (library : Library) (conversation : Conversation)
    (projection : ToolEvidenceProjection) : Prop where
  chunked : ∀ call ∈ projection.calls, call.chunks = evidenceChunks library.parse call.result
  numbers : projection.calls.map ProjectedEvidenceCall.localId =
    (List.range projection.calls.length).map fun index => localIdOf (index + 1)
  links : ∀ assertion scope, projection.byAssertionMessage assertion = some scope →
    ∀ id ∈ scope, ∃ call ∈ projection.calls, call.localId = id ∧
      conversation.InScope assertion call

theorem localIdOf_inj {first second : Nat} (same : localIdOf first = localIdOf second) :
    first = second :=
  Text.toDigits_inj (List.cons.inj same).2

theorem Numbered.nodup {projection : ToolEvidenceProjection}
    (numbered : Numbered library conversation projection) :
    (projection.calls.map ProjectedEvidenceCall.localId).Nodup := by
  rw [numbered.numbers]
  refine List.Nodup.map ?_ List.nodup_range
  intro first second same
  exact Nat.succ.inj (localIdOf_inj same)

theorem Numbered.found {projection : ToolEvidenceProjection}
    (numbered : Numbered library conversation projection) {assertion id : Text} {scope : List Text}
    (linked : projection.byAssertionMessage assertion = some scope) (listed : id ∈ scope)
    {call : ProjectedEvidenceCall} (found : projection.byLocalId id = some call) :
    conversation.InScope assertion call := by
  obtain ⟨other, member, own, inside⟩ := numbered.links assertion scope linked id listed
  have name : call.localId = id := by
    simpa [ToolEvidenceProjection.byLocalId] using List.find?_some found
  have same : other = call := List.inj_on_of_nodup_map numbered.nodup member
    (List.mem_of_find?_eq_some found) (own.trans name.symm)
  exact same ▸ inside

theorem Numbered.linked {projection : ToolEvidenceProjection}
    (numbered : Numbered library conversation projection) {assertion id : Text}
    (listed : id ∈ (projection.byAssertionMessage assertion).getD []) :
    ∃ call ∈ projection.calls, call.localId = id ∧ conversation.InScope assertion call := by
  cases before : projection.byAssertionMessage assertion with
  | none => simp [before] at listed
  | some ids => exact numbered.links assertion ids before id (by simpa [before] using listed)

theorem numbered_new : Numbered library conversation (.new library conversation) where
  chunked call member := by
    obtain ⟨entry, _, rfl⟩ := List.mem_map.mp member
    rfl
  numbers := by
    simp only [ToolEvidenceProjection.new, Conversation.ownCalls]
    refine List.ext_getElem (by simp) fun index left right => ?_
    simp [project]
  links assertion scope linked id listed := by
    simp only [ToolEvidenceProjection.new] at linked ⊢
    split at linked
    next =>
      obtain ⟨horizon, looked, rfl⟩ := Option.map_eq_some_iff.mp linked
      obtain ⟨call, member, rfl⟩ := List.mem_map.mp listed
      obtain ⟨own, inside⟩ := List.mem_filter.mp member
      exact ⟨call, own, rfl, Or.inl ⟨horizon, looked, by simpa using inside⟩⟩
    next => cases linked

theorem Numbered.linkCall {projection : ToolEvidenceProjection}
    (numbered : Numbered library conversation projection) {task : Text × List ToolCall}
    (listed : task ∈ conversation.taskCalls) {call : ToolCall} (member : call ∈ task.2) :
    Numbered library conversation (projection.linkCall library task.1 call) := by
  unfold ToolEvidenceProjection.linkCall
  simp only
  cases known : projection.calls.find? (fun other => other.toolCallId = call.id) with
  | some existing =>
      have own : existing.toolCallId = call.id := by simpa using List.find?_some known
      refine ⟨by simpa using numbered.chunked, by simpa using numbered.numbers, ?_⟩
      intro assertion scope linked id inside
      simp only [Option.isSome_some, ↓reduceIte, Option.getD_some] at linked ⊢
      by_cases here : assertion = task.1
      · subst here
        rw [Function.update_self] at linked
        obtain rfl := Option.some.inj linked
        have cases' : id ∈ (projection.byAssertionMessage task.1).getD [] ∨
            id = existing.localId := by
          split at inside
          · exact Or.inl inside
          · simpa using inside
        obtain old | rfl := cases'
        · exact numbered.linked old
        · exact ⟨existing, List.mem_of_find?_eq_some known, rfl,
            Or.inr ⟨task, listed, rfl, call, member, own.symm⟩⟩
      · rw [Function.update_of_ne here] at linked
        exact numbered.links assertion scope linked id inside
  | none =>
      refine ⟨?_, by simp [numbered.numbers, List.range_succ, project], ?_⟩
      next =>
        intro other member
        simp only [Option.isSome_none, Bool.false_eq_true, ↓reduceIte] at member
        obtain old | new := List.mem_append.mp member
        · exact numbered.chunked other old
        · obtain rfl := List.mem_singleton.mp new
          rfl
      next =>
        intro assertion scope linked id inside
        simp only [Option.isSome_none, Bool.false_eq_true, ↓reduceIte, Option.getD_none]
          at linked ⊢
        have wider (entry : ∃ call ∈ projection.calls, call.localId = id ∧
            conversation.InScope assertion call) :
            ∃ other ∈ projection.calls ++ [project library call (projection.calls.length + 1)],
              other.localId = id ∧ conversation.InScope assertion other := by
          obtain ⟨other, old, rest⟩ := entry
          exact ⟨other, List.mem_append_left _ old, rest⟩
        by_cases here : assertion = task.1
        · subst here
          rw [Function.update_self] at linked
          obtain rfl := Option.some.inj linked
          have cases' : id ∈ (projection.byAssertionMessage task.1).getD [] ∨
              id = (project library call (projection.calls.length + 1)).localId := by
            split at inside
            · exact Or.inl inside
            · simpa using inside
          obtain old | rfl := cases'
          · exact wider (numbered.linked old)
          · exact ⟨_, List.mem_append_right _ (List.mem_singleton.mpr rfl), rfl,
              Or.inr ⟨task, listed, rfl, call, member, rfl⟩⟩
        · rw [Function.update_of_ne here] at linked
          exact wider (numbered.links assertion scope linked id inside)

theorem Numbered.linkTask {projection : ToolEvidenceProjection}
    (numbered : Numbered library conversation projection) {task : Text × List ToolCall}
    (listed : task ∈ conversation.taskCalls) :
    Numbered library conversation (projection.linkTask library task) := by
  unfold ToolEvidenceProjection.linkTask
  simp only
  have entered : Numbered library conversation { projection with
      byAssertionMessage := Function.update projection.byAssertionMessage task.1
        (some ((projection.byAssertionMessage task.1).getD [])) } := by
    refine ⟨numbered.chunked, numbered.numbers, ?_⟩
    intro assertion scope linked id inside
    by_cases here : assertion = task.1
    · subst here
      simp only [Function.update_self, Option.some.injEq] at linked
      subst linked
      exact numbered.linked inside
    · simp only [Function.update_of_ne here] at linked
      exact numbered.links assertion scope linked id inside
  have calls : ∀ call ∈ (task.2.filter ToolCall.success).mergeSort taskCallLe, call ∈ task.2 := by
    intro call member
    rw [List.mem_mergeSort] at member
    exact (List.mem_filter.mp member).1
  generalize (task.2.filter ToolCall.success).mergeSort taskCallLe = order at calls
  revert entered
  generalize ({ projection with
      byAssertionMessage := Function.update projection.byAssertionMessage task.1
        (some ((projection.byAssertionMessage task.1).getD [])) } : ToolEvidenceProjection) = start
  intro entered
  induction order generalizing start with
  | nil => exact entered
  | cons call rest ih =>
      exact ih (fun other member => calls other (by simp [member])) _
        (entered.linkCall listed (calls call (by simp)))

theorem numbered_newWithTaskEvidence :
    Numbered library conversation (.newWithTaskEvidence library conversation) := by
  unfold ToolEvidenceProjection.newWithTaskEvidence
  have run : ∀ tasks : List (Text × List ToolCall),
      (∀ task ∈ tasks, task ∈ conversation.taskCalls) →
      ∀ projection, Numbered library conversation projection →
        Numbered library conversation (tasks.foldl (.linkTask library) projection) := by
    intro tasks
    induction tasks with
    | nil => exact fun _ projection numbered => numbered
    | cons task rest ih =>
        intro listed projection numbered
        exact ih (fun other member => listed other (by simp [member])) _
          (numbered.linkTask (listed task (by simp)))
  exact run _ (fun _ member => member) _ numbered_new

end Scope

section Positive

variable {library : Library}

theorem bm25LikeScore_pos {query text token : Text} (asked : token ∈ tokens library query)
    (stands : token ∈ tokens library text) : 0 < bm25LikeScore library query text := by
  have some : tokens library query ≠ [] := List.ne_nil_of_mem asked
  have count : 0 < (tokens library query).length := List.length_pos_iff.mpr some
  unfold bm25LikeScore
  simp only [some, ↓reduceIte]
  refine div_pos ?_ (by positivity)
  have nonneg : ∀ other, (0 : ℚ) ≤ if 0 < (tokens library text).count other then
      1 + library.ln ((tokens library text).count other) else 0 := by
    intro other
    split
    next positive => exact add_nonneg zero_le_one (library.ln_nonneg _ positive)
    next => exact le_refl 0
  have one : (0 : ℚ) < if 0 < (tokens library text).count token then
      1 + library.ln ((tokens library text).count token) else 0 := by
    have positive := List.count_pos_iff.mpr stands
    rw [if_pos positive]
    exact add_pos_of_pos_of_nonneg zero_lt_one (library.ln_nonneg _ positive)
  refine lt_of_lt_of_le one (List.single_le_sum ?_ _ (List.mem_map_of_mem asked))
  intro value member
  obtain ⟨other, _, rfl⟩ := List.mem_map.mp member
  exact nonneg other

theorem credit_le (scores : Text → ℚ) (entry : (ProjectedEvidenceCall × ℚ) × Nat) (id : Text) :
    scores id ≤ credit scores entry id := by
  unfold credit
  split
  next =>
    by_cases same : id = entry.1.1.localId
    · subst same
      rw [Function.update_self]
      exact le_add_of_nonneg_right (by positivity)
    · rw [Function.update_of_ne same]
  next => exact le_refl _

theorem credit_lt (scores : Text → ℚ) (entry : (ProjectedEvidenceCall × ℚ) × Nat)
    (positive : 0 < entry.1.2) :
    scores entry.1.1.localId < credit scores entry entry.1.1.localId := by
  rw [credit, if_pos positive, Function.update_self]
  exact lt_add_of_pos_right _ (by positivity)

theorem credits_le (scores : Text → ℚ) (entries : List ((ProjectedEvidenceCall × ℚ) × Nat))
    (id : Text) : scores id ≤ entries.foldl credit scores id := by
  induction entries generalizing scores with
  | nil => exact le_refl _
  | cons entry rest ih => exact le_trans (credit_le scores entry id) (ih _)

theorem tally_le (scores : Text → ℚ) (ranked : List (ProjectedEvidenceCall × ℚ)) (id : Text) :
    scores id ≤ tally scores ranked id := credits_le scores ranked.zipIdx id

theorem tally_lt (scores : Text → ℚ) (ranked : List (ProjectedEvidenceCall × ℚ))
    {entry : ProjectedEvidenceCall × ℚ} (member : entry ∈ ranked) (positive : 0 < entry.2) :
    scores entry.1.localId < tally scores ranked entry.1.localId := by
  obtain ⟨index, bound, rfl⟩ := List.getElem_of_mem member
  have listed : (ranked[index], index) ∈ ranked.zipIdx :=
    List.mk_mem_zipIdx_iff_getElem?.mpr (List.getElem?_eq_getElem bound)
  obtain ⟨before, after, split⟩ := List.append_of_mem listed
  rw [tally, split, List.foldl_append, List.foldl_cons]
  have start := credits_le scores before ranked[index].1.localId
  have here := credit_lt (before.foldl credit scores) (ranked[index], index) positive
  exact lt_of_le_of_lt start (lt_of_lt_of_le here (credits_le _ after _))

theorem ranked_of_token {projection : ToolEvidenceProjection} {messageId query token : Text}
    {call : ProjectedEvidenceCall} (qualified : call ∈ projection.qualifiedForMessage messageId)
    (asked : token ∈ tokens library query)
    (stands : token ∈ tokens library call.searchableText) :
    call ∈ rankedForMessage library projection messageId query query := by
  have positive := bm25LikeScore_pos asked stands
  have first : (call, bm25LikeScore library query call.searchableText) ∈
      rankedBy (projection.qualifiedForMessage messageId)
        fun call => bm25LikeScore library query call.searchableText := by
    rw [rankedBy, List.mem_mergeSort]
    exact List.mem_map.mpr ⟨call, qualified, rfl⟩
  have above := tally_lt (fun _ => 0) _ first positive
  simp only [rankedForMessage, List.mem_map, List.mem_mergeSort]
  refine ⟨_, ⟨call, List.mem_filter.mpr ⟨qualified, ?_⟩, rfl⟩, rfl⟩
  refine decide_eq_true ?_
  simp only [List.foldl_cons, List.foldl_nil]
  -- the other rankings only add
  refine lt_of_lt_of_le ?_ (tally_le _ _ _)
  refine lt_of_lt_of_le ?_ (tally_le _ _ _)
  exact lt_of_lt_of_le above (tally_le _ _ _)

end Positive

section Found

variable {library : Library} {projection : ToolEvidenceProjection}

def showAll (request : SearchRequest) (call : ProjectedEvidenceCall) :
    List (Nat × Text × ℚ × Bool) → EvidenceHandleState × List Shown →
      EvidenceHandleState × List Shown
  | [], state => state
  | chunk :: rest, (handles, results) =>
      let minted := handles.evidenceId request.promptMessage ⟨call.localId, chunk.1⟩
      showAll request call rest (minted.1, results ++ [candidate request call minted.2 chunk])

def withCap (request : SearchRequest) (cap : Nat) : SearchRequest :=
  { request with tokenCap := cap }

theorem showChunks_uncut (library : Library) (request : SearchRequest)
    (call : ProjectedEvidenceCall) (chunks : List (Nat × Text × ℚ × Bool)) (state : EvidenceHandleState × List Shown) :
    ∃ room, ∀ cap, room ≤ cap →
      showChunks library (withCap request cap) call chunks state =
        showAll request call chunks state := by
  induction chunks generalizing state with
  | nil => exact ⟨0, fun _ _ => rfl⟩
  | cons chunk rest ih =>
      obtain ⟨handles, results⟩ := state
      let minted := handles.evidenceId request.promptMessage ⟨call.localId, chunk.1⟩
      let shown := results ++ [candidate request call minted.2 chunk]
      obtain ⟨room, fits⟩ := ih (minted.1, shown)
      refine ⟨max room (estimateTokens (renderResults library shown)), fun cap enough => ?_⟩
      have within : ¬ cap < estimateTokens (renderResults library shown) :=
        Nat.not_lt.mpr (le_trans (le_max_right _ _) enough)
      have later := fits cap (le_trans (le_max_left _ _) enough)
      simp only [showChunks, showAll]
      exact (if_neg within).trans later

theorem showAll_mem (request : SearchRequest) (call : ProjectedEvidenceCall)
    (chunks : List (Nat × Text × ℚ × Bool)) (state : EvidenceHandleState × List Shown) :
    (∀ shown ∈ state.2, shown ∈ (showAll request call chunks state).2) ∧
      ∀ chunk ∈ chunks, ∃ id, candidate request call id chunk ∈
        (showAll request call chunks state).2 := by
  induction chunks generalizing state with
  | nil => exact ⟨fun _ member => member, by simp⟩
  | cons chunk rest ih =>
      obtain ⟨handles, results⟩ := state
      let minted := handles.evidenceId request.promptMessage ⟨call.localId, chunk.1⟩
      obtain ⟨before, after⟩ := ih (minted.1, results ++ [candidate request call minted.2 chunk])
      refine ⟨fun shown member => before shown (List.mem_append_left _ member), ?_⟩
      intro other member
      obtain rfl | later := List.mem_cons.mp member
      · exact ⟨minted.2, before _ (List.mem_append_right _ (List.mem_singleton.mpr rfl))⟩
      · exact after other later

theorem showCalls_found (library : Library) (request : SearchRequest)
    (calls : List ProjectedEvidenceCall) (state : EvidenceHandleState × List Shown) :
    ∃ room, ∀ cap, room ≤ cap →
      (∀ shown ∈ state.2, shown ∈ (calls.foldl (fun state call => showChunks library
        (withCap request cap) call (shownChunks library call request.query) state) state).2) ∧
      ∀ call ∈ calls, ∀ chunk ∈ shownChunks library call request.query, ∃ id,
        candidate request call id chunk ∈ (calls.foldl (fun state call => showChunks library
          (withCap request cap) call (shownChunks library call request.query) state) state).2 := by
  induction calls generalizing state with
  | nil => exact ⟨0, fun _ _ => ⟨fun _ member => member, by simp⟩⟩
  | cons call rest ih =>
      obtain ⟨room, uncut⟩ := showChunks_uncut library request call
        (shownChunks library call request.query) state
      obtain ⟨room', later⟩ := ih
        (showAll request call (shownChunks library call request.query) state)
      refine ⟨max room room', fun cap enough => ?_⟩
      have first := uncut cap (le_trans (le_max_left _ _) enough)
      obtain ⟨kept, found⟩ := later cap (le_trans (le_max_right _ _) enough)
      obtain ⟨before, here⟩ := showAll_mem request call
        (shownChunks library call request.query) state
      simp only [List.foldl_cons, first]
      refine ⟨fun shown member => kept shown (before shown member), ?_⟩
      intro other member chunk listed
      obtain rfl | more := List.mem_cons.mp member
      · obtain ⟨id, shown⟩ := here chunk listed
        exact ⟨id, kept _ shown⟩
      · exact found other more chunk listed

theorem search_found {request : SearchRequest} (handles : EvidenceHandleState)
    (passes : isGated library projection request = false) {call : ProjectedEvidenceCall}
    (ranked : call ∈ rankedForMessage library projection request.messageId request.query
      request.query) {index : Nat} {text : Text} (chunk : call.chunks[index]? = some text)
    (scores : 0 < bm25LikeScore library request.query text) :
    ∃ room, ∀ cap, room ≤ cap → ∃ id, candidate request call id
      (index, text, bm25LikeScore library request.query text, false) ∈
        (searchForMessageWithHandles library projection (withCap request cap) handles).2 := by
  obtain ⟨room, found⟩ := showCalls_found library request
    (rankedForMessage library projection request.messageId request.query request.query)
    (handles, [])
  refine ⟨room, fun cap enough => ?_⟩
  have listed : (index, text, bm25LikeScore library request.query text, false) ∈
      shownChunks library call request.query := by
    have scored : (index, text, bm25LikeScore library request.query text, false) ∈
        (call.chunks.zipIdx.map fun entry => (entry.2, entry.1,
          bm25LikeScore library request.query entry.1, false)).filter fun chunk =>
            decide (0 < chunk.2.2.1) := by
      refine List.mem_filter.mpr ⟨List.mem_map.mpr ⟨(text, index), ?_, rfl⟩, by simpa using scores⟩
      exact List.mk_mem_zipIdx_iff_getElem?.mpr chunk
    unfold shownChunks
    simp only
    rw [if_neg]
    · exact List.mem_mergeSort.mpr scored
    · intro none
      exact List.eq_nil_iff_forall_not_mem.mp none _ (List.mem_mergeSort.mpr scored)
  have ungated : isGated library projection (withCap request cap) = false := passes
  simp only [searchForMessageWithHandles, ungated, Bool.false_eq_true, ↓reduceIte]
  exact (found cap enough).2 call ranked _ listed

end Found

section Citable

def Excerpt (excerpt text : Text) : Prop :=
  excerpt = text ∨ ∃ kept, excerpt = kept ++ ['…'] ∧ kept <+: text

theorem bounded_excerpt (text : Text) (cap : Nat) : Excerpt (bounded text cap) text := by
  unfold bounded
  split
  next => exact Or.inl rfl
  next => exact Or.inr ⟨_, rfl, List.take_prefix _ _⟩

/-- What the chunks of a result have of it. -/
structure Covers (parse : Text → Option Json) (result : Text) (chunks : List Text) : Prop where
  scalars : ∀ value scalar, parse result = some value → scalar ∈ keptScalars value →
    ∃ part, scalar ∈ Evidence.scalars part ∧ part.render ∈ chunks
  words : parse result = none → ∀ word ∈ Frona.Text.words result,
    ∃ chunk ∈ chunks, word ∈ Frona.Text.words chunk

def Shown.Finds (library : Library) (projection : ToolEvidenceProjection) (request : SearchRequest)
    (handles : EvidenceHandleState) (target : EvidenceHandleTarget) (text : Text) : Prop :=
  ∃ room, ∀ cap, room ≤ cap → ∃ shown ∈
    (searchForMessageWithHandles library projection (withCap request cap) handles).2,
      shown.target = target ∧ shown.text = bounded text 2000 ∧ shown.wholeResult = false

structure Citable (library : Library) (conversation : Conversation)
    (projection : ToolEvidenceProjection) (world : World) : Prop where
  resolves : ∀ shown ∈ world.shown, shown.wholeResult = false → ∃ evidence,
    resolveEvidenceId projection world.handles shown.assertionMessageId shown.evidenceId =
      some evidence ∧ Excerpt shown.text evidence.text
  -- for other messages too, where it is in their scope, and for none else
  everywhere : ∀ shown ∈ world.shown, shown.wholeResult = false → ∀ message,
    (resolveEvidenceId projection world.handles message shown.evidenceId).isSome = true ↔
      ∃ scope, projection.byAssertionMessage message = some scope ∧
        shown.target.callLocalId ∈ scope
  inScope : ∀ shown ∈ world.shown, ∀ message evidence,
    resolveEvidenceId projection world.handles message shown.evidenceId = some evidence →
      conversation.InScope message evidence.call
  covers : ∀ call ∈ projection.calls, Covers library.parse call.result call.chunks
  finds : ∀ (request : SearchRequest) (call : ProjectedEvidenceCall) (index : Nat) (text : Text)
    (token other : Text), isGated library projection request = false →
      call ∈ projection.qualifiedForMessage request.messageId →
      token ∈ tokens library request.query → token ∈ tokens library call.searchableText →
      call.chunks[index]? = some text →
      other ∈ tokens library request.query → other ∈ tokens library text →
      Shown.Finds library projection request world.handles ⟨call.localId, index⟩ text

variable {library : Library} {conversation : Conversation} {projection : ToolEvidenceProjection}

theorem resolve_minted {handles : EvidenceHandleState} (minted : Minted handles)
    {target : EvidenceHandleTarget} {id : Text} (found : handles.byTarget target = some id)
    {call : ProjectedEvidenceCall} (known : projection.byLocalId target.callLocalId = some call)
    {text : Text} (chunk : call.chunks[target.chunkIndex]? = some text) (message : Text) :
    resolveEvidenceId projection handles message id =
      (projection.byAssertionMessage message).bind fun scope =>
        if target.callLocalId ∈ scope then some ⟨call, text⟩ else none := by
  simp [resolveEvidenceId, (minted target id found).2, known, chunk]

theorem resolve_some {handles : EvidenceHandleState} (minted : Minted handles)
    {target : EvidenceHandleTarget} {id : Text} (found : handles.byTarget target = some id)
    {message : Text} {evidence : ResolvedToolEvidence}
    (resolved : resolveEvidenceId projection handles message id = some evidence) :
    ∃ scope, projection.byAssertionMessage message = some scope ∧ target.callLocalId ∈ scope ∧
      projection.byLocalId target.callLocalId = some evidence.call := by
  simp only [resolveEvidenceId, (minted target id found).2, Option.bind_eq_bind, Option.bind_some,
    Option.bind_eq_some_iff] at resolved
  obtain ⟨call, known, scope, linked, inside⟩ := resolved
  split at inside
  next listed =>
    obtain ⟨text, _, same⟩ := Option.bind_eq_some_iff.mp inside
    obtain rfl := Option.some.inj same
    exact ⟨scope, linked, listed, known⟩
  next => cases inside

/-- Whatever is searched for, an id shown for a chunk resolves to it, for the messages in whose
scope the execution is and no other; and what the chunks have of a result can be found. -/
theorem evidence_citable (library : Library) (conversation : Conversation)
    (requests : List SearchRequest) :
    Citable library conversation (.newWithTaskEvidence library conversation)
      (searches library (.newWithTaskEvidence library conversation) requests) := by
  have numbered : Numbered library conversation (.newWithTaskEvidence library conversation) :=
    numbered_newWithTaskEvidence
  generalize ToolEvidenceProjection.newWithTaskEvidence library conversation = projection
    at numbered
  have sound := sound_searches library projection requests
  refine ⟨?_, ?_, ?_, ?_, ?_⟩
  next =>
    intro shown member part
    have kept := sound.kept shown member
    obtain ⟨call, scope, known, linked, listed, chunk⟩ := kept.shows.call
    obtain ⟨text, found, same⟩ := chunk part
    refine ⟨⟨call, text⟩, ?_, same ▸ bounded_excerpt text 2000⟩
    rw [resolve_minted sound.minted kept.minted known found, linked]
    simp [listed]
  next =>
    intro shown member part message
    have kept := sound.kept shown member
    obtain ⟨call, _, known, _, _, chunk⟩ := kept.shows.call
    obtain ⟨text, found, _⟩ := chunk part
    rw [resolve_minted sound.minted kept.minted known found]
    cases linked : projection.byAssertionMessage message with
    | none => simp
    | some scope => by_cases listed : shown.target.callLocalId ∈ scope <;> simp [listed]
  next =>
    intro shown member message evidence resolved
    have kept := sound.kept shown member
    obtain ⟨scope, linked, listed, known⟩ := resolve_some sound.minted kept.minted resolved
    exact numbered.found linked listed known
  next =>
    intro call member
    rw [numbered.chunked call member]
    exact ⟨fun value scalar parsed kept => evidenceChunks_scalars parsed kept,
      fun plain word found => evidenceChunks_words plain found⟩
  next =>
    intro request call index text token other passes qualified asked stands chunk asked' stands'
    obtain ⟨room, found⟩ := search_found (searches library projection requests).handles passes
      (ranked_of_token qualified asked stands) chunk (bm25LikeScore_pos asked' stands')
    refine ⟨room, fun cap enough => ?_⟩
    obtain ⟨id, shown⟩ := found cap enough
    exact ⟨_, shown, rfl, rfl, rfl⟩

def emptyArray : Text := "[]".toList

def mixedObject : Text := "\x7b\"rows\":[1],\"total\":7\x7d".toList

def plainLibrary : Library where
  parse text :=
    if text = emptyArray then some (.array [])
    else if text = mixedObject then
      some (.object [("rows".toList, .array [.number ['1']]), ("total".toList, .number ['7'])])
    else none
  pretty := Json.render
  redact := id
  sanitizeArguments := id
  classifyExecution _ := .evidence
  tables := ⟨Frona.Text.plainForm, Frona.Text.sharpFold, Char.isAlpha, Char.isDigit, fun _ => false⟩
  isAlphanumeric := Char.isAlphanum
  ln _ := 0
  ln_nonneg _ _ := le_refl 0
  showScore _ := "1.0".toList

def fetched (result : Text) : Conversation where
  calls := [⟨"c".toList, "chat".toList, ['a'], 1, "fetch".toList,
    .object [("query".toList, .string "deploy".toList)], result, true, 0⟩]
  agentMessageIds := [['a'], ['b']]
  assertionMessageIds := [['a'], ['b']]
  taskCalls := []
  lookbackMessages := 10

def askDeploy : SearchRequest := ⟨"m1".toList, ['b'], "deploy".toList, 4000, fun _ => none⟩

def askedFor (result : Text) : World :=
  searches plainLibrary (.newWithTaskEvidence plainLibrary (fetched result)) [askDeploy]

def resolvedFor (result message id : Text) : Option ResolvedToolEvidence :=
  resolveEvidenceId (.newWithTaskEvidence plainLibrary (fetched result)) (askedFor result).handles
    message id

theorem shown_ids_and_lost_scalars :
    (∃ shown ∈ (askedFor emptyArray).shown,
      (resolvedFor emptyArray shown.assertionMessageId shown.evidenceId).isSome = false) ∧
    (∃ shown ∈ (askedFor "deploy done".toList).shown, shown.assertionMessageId ≠ ['a'] ∧
      (resolvedFor "deploy done".toList ['a'] shown.evidenceId).isSome = true) ∧
    ∃ value, plainLibrary.parse mixedObject = some value ∧
      Json.number ['7'] ∈ Evidence.scalars value ∧
      evidenceChunks plainLibrary.parse mixedObject = [['1']] := by
  refine ⟨by decide +kernel, by decide +kernel, _, rfl, ?_, by decide +kernel⟩
  simp [Evidence.scalars, scalarsOfFields, scalarsOf]

end Citable

end Frona.Evidence
