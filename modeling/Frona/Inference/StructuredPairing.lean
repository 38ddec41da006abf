import Frona.Inference.Pairing
import Frona.Inference.Structured
import Mathlib.Data.Finset.Card
import Mathlib.Data.Finset.Dedup
import Mathlib.Data.List.Dedup

set_option autoImplicit false

namespace Frona.Inference

open Utf8
open Frona.Chat (Json)

section Protocol

def resultsBefore (history : List RigMessage) : List Text :=
  (history.takeWhile fun message => !message.isAssistant).flatMap RigMessage.resultIds

def EveryCallAnswered : List RigMessage → Prop
  | [] => True
  | message :: rest =>
      (message.isAssistant = true →
        (resultsBefore rest).Perm message.callIds ∧ (resultsBefore rest).Nodup) ∧
      EveryCallAnswered rest

def submitCalls (contents : List AssistantContent) : List RigToolCall :=
  (toolCallsOf contents).filter RigToolCall.isSubmit

def explorationCalls (contents : List AssistantContent) : List RigToolCall :=
  (toolCallsOf contents).filter fun call => !call.isSubmit

def SubmitsOnce (contents : List AssistantContent) : Prop :=
  (submitCalls contents).length ≤ 1 ∧ ((toolCallsOf contents).map RigToolCall.id).Nodup

def Exchange.SubmitsOnce (exchange : Exchange) : Prop :=
  ∀ contents, exchange.response = .ok contents → Frona.Inference.SubmitsOnce contents

theorem resultsBefore_append (front results : List RigMessage) (message : RigMessage)
    (assistant : message.isAssistant = true) :
    resultsBefore (front ++ message :: results) = resultsBefore front := by
  induction front with
  | nil => simp [resultsBefore, assistant]
  | cons first rest ih =>
      unfold resultsBefore at ih ⊢
      rw [List.cons_append, List.takeWhile_cons, List.takeWhile_cons]
      split
      next => simp only [List.flatMap_cons, ih]
      next => rfl

theorem resultsBefore_users {results : List RigMessage}
    (users : ∀ message ∈ results, message.isAssistant = false) :
    resultsBefore results = results.flatMap RigMessage.resultIds := by
  rw [resultsBefore, List.takeWhile_eq_self_iff.mpr]
  intro message member
  simp [users message member]

theorem everyCallAnswered_users {results : List RigMessage}
    (users : ∀ message ∈ results, message.isAssistant = false) : EveryCallAnswered results := by
  induction results with
  | nil => trivial
  | cons message rest ih =>
      have user := users message List.mem_cons_self
      refine ⟨by simp [user], ih fun other member => users other (List.mem_cons_of_mem _ member)⟩

theorem everyCallAnswered_append (front results : List RigMessage) (message : RigMessage)
    (assistant : message.isAssistant = true)
    (users : ∀ result ∈ results, result.isAssistant = false) :
    EveryCallAnswered (front ++ message :: results) ↔
      EveryCallAnswered front ∧ (results.flatMap RigMessage.resultIds).Perm message.callIds ∧
        (results.flatMap RigMessage.resultIds).Nodup := by
  induction front with
  | nil =>
      simp only [List.nil_append, EveryCallAnswered, assistant, resultsBefore_users users,
        everyCallAnswered_users users]
      simp
  | cons first rest ih =>
      simp only [List.cons_append, EveryCallAnswered, ih,
        resultsBefore_append rest results message assistant]
      tauto

theorem perm_submitsOnce (contents : List AssistantContent) :
    ((explorationCalls contents).map RigToolCall.id ++
      ((toolCallsOf contents).find? RigToolCall.isSubmit).toList.map RigToolCall.id).Perm
        ((toolCallsOf contents).map RigToolCall.id) ∧
    ((explorationCalls contents).map RigToolCall.id ++
      ((toolCallsOf contents).find? RigToolCall.isSubmit).toList.map RigToolCall.id).Nodup ↔
      SubmitsOnce contents := by
  generalize given : (explorationCalls contents).map RigToolCall.id ++
    ((toolCallsOf contents).find? RigToolCall.isSubmit).toList.map RigToolCall.id = results
  have parts : ((explorationCalls contents).map RigToolCall.id ++
      (submitCalls contents).map RigToolCall.id).Perm
        ((toolCallsOf contents).map RigToolCall.id) := by
    rw [← List.map_append]
    exact (List.perm_append_comm.trans (List.filter_append_perm _ _)).map _
  have first : (toolCallsOf contents).find? RigToolCall.isSubmit =
      (submitCalls contents).head? := List.head?_filter.symm
  have one : results.Perm ((toolCallsOf contents).map RigToolCall.id) ↔
      (submitCalls contents).length ≤ 1 := by
    constructor
    · intro perm
      have lengths := (perm.trans parts.symm).length_eq
      simp only [← given, first, List.length_append, List.length_map] at lengths
      cases calls : submitCalls contents with
      | nil => simp
      | cons call rest =>
          simp only [calls, List.head?_cons, Option.toList_some, List.length_cons,
            List.length_nil] at lengths ⊢
          omega
    · intro single
      have all : ((submitCalls contents).head?).toList = submitCalls contents := by
        match calls : submitCalls contents with
        | [] => rfl
        | [call] => rfl
        | call :: other :: rest => simp [calls] at single
      simpa only [← given, first, all] using parts
  constructor
  · intro both
    exact ⟨one.mp both.1, both.1.nodup_iff.mp both.2⟩
  · intro both
    have perm := one.mpr both.1
    exact ⟨perm, perm.nodup_iff.mpr both.2⟩

end Protocol

namespace StructuredConversation

variable {T : Type} (around : Partners T)

section Explored

structure SameAsked (before after : StructuredConversation) : Prop where
  exchanges : after.exchanges = before.exchanges
  requestsUsed : after.requestsUsed = before.requestsUsed
  lastSubmit : after.lastSubmit = before.lastSubmit

theorem exploreCall_answers (allowed : Bool) (conversation : StructuredConversation)
    {call : RigToolCall} (explores : call.isSubmit = false) :
    ∃ message, message.isAssistant = false ∧ message.resultIds = [call.id] ∧
      exploreCall around allowed conversation call = { conversation with
        history := conversation.history ++ [message]
        executed := conversation.executed ++
          if allowed then [(conversation.requestsUsed, call)] else [] } := by
  cases allowed with
  | true => exact ⟨_, rfl, buildToolResultMessage_resultIds call _ [], by
      simp [exploreCall, explores, push]; rfl⟩
  | false => exact ⟨_, rfl, buildToolResultMessage_resultIds call limitReached [], by
      simp [exploreCall, explores, push]⟩

theorem foldl_explored (allowed : Bool) (calls : List RigToolCall)
    (conversation : StructuredConversation) :
    let after := calls.foldl (exploreCall around allowed) conversation
    SameAsked conversation after ∧
    (∃ results, after.history = conversation.history ++ results ∧
      (∀ result ∈ results, result.isAssistant = false) ∧
      results.flatMap RigMessage.resultIds =
        (calls.filter fun call => !call.isSubmit).map RigToolCall.id) ∧
    after.executed = conversation.executed ++
      if allowed then (calls.filter fun call => !call.isSubmit).map
        (Prod.mk conversation.requestsUsed) else [] := by
  induction calls generalizing conversation with
  | nil => exact ⟨⟨rfl, rfl, rfl⟩, ⟨[], by simp⟩, by simp⟩
  | cons call rest ih =>
      obtain ⟨same, ⟨results, history, users, answered⟩, executed⟩ :=
        ih (exploreCall around allowed conversation call)
      rw [List.foldl_cons]
      cases submits : call.isSubmit with
      | true =>
          have kept : exploreCall around allowed conversation call = conversation := by
            simp [exploreCall, submits]
          rw [kept] at same history executed ⊢
          rw [List.filter_cons_of_neg (by simp [submits])]
          exact ⟨same, ⟨results, history, users, answered⟩, executed⟩
      | false =>
          obtain ⟨message, user, result, asked⟩ :=
            exploreCall_answers around allowed conversation submits
          rw [asked] at same history executed ⊢
          rw [List.filter_cons_of_pos (by simp [submits])]
          refine ⟨⟨same.exchanges, same.requestsUsed, same.lastSubmit⟩,
            ⟨message :: results, ?_, ?_, ?_⟩, ?_⟩
          · simp [history]
          · intro other member
            cases List.mem_cons.mp member with
            | inl first => exact first ▸ user
            | inr later => exact users other later
          · simp [result, answered]
          · rw [executed]
            cases allowed <;> simp

def turnsRun (conversation : StructuredConversation) : List Nat :=
  (conversation.executed.map Prod.fst).dedup

theorem dedup_append_le (turns more : List Nat) (turn : Nat) (same : ∀ other ∈ more, other = turn) :
    (turns ++ more).dedup.length ≤ turns.dedup.length + 1 := by
  rw [← List.card_toFinset, ← List.card_toFinset, List.toFinset_append]
  have one : more.toFinset ⊆ {turn} := by
    intro other member
    exact Finset.mem_singleton.mpr (same other (List.mem_toFinset.mp member))
  calc (turns.toFinset ∪ more.toFinset).card ≤ turns.toFinset.card + more.toFinset.card :=
        Finset.card_union_le _ _
    _ ≤ turns.toFinset.card + 1 := Nat.add_le_add_left (Finset.card_le_card one) _

theorem explore_answers (conversation : StructuredConversation)
    (contents : List AssistantContent) :
    let after := (conversation.explore around contents).1
    SameAsked conversation after ∧
    (∃ message results, after.history = conversation.history ++ message :: results ∧
      message.isAssistant = true ∧
      message.callIds = (toolCallsOf contents).map RigToolCall.id ∧
      (∀ result ∈ results, result.isAssistant = false) ∧
      results.flatMap RigMessage.resultIds = (explorationCalls contents).map RigToolCall.id) ∧
    after.turnsRun.length + after.toolTurnsLeft ≤
      conversation.turnsRun.length + conversation.toolTurnsLeft := by
  obtain ⟨message, pushed, assistant, calls⟩ :=
    processModelResponse_eq contents conversation.history
  obtain ⟨same, ⟨results, history, users, answered⟩, executed⟩ :=
    foldl_explored around (decide (0 < conversation.toolTurnsLeft))
      (toolCallsOf contents)
      { conversation with history := (processModelResponse contents conversation.history).1 }
  have left := foldl_toolTurnsLeft around (decide (0 < conversation.toolTurnsLeft))
    (toolCallsOf contents)
    { conversation with history := (processModelResponse contents conversation.history).1 }
  simp only [explore]
  generalize (toolCallsOf contents).foldl (exploreCall around _) _ = after
    at same history executed left ⊢
  simp only [pushed, List.append_assoc, List.singleton_append] at history
  have grown : ∃ message results, after.history = conversation.history ++ message :: results ∧
      message.isAssistant = true ∧
      message.callIds = (toolCallsOf contents).map RigToolCall.id ∧
      (∀ result ∈ results, result.isAssistant = false) ∧
      results.flatMap RigMessage.resultIds = (explorationCalls contents).map RigToolCall.id :=
    ⟨message, results, history, assistant, calls, users, answered⟩
  have asked : SameAsked conversation after :=
    ⟨same.exchanges, same.requestsUsed, same.lastSubmit⟩
  simp only at executed left ⊢
  split
  next explored =>
    refine ⟨⟨asked.exchanges, asked.requestsUsed, asked.lastSubmit⟩, grown, ?_⟩
    have allowed := (Bool.and_eq_true_iff.mp explored).2
    have more := dedup_append_le (conversation.executed.map Prod.fst)
      (((toolCallsOf contents).filter fun call => !call.isSubmit).map
        fun _ => conversation.requestsUsed) conversation.requestsUsed (by simp)
    rw [if_pos allowed] at executed
    have positive : 0 < conversation.toolTurnsLeft := of_decide_eq_true allowed
    simp only [turnsRun, executed, List.map_append, List.map_map, left, Function.comp_def]
    omega
  next never =>
    refine ⟨asked, grown, ?_⟩
    have none : after.executed = conversation.executed := by
      rw [executed]
      split
      next allowed =>
        have quiet : (toolCallsOf contents).filter (fun call => !call.isSubmit) = [] := by
          rw [List.filter_eq_nil_iff]
          intro call member explores
          exact never (Bool.and_eq_true_iff.mpr
            ⟨List.any_eq_true.mpr ⟨call, member, explores⟩, allowed⟩)
        simp [quiet]
      next => simp
    rw [turnsRun, turnsRun, none, left]

end Explored

section Runs

def submitResult (text : Text) (submit : Text × Option Text) : RigMessage :=
  .user [.toolResult ⟨submit.1, submit.2, submitToolName, [text]⟩]

def answered (conversation : StructuredConversation) (text : Text) : List RigMessage :=
  conversation.history ++ conversation.lastSubmit.toList.map (submitResult text)

theorem answerPending_answered (conversation : StructuredConversation) (text other : Text) :
    (conversation.answerPendingSubmission text).1.answered other = conversation.answered text := by
  cases pending : conversation.lastSubmit with
  | none => simp [answerPendingSubmission, answered, pending]
  | some submit => simp [answerPendingSubmission, answered, pending, push, submitResult]

theorem conclude_answers (conversation : StructuredConversation) (explored : Bool)
    (submit : Option RigToolCall) (quiet : conversation.lastSubmit = none) :
    let after := (conversation.conclude around explored submit).1
    after.exchanges = conversation.exchanges ∧ after.turnsRun = conversation.turnsRun ∧
    after.toolTurnsLeft = conversation.toolTurnsLeft ∧
    ∀ text, ∃ more, after.answered text = conversation.history ++ more ∧
      (∀ result ∈ more, result.isAssistant = false) ∧
      more.flatMap RigMessage.resultIds = submit.toList.map RigToolCall.id := by
  have one (id : Text) (callId : Option Text) (text : Text) :
      (submitResult text (id, callId)).isAssistant = false ∧
        (submitResult text (id, callId)).resultIds = [id] := ⟨rfl, rfl⟩
  cases submit with
  | some submit =>
      simp only [conclude]
      split
      next =>
        refine ⟨rfl, rfl, rfl, fun text => ⟨[submitResult text (submit.id, submit.provider)], rfl, ?_⟩⟩
        simp [one]
      next error _ =>
        refine ⟨rfl, rfl, rfl, fun text =>
          ⟨[submitResult (malformed error) (submit.id, submit.provider)], ?_, ?_⟩⟩
        · simp [answerPendingSubmission, answered, push, submitResult]
        · simp [one]
  | none =>
      cases explored with
      | true => exact ⟨rfl, rfl, rfl, fun text => ⟨[], by simp [conclude, answered, quiet]⟩⟩
      | false =>
          refine ⟨rfl, rfl, rfl, fun text => ⟨[.userText missing], ?_, by
            simp [RigMessage.isAssistant, RigMessage.userText], by simp⟩⟩
          simp [conclude, answered, quiet, push]

/-- What holds between the calls of the caller. -/
structure Kept (maxToolTurns : Nat) (conversation : StructuredConversation) : Prop where
  asked : (∀ exchange ∈ conversation.exchanges, EveryCallAnswered exchange.history) ↔
    ∀ exchange ∈ conversation.exchanges.dropLast, exchange.SubmitsOnce
  answered : ∀ text, EveryCallAnswered (conversation.answered text) ↔
    ∀ exchange ∈ conversation.exchanges, exchange.SubmitsOnce
  turns : conversation.turnsRun.length + conversation.toolTurnsLeft ≤ maxToolTurns

theorem Kept.answer {maxToolTurns : Nat} {conversation : StructuredConversation}
    (kept : conversation.Kept maxToolTurns) (text : Text) :
    (conversation.answerPendingSubmission text).1.Kept maxToolTurns := by
  have answers := answerPending_answered conversation text
  cases pending : conversation.lastSubmit with
  | none =>
      have same : (conversation.answerPendingSubmission text).1 = conversation := by
        simp [answerPendingSubmission, pending]
      rwa [same]
  | some submit =>
      have same : (conversation.answerPendingSubmission text).1.exchanges =
          conversation.exchanges ∧
          (conversation.answerPendingSubmission text).1.turnsRun = conversation.turnsRun ∧
          (conversation.answerPendingSubmission text).1.toolTurnsLeft =
            conversation.toolTurnsLeft := by
        simp [answerPendingSubmission, pending, push, turnsRun]
      refine ⟨?_, fun other => ?_, ?_⟩
      · rw [same.1]
        exact kept.asked
      · rw [answers, same.1]
        exact kept.answered text
      · rw [same.2.1, same.2.2]
        exact kept.turns

theorem ask_adds {conversation asked : StructuredConversation}
    {response : Except Text (List AssistantContent)}
    (same : conversation.ask around = (asked, response)) :
    ∃ exchange : Exchange, exchange.history = conversation.history ∧
      exchange.response = response ∧ asked.exchanges = conversation.exchanges ++ [exchange] ∧
      asked.history = conversation.history ∧ asked.lastSubmit = conversation.lastSubmit ∧
      asked.turnsRun = conversation.turnsRun ∧
      asked.toolTurnsLeft = conversation.toolTurnsLeft := by
  obtain ⟨rfl, rfl⟩ := Prod.mk.inj same
  exact ⟨_, rfl, rfl, rfl, rfl, rfl, rfl, rfl⟩

theorem Kept.turn {maxToolTurns : Nat} {conversation : StructuredConversation}
    (kept : conversation.Kept maxToolTurns) (quiet : conversation.lastSubmit = none) :
    (conversation.turn around).1.Kept maxToolTurns ∧
    (conversation.turn around).1.exchanges.length = conversation.exchanges.length + 1 ∧
    ((conversation.turn around).2 = none → (conversation.turn around).1.lastSubmit = none) := by
  have before : EveryCallAnswered conversation.history ↔
      ∀ exchange ∈ conversation.exchanges, exchange.SubmitsOnce := by
    simpa [StructuredConversation.answered, quiet] using kept.answered []
  have drops (exchange : Exchange) (same : exchange.history = conversation.history) :
      (∀ other ∈ conversation.exchanges ++ [exchange], EveryCallAnswered other.history) ↔
        ∀ other ∈ (conversation.exchanges ++ [exchange]).dropLast, other.SubmitsOnce := by
    rw [List.dropLast_concat]
    simp only [List.forall_mem_append, List.forall_mem_singleton, same, before]
    refine ⟨fun all => all.2, fun all => ⟨kept.asked.mpr fun other member => ?_, all⟩⟩
    exact all other (List.mem_of_mem_dropLast member)
  unfold StructuredConversation.turn
  split
  next asked error same =>
    obtain ⟨exchange, given, response, exchanges, history, still, run, left⟩ := ask_adds around same
    refine ⟨⟨?_, fun text => ?_, ?_⟩, by simp [exchanges], by simp⟩
    · simp only [exchanges]
      exact drops exchange given
    · simp only [StructuredConversation.answered, still, quiet, history, exchanges,
        List.forall_mem_append, List.forall_mem_singleton]
      simp [before, Exchange.SubmitsOnce, response]
    · simp only [run, left]
      exact kept.turns
  next asked contents same =>
    obtain ⟨exchange, given, response, exchanges, history, still, run, left⟩ := ask_adds around same
    obtain ⟨fields, ⟨message, results, grown, assistant, calls, users, found⟩, turns⟩ :=
      explore_answers around asked contents
    have quieted := fields.lastSubmit.trans (still.trans quiet)
    obtain ⟨concluded, ran, rest, ends⟩ := conclude_answers around
      (asked.explore around contents).1 (asked.explore around contents).2
      ((toolCallsOf contents).find? RigToolCall.isSubmit) quieted
    rw [fields.exchanges, exchanges] at concluded
    refine ⟨⟨?_, fun text => ?_, ?_⟩, by simp [concluded], fun again => ?_⟩
    · simp only [concluded]
      exact drops exchange given
    · obtain ⟨more, answers, others, submission⟩ := ends text
      simp only [answers, concluded]
      rw [grown, List.append_assoc, List.cons_append, everyCallAnswered_append _ _ _ assistant
        fun result member => (List.mem_append.mp member).elim (users result) (others result)]
      rw [List.flatMap_append, found, submission, calls, perm_submitsOnce, history, before]
      have ours : exchange.SubmitsOnce ↔ SubmitsOnce contents := by
        simp [Exchange.SubmitsOnce, response]
      simp only [List.forall_mem_append, List.forall_mem_singleton, ours]
    · simp only [ran, rest]
      rw [run, left] at turns
      exact Nat.le_trans turns kept.turns
    · generalize ended : (asked.explore around contents).1.conclude around _ _ = after at again ⊢
      obtain ⟨conversation, result⟩ := after
      obtain rfl : result = none := again
      rw [(conclude_again around ended).1]
      exact quieted

theorem Kept.attempts {maxToolTurns : Nat} {conversation : StructuredConversation}
    (kept : conversation.Kept maxToolTurns) (quiet : conversation.lastSubmit = none) :
    (conversation.attempts around).1.Kept maxToolTurns ∧
    (conversation.attempts around).1.exchanges.length ≤
      conversation.exchanges.length + conversation.toolTurnsLeft + 1 := by
  fun_induction StructuredConversation.attempts around conversation with
  | case1 conversation after result same =>
      obtain ⟨next, count, _⟩ := kept.turn around quiet
      rw [same] at next count
      exact ⟨next, by simp only at count ⊢; omega⟩
  | case2 conversation after same ih =>
      obtain ⟨next, count, still⟩ := kept.turn around quiet
      have fewer := turn_decreases around same
      rw [same] at next count still
      obtain ⟨last, bound⟩ := ih next (still rfl)
      exact ⟨last, by simp only at count; omega⟩

theorem Kept.nextAttempt {maxToolTurns : Nat} {conversation : StructuredConversation}
    (kept : conversation.Kept maxToolTurns) :
    (conversation.nextAttempt around).1.Kept maxToolTurns ∧
    (conversation.nextAttempt around).1.exchanges.length ≤
      conversation.exchanges.length + maxToolTurns + 1 := by
  unfold StructuredConversation.nextAttempt
  split
  next => exact ⟨kept, by simp only; omega⟩
  next quiet =>
    obtain ⟨next, bound⟩ := kept.attempts around (by simpa using quiet)
    have turns := kept.turns
    exact ⟨next, by omega⟩

theorem kept_new (explorationToolDefs : List RigToolDefinition) (schema : Json)
    (system initial : Text) (maxToolTurns : Nat) :
    (new explorationToolDefs schema system initial maxToolTurns).Kept maxToolTurns where
  asked := by simp [new]
  answered text := by
    simp [new, answered, EveryCallAnswered, RigMessage.userText, RigMessage.isAssistant]
  turns := by simp [new, turnsRun]

theorem Kept.run {maxToolTurns : Nat} {conversation : StructuredConversation}
    (kept : conversation.Kept maxToolTurns) (steps : List CallerStep) :
    (conversation.run around steps).Kept maxToolTurns := by
  induction steps generalizing conversation with
  | nil => exact kept
  | cons step rest ih =>
      cases step with
      | nextAttempt => exact ih (kept.nextAttempt around).1
      | rejectSubmission reason => exact ih (kept.answer reason)

/-- Exploration and each attempt are bounded. The requests keep the tool protocol just when every
response that another request follows submits at most once, under ids of its own. -/
theorem structured_requests_paired
    (explorationToolDefs : List RigToolDefinition) (schema : Json) (system initial : Text)
    (maxToolTurns : Nat) (steps : List CallerStep) :
    let conversation :=
      (new explorationToolDefs schema system initial maxToolTurns).run around steps
    conversation.turnsRun.length ≤ maxToolTurns ∧
    (conversation.nextAttempt around).1.exchanges.length ≤
      conversation.exchanges.length + maxToolTurns + 1 ∧
    ((∀ exchange ∈ conversation.exchanges, EveryCallAnswered exchange.history) ↔
      ∀ exchange ∈ conversation.exchanges.dropLast, exchange.SubmitsOnce) := by
  have kept := (kept_new explorationToolDefs schema system initial maxToolTurns).run
    around steps
  exact ⟨Nat.le_of_add_right_le kept.turns, (kept.nextAttempt around).2, kept.asked⟩

end Runs

section TwoSubmissions

theorem nextAttempt_ended {T : Type} {around : Partners T}
    {conversation : StructuredConversation} {result : Except AppError (AnswerAttempt T)}
    (quiet : conversation.lastSubmit = none)
    (ended : (conversation.turn around).2 = some result) :
    (conversation.nextAttempt around).1 = (conversation.turn around).1 := by
  rw [nextAttempt, quiet, attempts]
  simp only [Option.isSome_none, Bool.false_eq_true, if_false]
  split
  next same => simp [same]
  next same => simp [same] at ended

def submission (id : Text) : AssistantContent :=
  .toolCall { id := id, name := submitToolName, arguments := .object [] }

def submitsTwice : Partners Unit where
  respond _ := .ok [submission ['a'], submission ['b']]
  execute _ _ := .ok []
  deserializeSubmission _ := .error "missing field".toList

theorem second_submission_unanswered :
    ¬ ∀ (around : Partners Unit) (explorationToolDefs : List RigToolDefinition) (schema : Json)
      (system initial : Text) (maxToolTurns : Nat) (steps : List CallerStep),
      ∀ exchange ∈ ((new explorationToolDefs schema system initial maxToolTurns).run around
        steps).exchanges, EveryCallAnswered exchange.history := by
  intro claimed
  have run : (new [] (.object []) [] [] 0).run submitsTwice [.nextAttempt, .nextAttempt] =
      ((((new [] (.object []) [] [] 0).turn submitsTwice).1).turn submitsTwice).1 := by
    simp only [StructuredConversation.run, List.foldl_cons, List.foldl_nil, CallerStep.perform]
    have first := @nextAttempt_ended Unit submitsTwice (new [] (.object []) [] [] 0) _ rfl rfl
    rw [first]
    exact nextAttempt_ended rfl rfl
  have asked := claimed submitsTwice [] (.object []) [] [] 0 [.nextAttempt, .nextAttempt]
  rw [run] at asked
  have last := asked _ (List.mem_cons_of_mem _ (List.mem_singleton_self _))
  have second := last.2.1 rfl
  exact absurd second.1.length_eq (by decide)

end TwoSubmissions

end StructuredConversation

end Frona.Inference
