import Frona.Inference.Pairing

set_option autoImplicit false

namespace Frona.Inference

open Utf8

section Turns

variable {around : Surroundings}

theorem executeToolCalls_adds {contents : List AssistantContent} {before after : Exec}
    (done : executeToolCalls around contents before = .ok after) :
    ∃ results, before.Adds after results ∧
      (after.externalTools = [] → around.cancelled after.moment = false →
        results.flatMap RigMessage.resultIds = (toolCallsOf contents).map (·.id)) := by
  have adds := executeBatches_adds _ done
  rwa [batchToolCalls_flatten] at adds

theorem not_cancelled_before {moment later : Nat} (bound : moment ≤ later)
    (alive : around.cancelled later = false) : around.cancelled moment = false := by
  by_contra cancelled
  have := around.stays moment later (by simpa using cancelled) bound
  simp [alive] at this

theorem afterCalls_goesOn (loop : Loop) (turnText : Text) (exec : Exec) {next : Loop}
    {outcome : TurnEnd} (done : loop.afterCalls around turnText exec = (next, outcome)) :
    next.requests = loop.requests ∧ (outcome = none →
      around.cancelled exec.moment = false ∧ exec.externalTools = [] ∧
      next.chatHistory.map RigMessage.pairing = exec.chatHistory.map RigMessage.pairing) := by
  simp only [Loop.afterCalls] at done
  generalize readied : (if loop.textOnly = true then _ else _) = ready at done
  have requests : ready.requests = loop.requests := by
    rw [← readied]
    split <;> rfl
  have moment : exec.moment ≤ ready.moment := by
    rw [← readied]
    split
    · exact Nat.le_succ _
    · exact le_rfl
  have history : ready.chatHistory.map RigMessage.pairing =
      exec.chatHistory.map RigMessage.pairing := by
    rw [← readied]
    split
    · exact replaceImages_pairing _ _
    · rfl
  split at done
  · obtain ⟨rfl, rfl⟩ := Prod.mk.inj done
    exact ⟨requests, by simp⟩
  · next alive =>
      split at done
      · obtain ⟨rfl, rfl⟩ := Prod.mk.inj done
        exact ⟨requests, by simp⟩
      · split at done
        · obtain ⟨rfl, rfl⟩ := Prod.mk.inj done
          exact ⟨requests, by simp⟩
        · next settled =>
            split at done
            · obtain ⟨rfl, rfl⟩ := Prod.mk.inj done
              exact ⟨requests, by simp⟩
            · obtain ⟨rfl, rfl⟩ := Prod.mk.inj done
              exact ⟨requests, fun _ =>
                ⟨not_cancelled_before moment (by simpa using alive), by simpa using settled,
                  history⟩⟩

variable {given : List RigMessage}

variable (around given) in
def Issued (loop : Loop) : Prop :=
  (∀ request ∈ loop.requests, AnsweredSince given request.history) ↔
    ∀ request ∈ loop.requests.dropLast, (around.respond request.moment).DistinctIds

variable (around given) in
structure Grown (history : List RigMessage) (requests : List ModelRequest)
    (response : Option Response) : Prop where
  paired : PairedSince given history
  distinct : (DistinctSince given history ∧ ∀ answer ∈ response, answer.DistinctIds) ↔
    ∀ request ∈ requests, (around.respond request.moment).DistinctIds

theorem Grown.congr {history other : List RigMessage} {requests : List ModelRequest}
    {response : Option Response} (grown : Grown around given history requests response)
    (same : other.map RigMessage.pairing = history.map RigMessage.pairing) :
    Grown around given other requests response :=
  ⟨grown.paired.congr same, by rw [DistinctSince.congr same, grown.distinct]⟩

theorem Grown.answer {loop : Loop} {contents : List AssistantContent} {streamed : Text}
    {message : RigMessage} {results : List RigMessage}
    (grown : Grown around given loop.chatHistory loop.requests (some (.contents contents streamed)))
    (assistant : message.isAssistant = true)
    (calls : message.callIds = (toolCallsOf contents).map (·.id))
    (users : ∀ result ∈ results, result.isAssistant = false)
    (answered : results.flatMap RigMessage.resultIds = message.callIds) :
    Grown around given (loop.chatHistory ++ message :: results) loop.requests none where
  paired := grown.paired.grow assistant users answered
  distinct := by
    rw [distinctSince_grow grown.paired users, ← grown.distinct, calls]
    simp [Response.DistinctIds]

theorem respondTo_grown (loop : Loop) (contents : List AssistantContent) (streamed : Text)
    {next : Loop} {outcome : TurnEnd}
    (done : loop.respondTo around contents streamed = (next, outcome))
    (grown : Grown around given loop.chatHistory loop.requests
      (some (.contents contents streamed))) :
    next.requests = loop.requests ∧
      (outcome = none → Grown around given next.chatHistory next.requests none) := by
  obtain ⟨message, pushed, assistant, calls⟩ := processModelResponse_eq contents loop.chatHistory
  simp only [Loop.respondTo, pushed] at done
  split at done
  · obtain ⟨rfl, rfl⟩ := Prod.mk.inj done
    exact ⟨rfl, by simp⟩
  · split at done
    · obtain ⟨rfl, rfl⟩ := Prod.mk.inj done
      exact ⟨rfl, by simp⟩
    · next exec executed =>
        obtain ⟨requests, goesOn⟩ := afterCalls_goesOn _ _ _ done
        refine ⟨requests, fun on => ?_⟩
        obtain ⟨alive, settled, same⟩ := goesOn on
        obtain ⟨results, adds, answered⟩ := executeToolCalls_adds executed
        have more := grown.answer assistant calls adds.users (by rw [calls, answered settled alive])
        rw [requests]
        refine more.congr (same.trans ?_)
        rw [adds.history]
        simp

theorem request_issued (loop : Loop) (issued : Issued around given loop)
    (grown : Grown around given loop.chatHistory loop.requests none) :
    Issued around given (loop.request around).1 := by
  have distinct : DistinctSince given loop.chatHistory ↔
      ∀ request ∈ loop.requests, (around.respond request.moment).DistinctIds := by
    simpa using grown.distinct
  have before : (∀ request ∈ loop.requests, (around.respond request.moment).DistinctIds) →
      ∀ request ∈ loop.requests.dropLast, (around.respond request.moment).DistinctIds :=
    fun all request member => all request (List.dropLast_subset _ member)
  unfold Issued at issued ⊢
  simp only [Loop.request, List.forall_mem_append, List.forall_mem_singleton,
    List.dropLast_concat, AnsweredSince, grown.paired, true_and, distinct]
  constructor
  next => exact fun all => all.2
  next => exact fun all => ⟨issued.mpr (before all), all⟩

theorem request_grown (loop : Loop)
    (grown : Grown around given loop.chatHistory loop.requests none) :
    Grown around given (loop.request around).1.chatHistory (loop.request around).1.requests
      (some (loop.request around).2) where
  paired := grown.paired
  distinct := by
    have distinct : DistinctSince given loop.chatHistory ↔
        ∀ request ∈ loop.requests, (around.respond request.moment).DistinctIds := by
      simpa using grown.distinct
    simp only [Loop.request, List.forall_mem_append, List.forall_mem_singleton, ← distinct,
      Option.mem_some_iff, forall_eq']

theorem stream_grown (loop : Loop) (issued : Issued around given loop)
    (grown : Grown around given loop.chatHistory loop.requests none) :
    Issued around given (loop.stream around).1 ∧
      Grown around given (loop.stream around).1.chatHistory (loop.stream around).1.requests
        (some (loop.stream around).2) := by
  have first := request_issued loop issued grown
  have asked := request_grown loop grown
  simp only [Loop.stream]
  split
  next rejected =>
    have failed : ∃ error, (loop.request around).2 = .failed error := by
      cases answer : (loop.request around).2 with
      | failed error => exact ⟨error, rfl⟩
      | contents contents streamed => simp [answer, rejectsImages] at rejected
      | cancelled streamed => simp [answer, rejectsImages] at rejected
    obtain ⟨error, failed⟩ := failed
    have again : Grown around given (loop.request around).1.chatHistory
        (loop.request around).1.requests none := by
      refine ⟨asked.paired, ?_⟩
      rw [← asked.distinct, failed]
      simp [Response.DistinctIds]
    have replaced := again.congr
      (replaceImages_pairing (around.vision (loop.request around).1.moment) loop.chatHistory)
    exact ⟨request_issued _ first replaced, request_grown _ replaced⟩
  next => exact ⟨first, asked⟩

theorem turn_grown (loop : Loop) (issued : Issued around given loop)
    (grown : Grown around given (stripLeadingOrphans loop.chatHistory) loop.requests none)
    {next : Loop} {outcome : TurnEnd} (done : loop.turn around = (next, outcome)) :
    Issued around given next ∧
      (outcome = none → Grown around given next.chatHistory next.requests none) := by
  unfold Loop.turn at done
  split at done
  · obtain ⟨rfl, rfl⟩ := Prod.mk.inj done
    exact ⟨issued, by simp⟩
  · simp only at done
    split at done
    · obtain ⟨rfl, rfl⟩ := Prod.mk.inj done
      exact ⟨issued, by simp⟩
    · have streamed := @stream_grown around given
        { loop with chatHistory := stripLeadingOrphans loop.chatHistory } issued grown
      split at done
      · obtain ⟨rfl, rfl⟩ := Prod.mk.inj done
        exact ⟨streamed.1, by simp⟩
      · obtain ⟨rfl, rfl⟩ := Prod.mk.inj done
        exact ⟨streamed.1, by simp⟩
      · next contents text answered =>
        have answer := streamed.2
        rw [answered] at answer
        obtain ⟨requests, goesOn⟩ := respondTo_grown _ _ _ done answer
        refine ⟨?_, goesOn⟩
        unfold Issued
        rw [requests]
        exact streamed.1

theorem turns_issued (left : Nat) (loop : Loop) (issued : Issued around given loop)
    (stripped : stripLeadingOrphans given = given)
    (grown : Grown around given (stripLeadingOrphans loop.chatHistory) loop.requests none) :
    Issued around given (Loop.turns around left loop).1 := by
  induction left generalizing loop with
  | zero => exact issued
  | succ left ih =>
      simp only [Loop.turns]
      split
      · next outcome taken => exact (turn_grown loop issued grown taken).1
      · next next taken =>
          obtain ⟨issued, goesOn⟩ := turn_grown loop issued grown taken
          split
          · exact issued
          · have grown := goesOn rfl
            exact ih _ issued (by rwa [strip_of_paired grown.paired stripped])

theorem runToolLoop_issued (maxToolTurns : Nat) (textOnly : Bool) (systemPrompt : Text)
    (chatHistory : List RigMessage) :
    Issued around (stripLeadingOrphans chatHistory)
      (runToolLoop around maxToolTurns textOnly systemPrompt chatHistory).1 := by
  refine turns_issued maxToolTurns _ (by simp [Issued]) (strip_strip chatHistory) ?_
  exact ⟨PairedSince.refl _, by simp [DistinctSince]⟩

end Turns

section Rebuilt

theorem AnsweredNext.append {pending : List Text} {front back : List RigMessage}
    (answered : AnsweredNext pending front) (later : AnsweredNext [] back) :
    AnsweredNext pending (front ++ back) := by
  induction front generalizing pending with
  | nil =>
      obtain rfl : pending = [] := answered
      exact later
  | cons message rest ih => exact ⟨answered.1, ih answered.2⟩

theorem answeredNext_flatMap {A : Type} (items : List A) (messages : A → List RigMessage)
    (each : ∀ item ∈ items, AnsweredNext [] (messages item)) :
    AnsweredNext [] (items.flatMap messages) := by
  induction items with
  | nil => rfl
  | cons item rest ih =>
      rw [List.flatMap_cons]
      exact (each item List.mem_cons_self).append
        (ih fun other member => each other (List.mem_cons_of_mem _ member))

theorem answeredNext_singleton (message : RigMessage) (calls : message.callIds = [])
    (results : message.resultIds = []) : AnsweredNext [] [message] :=
  ⟨results, calls⟩

variable (services : Services) (ids : CallIds) (context : ConversationContext)

theorem buildUserMessage_resultIds (content : Text) (attachments : List Chat.Attachment)
    (ownerUserId : Text) :
    (buildUserMessage services content attachments ownerUserId).callIds = [] ∧
      (buildUserMessage services content attachments ownerUserId).resultIds = [] := by
  simp only [buildUserMessage]
  split
  · exact ⟨rfl, rfl⟩
  · split
    · exact ⟨rfl, rfl⟩
    · split
      · exact ⟨rfl, rfl⟩
      · refine ⟨rfl, List.filterMap_eq_nil_iff.mpr fun item member => ?_⟩
        cases member with
        | head => rfl
        | tail _ member =>
            obtain ⟨attachment, _, block⟩ := List.mem_filterMap.mp member
            obtain ⟨bytes, _, rfl⟩ := Option.map_eq_some_iff.mp block
            rfl

theorem turnItems_callIds (calls : List Chat.ToolCall) :
    (turnItems ids calls).filterMap AssistantContent.callId =
      calls.map fun call => (ids.fromWire call.providerCallId).1 := by
  have reasonings (reasonings : List Chat.Reasoning) :
      (reasonings.map AssistantContent.reasoning).filterMap AssistantContent.callId = [] := by
    rw [List.filterMap_map]
    exact List.filterMap_eq_nil_iff.mpr fun _ _ => rfl
  have texts (texts : List Text) :
      (texts.map AssistantContent.text).filterMap AssistantContent.callId = [] := by
    rw [List.filterMap_map]
    exact List.filterMap_eq_nil_iff.mpr fun _ _ => rfl
  rw [turnItems, List.filterMap_append, List.filterMap_append, reasonings, texts,
    List.filterMap_map]
  exact List.filterMap_eq_map.symm ▸ rfl

variable {services ids context}

theorem answeredNext_convertTurn (agree : ids.Agree) (calls : List Chat.ToolCall)
    (named : ∀ call ∈ calls, call.providerCallId ≠ []) : AnsweredNext [] (convertTurn ids calls) := by
  cases calls with
  | nil => simp [convertTurn, turnItems, AnsweredNext]
  | cons call rest =>
      have items : (turnItems ids (call :: rest)).isEmpty = false := by simp [turnItems]
      have results : (RigMessage.user ((call :: rest).map fun call =>
          UserContent.toolResult (rebuiltResult ids call))).resultIds =
          (call :: rest).map fun call => (ids.fromWire call.providerCallId).1 := by
        rw [RigMessage.resultIds, List.filterMap_map]
        rw [← List.filterMap_eq_map]
        apply List.filterMap_congr
        intro other member
        exact congrArg some (agree other.providerCallId (named other member)).symm
      simp only [convertTurn, items, Bool.false_eq_true, if_false, List.isEmpty_map,
        List.isEmpty_cons, List.singleton_append]
      exact ⟨rfl, results.trans (turnItems_callIds ids (call :: rest)).symm, rfl⟩

theorem mem_insertTurn (call : Chat.ToolCall) (turns : List (Nat × List Chat.ToolCall))
    (turn : Nat × List Chat.ToolCall) (member : turn ∈ insertTurn call turns)
    (other : Chat.ToolCall) (inside : other ∈ turn.2) :
    other = call ∨ ∃ old ∈ turns, other ∈ old.2 := by
  induction turns with
  | nil =>
      obtain rfl := List.mem_singleton.mp member
      exact .inl (List.mem_singleton.mp inside)
  | cons first rest ih =>
      obtain ⟨number, calls⟩ := first
      simp only [insertTurn] at member
      split at member
      · cases member with
        | head => exact .inl (List.mem_singleton.mp inside)
        | tail _ member => exact .inr ⟨turn, member, inside⟩
      · split at member
        · cases member with
          | head =>
              cases List.mem_append.mp inside with
              | inl old => exact .inr ⟨_, List.mem_cons_self, old⟩
              | inr new => exact .inl (List.mem_singleton.mp new)
          | tail _ member => exact .inr ⟨turn, List.mem_cons_of_mem _ member, inside⟩
        · cases member with
          | head => exact .inr ⟨_, List.mem_cons_self, inside⟩
          | tail _ member =>
              cases ih member with
              | inl same => exact .inl same
              | inr older =>
                  obtain ⟨old, member, inside⟩ := older
                  exact .inr ⟨old, List.mem_cons_of_mem _ member, inside⟩

theorem mem_foldl_insertTurn (toolCalls : List Chat.ToolCall)
    (turns : List (Nat × List Chat.ToolCall)) (turn : Nat × List Chat.ToolCall)
    (member : turn ∈ toolCalls.foldl (fun turns call => insertTurn call turns) turns)
    (call : Chat.ToolCall) (inside : call ∈ turn.2) :
    call ∈ toolCalls ∨ ∃ old ∈ turns, call ∈ old.2 := by
  induction toolCalls generalizing turns with
  | nil => exact .inr ⟨turn, member, inside⟩
  | cons first rest ih =>
      cases ih (insertTurn first turns) member with
      | inl later => exact .inl (List.mem_cons_of_mem _ later)
      | inr earlier =>
          obtain ⟨old, member, inside⟩ := earlier
          cases mem_insertTurn first turns old member call inside with
          | inl same => exact .inl (same ▸ List.mem_cons_self)
          | inr older => exact .inr older

theorem mem_groupTurns (toolCalls : List Chat.ToolCall) (turn : Nat × List Chat.ToolCall)
    (member : turn ∈ groupTurns toolCalls) (call : Chat.ToolCall) (inside : call ∈ turn.2) :
    call ∈ toolCalls := by
  simpa using mem_foldl_insertTurn toolCalls [] turn member call inside

theorem answeredNext_agent (agree : ids.Agree) (row : Chat.Message)
    (toolCalls : List Chat.ToolCall) (agentId : Text) (handle : Option Text)
    (named : ∀ call ∈ toolCalls, call.providerCallId ≠ []) :
    AnsweredNext [] (convertAgentWithToolCalls ids row toolCalls agentId handle) := by
  simp only [convertAgentWithToolCalls]
  split
  · split
    · rfl
    · exact answeredNext_singleton _ rfl rfl
  · refine AnsweredNext.append (answeredNext_flatMap _ _ fun turn member => ?_) ?_
    · exact answeredNext_convertTurn agree turn.2 fun call inside =>
        named call (mem_groupTurns toolCalls turn member call inside)
    · split
      · refine answeredNext_singleton _ ?_ rfl
        rw [RigMessage.callIds, List.filterMap_append, List.filterMap_map]
        exact List.append_eq_nil_iff.mpr
          ⟨List.filterMap_eq_nil_iff.mpr fun _ _ => rfl, rfl⟩
      · rfl

theorem answeredNext_convertAgentMessage (row : Chat.Message) (agentId : Text)
    (handle : Option Text) :
    AnsweredNext [] (convertAgentMessage row agentId handle).toList := by
  unfold convertAgentMessage
  split
  · rfl
  · split
    · split
      · refine answeredNext_singleton _ ?_ rfl
        split <;> rfl
      · split
        · rfl
        · exact answeredNext_singleton _ rfl rfl
    · split
      · rfl
      · exact answeredNext_singleton _ rfl rfl

theorem answeredNext_buildMessage (agree : ids.Agree) (toolCalls : List Chat.ToolCall)
    (named : ∀ call ∈ toolCalls, call.providerCallId ≠ []) (row : Chat.Message) :
    AnsweredNext [] (buildMessage services ids context toolCalls row) := by
  have user (content : Text) : AnsweredNext []
      [buildUserMessage services content row.attachments context.userId] :=
    answeredNext_singleton _ (buildUserMessage_resultIds services content _ _).1
      (buildUserMessage_resultIds services content _ _).2
  simp only [buildMessage]
  split
  · split
    · rfl
    · exact user _
  · split
    · rfl
    · exact user _
  · split
    · rfl
    · exact user _
  · exact user _
  · split
    · next calls grouped =>
        refine answeredNext_agent agree row calls _ _ fun call member => named call ?_
        unfold groupToolCallsByMessage at grouped
        split at grouped
        · cases grouped
        · cases grouped
          exact (List.mem_filter.mp member).1
    · exact answeredNext_convertAgentMessage row _ _
  · split
    · rfl
    · exact answeredNext_singleton _ rfl rfl

theorem answeredNext_build (agree : ids.Agree) (messages : List Chat.Message)
    (toolCalls : List Chat.ToolCall) (named : ∀ call ∈ toolCalls, call.providerCallId ≠ [])
    (summary : Option Text) :
    AnsweredNext [] (build services ids context messages toolCalls summary) := by
  refine AnsweredNext.append ?_ (answeredNext_flatMap _ _ fun row _ =>
    answeredNext_buildMessage agree toolCalls named row)
  unfold summaryMessage
  split
  · split
    · rfl
    · exact answeredNext_singleton _ rfl rfl
  · rfl

end Rebuilt

section Result

/-- Each call of a loop has its one result in every request just when no response that another
request follows names two calls the same; in a rebuilt history each call is answered next. -/
theorem calls_paired_iff (around : Surroundings) (maxToolTurns : Nat) (textOnly : Bool)
    (systemPrompt : Text) (chatHistory : List RigMessage) (services : Services) (ids : CallIds)
    (context : ConversationContext) (messages : List Chat.Message)
    (toolCalls : List Chat.ToolCall) (summary : Option Text) (agree : ids.Agree)
    (named : ∀ call ∈ toolCalls, call.providerCallId ≠ []) :
    let requests := (runToolLoop around maxToolTurns textOnly systemPrompt chatHistory).1.requests
    ((∀ request ∈ requests,
        AnsweredSince (stripLeadingOrphans chatHistory) request.history) ↔
      ∀ request ∈ requests.dropLast, (around.respond request.moment).DistinctIds) ∧
    AnsweredNext [] (build services ids context messages toolCalls summary) :=
  ⟨runToolLoop_issued maxToolTurns textOnly systemPrompt chatHistory,
    answeredNext_build agree messages toolCalls named summary⟩

def lookup (id : Char) : RigToolCall where
  id := [id]
  name := ['f']
  arguments := .null

def twoCalls : Surroundings where
  cancelled _ := false
  stays _ _ cancelled _ := by cases cancelled
  shutdown _ := false
  respond
    | 0 => .contents [.toolCall (lookup 'a'), .toolCall (lookup 'b')] []
    | _ => .contents [.text ['d']] ['d']
  execute _ := .finished { text := ['r'] }
  abandons _ abandoned := by cases abandoned
  persist _ := .ok ()
  activeChat := .ok ()
  vision _ := none
  lowercase := id

def wireIds : CallIds := ⟨some, fun id => id.getD [], fun id => (id, some id)⟩

def recorded (id : Char) (turn : Nat) : Chat.ToolCall where
  messageId := ['m']
  turn := turn
  providerCallId := [id]
  name := ['f']
  arguments := .null
  result := ['r']

def replied : Chat.Message where
  id := ['m']
  role := .agent
  content := ['d']
  agentId := some ['g']
  status := some .completed
  createdAt := 1

theorem calls_paired_iff_two :
    (∀ request ∈ (runToolLoop twoCalls 5 false [] [.userText ['q']]).1.requests,
      AnsweredSince (stripLeadingOrphans [.userText ['q']]) request.history) ∧
    AnsweredNext [] (build ⟨fun _ => none, fun _ => none, fun _ _ => none, fun _ => none⟩ wireIds
      ⟨['g'], ['u']⟩ [replied] [recorded 'a' 0, recorded 'b' 0, recorded 'c' 1] none) := by
  have paired := calls_paired_iff twoCalls 5 false [] [.userText ['q']]
    ⟨fun _ => none, fun _ => none, fun _ _ => none, fun _ => none⟩ wireIds ⟨['g'], ['u']⟩ [replied]
    [recorded 'a' 0, recorded 'b' 0, recorded 'c' 1] none (fun _ _ => rfl) (by simp [recorded])
  refine ⟨paired.1.mpr fun request _ => ?_, paired.2⟩
  cases request.moment with
  | zero => exact show ([['a'], ['b']] : List Text).Nodup by decide
  | succ moment => exact List.nodup_nil

def sameIds : Surroundings where
  __ := twoCalls
  respond
    | 0 => .contents [.toolCall (lookup 'a'), .toolCall (lookup 'a')] []
    | _ => .contents [.text ['d']] ['d']

theorem same_ids_answered_twice :
    ¬ ∀ request ∈ (runToolLoop sameIds 5 false [] [.userText ['q']]).1.requests,
      AnsweredSince (stripLeadingOrphans [.userText ['q']]) request.history := by
  intro answered
  have distinct := (runToolLoop_issued 5 false [] [.userText ['q']]).mp answered
    ⟨[], [.userText ['q']], 0⟩ (List.mem_singleton.mpr rfl)
  exact absurd (show ([['a'], ['a']] : List Text).Nodup from distinct) (by decide)

end Result

end Frona.Inference
