import Frona.Chat.Compactor

set_option autoImplicit false

namespace Frona.Chat

open Utf8
open Frona.Inference

section Agreement

variable (services : Services) (ids : CallIds) (context : ConversationContext)
  (request : CompactRequest) (store : Store)

def besideContent (row : Message) : List Text :=
  match row.role with
  | .user | .contact | .taskCompletion | .liveCall =>
      (row.attachments.filter (!isEmbeddableImage ·)).filterMap (·.transcript)
  | .agent =>
      if row.agentId = some context.agentId then
        (groupTurns (request.toolCalls.filter (·.messageId = row.id))).filterMap fun turn =>
          turn.2.findSome? (·.turnText)
      else []
  | .system => []

-- Of an agent that has called tools the builder sends the content only when the turn is completed.
def contentSent (row : Message) : Bool :=
  match row.role, groupToolCallsByMessage request.toolCalls row.id with
  | .agent, some _ => row.agentId ≠ some context.agentId || row.status = some .completed
  | .agent, none => row.status ≠ some .executing && row.status ≠ some .paused
  | _, _ => true

def spoken (row : Message) : List Text :=
  (if contentSent context request row then [row.content] else []) ++
    besideContent context request row

def InLine (row : Message) (text : Text) : Prop :=
  ∃ label before after, roleLabel row.role = some label ∧
    inputLine row = label ++ ": ".toList ++ (before ++ text ++ after) ++ ['\n']

/-- What the compactor counts and hands to the summarizer is what the builder sends. -/
structure AgreesWithBuilder : Prop where
  counted : ∀ row ∈ store.live, buildMessage services ids context request.toolCalls row ≠ [] →
    (∃ text ∈ spoken context request row, text ≠ []) →
      0 < cost request.chatAgentId request.toolCalls row
  handed : Compacts request store → ∀ row ∈ messagesToCompact request store,
    buildMessage services ids context request.toolCalls row ≠ [] →
      ∀ text ∈ spoken context request row, text ≠ [] →
        InLine row text ∧ text <:+: summarizerInput request store

/-- No system note has text, and of what is compacted no voice note or tool turn says anything that
the content of its row does not. -/
structure ContentOnly : Prop where
  silent : ∀ row ∈ store.live, row.role = .system → row.content = []
  beside : Compacts request store → ∀ row ∈ messagesToCompact request store,
    ∀ text ∈ besideContent context request row, text <:+: row.content

-- Calls are recorded under the agent's message that makes them.
def CallsOnAgentRows : Prop :=
  ∀ call ∈ request.toolCalls, ∀ row ∈ store.live, row.id = call.messageId → row.role = .agent

end Agreement

section Sent

/-- A text block of the message has the text. -/
def Tells (text : Text) : RigMessage → Prop
  | .user content => ∃ block, .text block ∈ content ∧ text <:+: block
  | .assistant content => ∃ block, .text block ∈ content ∧ text <:+: block
  | .system content => text <:+: content

theorem Tells.within {text part : Text} {message : RigMessage} (tells : Tells text message)
    (within : part <:+: text) : Tells part message := by
  cases message with
  | user | assistant =>
      obtain ⟨block, member, inside⟩ := tells
      exact ⟨block, member, within.trans inside⟩
  | system => exact within.trans tells

theorem foldl_notes (notes : List Text) (start : Text) :
    start <+: notes.foldl (fun text note => text ++ '\n' :: note) start ∧
      ∀ note ∈ notes, note <:+: notes.foldl (fun text note => text ++ '\n' :: note) start := by
  induction notes generalizing start with
  | nil => exact ⟨List.prefix_rfl, nofun⟩
  | cons first rest ih =>
      obtain ⟨grows, later⟩ := ih (start ++ '\n' :: first)
      refine ⟨(List.prefix_append _ _).trans grows, ?_⟩
      intro note member
      cases member with
      | head => exact List.IsInfix.trans ⟨start ++ ['\n'], [], by simp⟩ grows.isInfix
      | tail _ member => exact later note member

variable (services : Services) (content : Text) (attachments : List Attachment) (owner : Text)

theorem tells_buildUserMessage {text : Text} (some_ : attachments ≠ [])
    (within : text <:+: userMessageText services content attachments owner) :
    Tells text (buildUserMessage services content attachments owner) := by
  have filled : attachments.isEmpty = false := by simpa using some_
  simp only [buildUserMessage, filled, Bool.false_eq_true, if_false]
  split
  · exact ⟨_, List.mem_singleton_self _, within⟩
  · split
    · exact ⟨_, List.mem_singleton_self _, within⟩
    · exact ⟨_, List.mem_cons_self, within⟩

theorem content_told : Tells content (buildUserMessage services content attachments owner) := by
  by_cases none : attachments = []
  · rw [none]
    exact ⟨content, List.mem_singleton_self _, List.infix_rfl⟩
  · apply tells_buildUserMessage services content attachments owner none
    simp only [userMessageText, withNotes]
    refine List.IsInfix.trans ?_ (foldl_notes _ _).1.isInfix
    split
    · exact List.infix_rfl
    · exact ⟨[], _, by rw [filesBlock, List.nil_append, List.append_assoc, List.append_assoc]⟩

theorem note_told {text : Text}
    (member : text ∈ (attachments.filter (!isEmbeddableImage ·)).filterMap (·.transcript)) :
    Tells text (buildUserMessage services content attachments owner) := by
  obtain ⟨attachment, kept, transcript⟩ := List.mem_filterMap.mp member
  have some_ : attachments ≠ [] := List.ne_nil_of_mem (List.mem_of_mem_filter kept)
  apply tells_buildUserMessage services content attachments owner some_
  simp only [userMessageText, withNotes]
  have note : voiceNoteBlock attachment = some ("<voice_note file=\"".toList ++
      attachment.filename.map (fun c => if c = '"' then '\'' else c) ++
      "\">\n".toList ++ text ++ "\n</voice_note>".toList) := by
    rw [voiceNoteBlock, transcript]
    rfl
  exact List.IsInfix.trans ⟨_, _, rfl⟩
    ((foldl_notes _ _).2 _ (List.mem_filterMap.mpr ⟨attachment, kept, note⟩))

variable (ids : CallIds) {context : ConversationContext} {request : CompactRequest}

theorem turnText_told {calls : List ToolCall} {text : Text}
    (found : calls.findSome? (·.turnText) = some text) (some_ : text ≠ []) :
    ∃ message ∈ convertTurn ids calls, Tells text message := by
  have item : AssistantContent.text text ∈ turnItems ids calls := by
    simp [turnItems, found, some_]
  have filled : (turnItems ids calls).isEmpty = false := by
    simpa using List.ne_nil_of_mem item
  refine ⟨.assistant (turnItems ids calls), ?_, text, item, List.infix_rfl⟩
  simp [convertTurn, filled]

theorem groupToolCallsByMessage_eq (toolCalls : List ToolCall) (messageId : Text) :
    groupToolCallsByMessage toolCalls messageId =
      if toolCalls.filter (·.messageId = messageId) = [] then none
      else some (toolCalls.filter (·.messageId = messageId)) := by
  unfold groupToolCallsByMessage
  split
  next none => rw [if_pos none]
  next some_ => rw [if_neg some_]

theorem beside_told (row : Message) {text : Text} (said : text ∈ besideContent context request row)
    (some_ : text ≠ []) :
    ∃ message ∈ buildMessage services ids context request.toolCalls row, Tells text message := by
  cases role : row.role with
  | system => simp [besideContent, role] at said
  | user | contact | taskCompletion | liveCall =>
      simp only [besideContent, role] at said
      have attached : row.attachments.isEmpty = false := by
        obtain ⟨attachment, kept, -⟩ := List.mem_filterMap.mp said
        simpa using List.ne_nil_of_mem (List.mem_of_mem_filter kept)
      simp only [buildMessage, role, attached, Bool.and_false, Bool.false_eq_true, if_false]
      exact ⟨_, List.mem_singleton_self _, note_told services _ _ _ said⟩
  | agent =>
      simp only [besideContent, role] at said
      split at said
      next self =>
        obtain ⟨turn, member, found⟩ := List.mem_filterMap.mp said
        have calls : request.toolCalls.filter (·.messageId = row.id) ≠ [] := by
          intro none
          rw [none] at member
          cases member
        obtain ⟨message, sent, tells⟩ := turnText_told ids found some_
        refine ⟨message, ?_, tells⟩
        simp only [buildMessage, role, groupToolCallsByMessage_eq, if_neg calls,
          convertAgentWithToolCalls, self, ne_eq, not_true_eq_false, if_false]
        exact List.mem_append_left _ (List.mem_flatMap.mpr ⟨turn, member, sent⟩)
      next => cases said

theorem taskCompletionContent_has (row : Message) : row.content <:+: taskCompletionContent row := by
  unfold taskCompletionContent
  split
  · exact ⟨_, _, rfl⟩
  · exact List.infix_rfl

theorem attributed_told (handle : Option Text) :
    Tells content (.userText (attributeCrossAgent content handle)) :=
  ⟨_, List.mem_singleton_self _, _, _, rfl⟩

theorem agent_told (row : Message) (role : row.role = .agent) (some_ : row.content ≠ [])
    (sends : contentSent context request row = true) :
    ∃ message ∈ buildMessage services ids context request.toolCalls row,
      Tells row.content message := by
  have filled : row.content.isEmpty = false := by simpa using some_
  simp only [contentSent, role] at sends
  cases grouped : groupToolCallsByMessage request.toolCalls row.id with
  | some calls =>
      simp only [grouped, Bool.or_eq_true, decide_eq_true_eq] at sends
      simp only [buildMessage, role, grouped, convertAgentWithToolCalls]
      by_cases self : row.agentId = some context.agentId
      · have completed := sends.resolve_left (by simpa using self)
        simp only [self, ne_eq, not_true_eq_false, if_false, completed, filled, Bool.false_eq_true,
          not_false_eq_true, and_self, if_true]
        refine ⟨_, List.mem_append_right _ (List.mem_singleton_self _), row.content, ?_,
          List.infix_rfl⟩
        exact List.mem_append_right _ (List.mem_singleton_self _)
      · simp only [ne_eq, self, not_false_eq_true, if_true, filled, Bool.false_eq_true, if_false]
        exact ⟨_, List.mem_singleton_self _, attributed_told _ _⟩
  | none =>
      simp only [grouped, Bool.and_eq_true, decide_eq_true_eq] at sends
      simp only [buildMessage, role, grouped, convertAgentMessage, sends.1, sends.2, or_self,
        if_false, filled, Bool.false_eq_true]
      by_cases self : row.agentId = some context.agentId
      · simp only [self, if_true]
        cases row.reasoning with
        | none =>
            exact ⟨_, List.mem_singleton_self _, row.content, List.mem_singleton_self _,
              List.infix_rfl⟩
        | some reasoning =>
            exact ⟨_, List.mem_singleton_self _, row.content,
              List.mem_cons_of_mem _ (List.mem_singleton_self _), List.infix_rfl⟩
      · simp only [self, if_false]
        exact ⟨_, List.mem_singleton_self _, attributed_told _ _⟩

theorem spoken_told (row : Message)
    (sent : buildMessage services ids context request.toolCalls row ≠ []) {text : Text}
    (said : text ∈ spoken context request row) (some_ : text ≠ []) :
    ∃ message ∈ buildMessage services ids context request.toolCalls row, Tells text message := by
  rcases List.mem_append.mp said with own | beside
  · split at own
    next sends =>
      obtain rfl := List.mem_singleton.mp own
      cases role : row.role with
      | agent => exact agent_told services ids row role some_ sends
      | system =>
          simp only [buildMessage, role] at sent ⊢
          rw [if_neg (by simpa using some_)]
          exact ⟨_, List.mem_singleton_self _, row.content, List.mem_singleton_self _,
            List.infix_rfl⟩
      | liveCall =>
          simp only [buildMessage, role]
          refine ⟨_, List.mem_singleton_self _, (content_told services _ _ _).within ?_⟩
          exact (List.suffix_append _ _).isInfix
      | user | contact =>
          simp only [buildMessage, role] at sent ⊢
          split at sent
          next => exact absurd rfl sent
          next filled =>
            rw [if_neg filled]
            exact ⟨_, List.mem_singleton_self _, content_told services _ _ _⟩
      | taskCompletion =>
          simp only [buildMessage, role] at sent ⊢
          split at sent
          next => exact absurd rfl sent
          next filled =>
            rw [if_neg filled]
            exact ⟨_, List.mem_singleton_self _,
              (content_told services _ _ _).within (taskCompletionContent_has row)⟩
    next => cases own
  · exact beside_told services ids row beside some_

end Sent

section Counted

theorem toolTurnTokens_pos (messageId : Text) (toolCalls : List ToolCall) (call : ToolCall)
    (member : call ∈ toolCalls) (own : call.messageId = messageId) :
    0 < toolTurnTokens messageId toolCalls := by
  have positive : 0 < callTokens call := by
    have := estimateTokens_pos call.result
    unfold callTokens
    omega
  exact List.sum_pos_iff_exists_pos_nat.mpr
    ⟨callTokens call, List.mem_map_of_mem (by simp [member, own]), positive⟩

theorem toolTurnTokens_none (messageId : Text) (toolCalls : List ToolCall)
    (none : ∀ call ∈ toolCalls, call.messageId ≠ messageId) :
    toolTurnTokens messageId toolCalls = 0 := by
  have : toolCalls.filter (·.messageId = messageId) = [] := by simpa using none
  simp [toolTurnTokens, this]

theorem cost_pos_of_toRig (chatAgentId : Text) (toolCalls : List ToolCall) (row : Message)
    (message : RigMessage) (converted : toRig row chatAgentId = some message) :
    0 < cost chatAgentId toolCalls row := by
  have := estimateMessageTokens_pos message
  simp only [cost, converted, Option.map_some, Option.getD_some]
  omega

theorem convertAgentMessage_isSome (row : Message) (agentId : Text) (handle : Option Text)
    (text : row.content ≠ []) (settled : row.status ≠ some .executing)
    (resumed : row.status ≠ some .paused) :
    (convertAgentMessage row agentId handle).isSome = true := by
  have filled : row.content.isEmpty = false := by simpa using text
  simp only [convertAgentMessage, settled, resumed, filled, or_self, if_false,
    Bool.false_eq_true]
  split
  · split <;> rfl
  · rfl

variable {services : Services} {ids : CallIds} {context : ConversationContext}
  {request : CompactRequest} {store : Store}

theorem cost_pos_of_calls (row : Message)
    (some_ : request.toolCalls.filter (·.messageId = row.id) ≠ []) :
    0 < cost request.chatAgentId request.toolCalls row := by
  obtain ⟨call, member⟩ := List.exists_mem_of_ne_nil _ some_
  obtain ⟨member, own⟩ := List.mem_filter.mp member
  have := toolTurnTokens_pos row.id request.toolCalls call member (by simpa using own)
  unfold cost
  omega

theorem cost_pos (row : Message) (role : row.role ≠ .system)
    (speaks : ∃ text ∈ spoken context request row, text ≠ []) :
    0 < cost request.chatAgentId request.toolCalls row := by
  obtain ⟨text, member, some_⟩ := speaks
  cases same : row.role with
  | user | taskCompletion | contact | liveCall =>
      exact cost_pos_of_toRig _ _ row _ (by simp only [toRig, same]; rfl)
  | system => exact absurd same role
  | agent =>
      by_cases none : request.toolCalls.filter (·.messageId = row.id) = []
      · -- Without tool calls there is the content only, of a turn that is not pending.
        have grouped : groupToolCallsByMessage request.toolCalls row.id = Option.none := by
          rw [groupToolCallsByMessage_eq, if_pos none]
        have nothing : besideContent context request row = [] := by
          simp [besideContent, same, none, groupTurns]
        simp only [spoken, contentSent, same, grouped, nothing, List.append_nil] at member
        split at member
        next settled =>
          obtain rfl := List.mem_singleton.mp member
          rw [Bool.and_eq_true, decide_eq_true_eq, decide_eq_true_eq] at settled
          obtain ⟨message, converted⟩ := Option.isSome_iff_exists.mp
            (convertAgentMessage_isSome row request.chatAgentId Option.none some_ settled.1
              settled.2)
          exact cost_pos_of_toRig _ _ row message (by simp only [toRig, same, converted])
        next => cases member
      · exact cost_pos_of_calls row none

theorem cost_system (row : Message) (role : row.role = .system)
    (none : ∀ call ∈ request.toolCalls, call.messageId ≠ row.id) :
    cost request.chatAgentId request.toolCalls row = 0 := by
  simp [cost, toRig, role, toolTurnTokens_none row.id request.toolCalls none]

theorem sent_system (services : Services) (ids : CallIds) (context : ConversationContext)
    (request : CompactRequest) (row : Message) (role : row.role = .system)
    (text : row.content ≠ []) :
    buildMessage services ids context request.toolCalls row ≠ [] ∧
      row.content ∈ spoken context request row :=
  ⟨by simp [buildMessage, role, text], by simp [spoken, contentSent, role]⟩

end Counted

section Handed

variable {request : CompactRequest} {store : Store}

theorem inLine_iff (row : Message) (text : Text) :
    InLine row text ↔ row.role ≠ .system ∧ text <:+: row.content := by
  constructor
  · rintro ⟨label, before, after, labelled, line⟩
    refine ⟨fun role => by simp [role, roleLabel] at labelled, before, after, ?_⟩
    simp only [inputLine, labelled, List.append_cancel_left_eq, List.append_cancel_right_eq] at line
    exact line.symm
  · rintro ⟨role, before, after, same⟩
    obtain ⟨label, labelled⟩ : ∃ label, roleLabel row.role = some label := by
      cases other : row.role with
      | system => exact absurd other role
      | _ => exact ⟨_, rfl⟩
    exact ⟨label, before, after, labelled, by simp only [inputLine, labelled, same]⟩

theorem inputLine_within (row : Message) (member : row ∈ messagesToCompact request store) :
    inputLine row <:+: summarizerInput request store := by
  have line : inputLine row <:+: (messagesToCompact request store).flatMap inputLine := by
    obtain ⟨before, after, same⟩ := List.append_of_mem member
    exact ⟨before.flatMap inputLine, after.flatMap inputLine, by simp [same]⟩
  exact line.trans (List.suffix_append _ _).isInfix

theorem InLine.infix_line {row : Message} {text : Text} (inLine : InLine row text) :
    text <:+: inputLine row := by
  obtain ⟨label, before, after, -, line⟩ := inLine
  exact ⟨label ++ ": ".toList ++ before, after ++ ['\n'], by rw [line]; simp⟩

end Handed

section Result

variable (services : Services) (ids : CallIds) (context : ConversationContext)
  (request : CompactRequest) (store : Store)

def systemNote : Message where
  id := ['n']
  role := .system
  content := "The user is now on the phone.".toList
  createdAt := 1

def noServices : Services := ⟨fun _ => none, fun _ => none, fun _ _ => none, fun _ => none⟩

def plainIds : CallIds := ⟨some, fun id => id.getD [], fun id => (id, some id)⟩

def searching : ToolCall where
  messageId := ['r']
  turn := 0
  providerCallId := ['1']
  name := ['s']
  arguments := .null
  result := ['x']

def reply : Message where
  id := ['r']
  role := .agent
  content := ['o', 'k']
  agentId := some ['a']
  status := some .executing
  createdAt := 2

end Result

end Frona.Chat
