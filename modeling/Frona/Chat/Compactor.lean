import Frona.Inference.Conversation

set_option autoImplicit false

namespace Frona.Chat

open Utf8
open Frona.Inference

inductive AppError where
  | internal (text : Text)
  | database (text : Text)

structure ChatSummary where
  content : Text
  compactedUntil : Nat
  itemCount : Nat

structure Store where
  messages : List Message
  summary : Option ChatSummary := none

structure LoadedConversation where
  summary : Option Text
  messages : List Message

structure CompactionOutcome where
  compacted : Bool
  conversation : LoadedConversation

def findByChatIdAfter (messages : List Message) (after : Nat) : List Message :=
  messages.filter (after < ·.createdAt)

def Store.live (store : Store) : List Message :=
  match store.summary with
  | some summary => findByChatIdAfter store.messages summary.compactedUntil
  | none => store.messages

def loadConversation (store : Store) : LoadedConversation where
  summary := store.summary.map (·.content)
  messages := store.live

section Costs

def toRig (message : Message) (chatAgentId : Text) : Option RigMessage :=
  match message.role with
  | .user | .taskCompletion | .contact =>
      some (.userText (formatFilesBlockSimple message.content message.attachments))
  | .liveCall =>
      some (.userText (liveCallContent (formatFilesBlockSimple message.content message.attachments)))
  | .agent => convertAgentMessage message chatAgentId none
  | .system => none

def callTokens (call : ToolCall) : Nat :=
  estimateTokens call.result + estimateTokens call.arguments.render +
    (call.turnText.map estimateTokens).getD 0 +
    (call.turnReasoning.map fun reasoning => estimateTokens reasoning.content +
      (reasoning.raw.map fun raw => estimateTokens raw.render).getD 0).getD 0

def toolTurnTokens (messageId : Text) (toolCalls : List ToolCall) : Nat :=
  ((toolCalls.filter (·.messageId = messageId)).map callTokens).sum

def cost (chatAgentId : Text) (toolCalls : List ToolCall) (message : Message) : Nat :=
  ((toRig message chatAgentId).map estimateMessageTokens).getD 0 +
    toolTurnTokens message.id toolCalls

end Costs

section Walk

def walk (target summaryBudget : Nat) : List Nat → Nat → Nat → Nat
  | [], _, keepFromIdx => keepFromIdx
  | cost :: older, running, keepFromIdx =>
      if running + cost + summaryBudget > target then keepFromIdx
      else walk target summaryBudget older (running + cost) older.length

def keepTail (target summaryBudget : Nat) (costs : List Nat) : Nat :=
  walk target summaryBudget costs.reverse 0 costs.length

def rposition (p : Message → Bool) (messages : List Message) : Option Nat :=
  (messages.reverse.findIdx? p).map (messages.length - 1 - ·)

def isRequest (message : Message) : Bool :=
  (match message.role with
    | .user | .contact | .liveCall | .taskCompletion => true
    | .agent | .system => false) &&
  (!isBlank message.content || !message.attachments.isEmpty)

def requestIdx (live : List Message) : Nat := (rposition isRequest live).getD (live.length - 1)

def createdAtIdx (live : List Message) (index : Nat) : Nat :=
  (live[index]?.map (·.createdAt)).getD 0

def protectedFrom (live : List Message) : Nat :=
  (live.findIdx? (createdAtIdx live (requestIdx live) ≤ ·.createdAt)).getD (requestIdx live)

end Walk

section Compact

structure CompactRequest where
  chatAgentId : Text
  systemPrompt : Text
  toolCalls : List ToolCall
  contextWindow : Nat
  maxOutputTokens : Nat

structure Seams where
  prompt : Option Text
  summarize : Text → Text → Except AppError Text
  save : ChatSummary → Except AppError Unit

variable (request : CompactRequest) (store : Store)

def CompactRequest.available : Nat := request.contextWindow - request.maxOutputTokens

def costs : List Nat := store.live.map (cost request.chatAgentId request.toolCalls)

def summaryBudget : Nat :=
  estimateTokens request.systemPrompt +
    (store.summary.map fun summary => estimateTokens summary.content).getD 0

def totalTokens : Nat := summaryBudget request store + (costs request store).sum

-- The product of two `usize` wraps.
def target : Nat := request.available * 70 % 2 ^ 64 / 100

def keepFromIdx : Nat :=
  min (keepTail (target request) (summaryBudget request store) (costs request store))
    (protectedFrom store.live)

/-- Whether `compact_chat` gets as far as to call the summarizer. -/
def Compacts : Prop :=
  request.available * 80 % 2 ^ 64 / 100 < totalTokens request store ∧ keepFromIdx request store ≠ 0

instance : Decidable (Compacts request store) :=
  inferInstanceAs (Decidable (_ ∧ _))

def messagesToCompact : List Message := store.live.take (keepFromIdx request store)

def roleLabel : MessageRole → Option Text
  | .user => some "User".toList
  | .agent => some "Agent".toList
  | .taskCompletion => some "System".toList
  | .contact => some "Contact".toList
  | .liveCall => some "Caller".toList
  | .system => none

def inputLine (message : Message) : Text :=
  match roleLabel message.role with
  | some role => role ++ ": ".toList ++ message.content ++ ['\n']
  | none => []

def summarizerInput : Text :=
  (match store.summary with
    | some summary => "Previous summary:\n".toList ++ summary.content ++
        "\n\nNew messages to incorporate:\n".toList
    | none => []) ++
  (messagesToCompact request store).flatMap inputLine

def summaryRow (content : Text) (now : Nat) : ChatSummary where
  content := content
  compactedUntil := ((messagesToCompact request store).getLast?.map (·.createdAt)).getD now
  itemCount := (messagesToCompact request store).length

def compactChat (seams : Seams) (now : Nat) : Except AppError (CompactionOutcome × Store) :=
  let unchanged := (⟨false, loadConversation store⟩, store)
  if store.live = [] then .ok unchanged
  else if totalTokens request store ≤ request.available * 80 % 2 ^ 64 / 100 then .ok unchanged
  else if keepFromIdx request store = 0 then .ok unchanged
  else do
    let prompt ← match seams.prompt with
      | some prompt => .ok prompt
      | none => .error (.internal "CHAT_COMPACTION.md prompt missing from resources".toList)
    let content ← seams.summarize prompt (summarizerInput request store)
    let row := summaryRow request store content now
    seams.save row
    .ok (⟨true, ⟨some content, store.live.drop (keepFromIdx request store)⟩⟩,
      { store with summary := some row })

end Compact

end Frona.Chat
