import Frona.Inference.Rig

set_option autoImplicit false

namespace Frona.Inference

open Utf8
open Frona.Chat

section Services

inductive VirtualPath where
  | user (handle path : Text)
  | agent (agentId path : Text)

structure Services where
  userHandle : Text → Option Text
  agentHandle : Text → Option Text
  resolveVirtualPath : Text → VirtualPath → Option Text
  read : Text → Option (List UInt8)

structure CallIds where
  providerCallId : Text → Option Text
  forProvider : Option Text → Text
  fromWire : Text → Text × Option Text

/-- A call and a result that are rebuilt from one id of a response name each other. -/
def CallIds.Agree (ids : CallIds) : Prop :=
  ∀ wire, wire ≠ [] → (ids.fromWire wire).1 = ids.forProvider (ids.providerCallId wire)

structure ConversationContext where
  agentId : Text
  userId : Text

end Services

section Texts

-- The texts that open what the builder wraps are constants, so that proofs do not spell them out.
def filesOpening : Text := "\n<files>\n".toList

def attributionOpening : Text := "<system source=\"agent:".toList

def taskResultOpening : Text := "<task_result>".toList

def summaryOpening : Text := "<conversation_summary>\n".toList

def liveCallTag : Text := "[LIVE_CALL] ".toList

def filesBlock (content : Text) (paths : List Text) : Text :=
  content ++ filesOpening ++ joinLines paths ++ "\n</files>".toList

def voiceNoteBlock (attachment : Attachment) : Option Text :=
  attachment.transcript.map fun transcript =>
    "<voice_note file=\"".toList ++
      attachment.filename.map (fun c => if c = '"' then '\'' else c) ++
      "\">\n".toList ++ transcript ++ "\n</voice_note>".toList

def withNotes (text : Text) (attachments : List Attachment) : Text :=
  (attachments.filterMap voiceNoteBlock).foldl (fun text note => text ++ '\n' :: note) text

def formatFilesBlockSimple (content : Text) (attachments : List Attachment) : Text :=
  if attachments.isEmpty then content
  else withNotes (filesBlock content (attachments.map (·.path))) attachments

def isImageContentType (contentType : Text) : Bool := startsWith "image/".toList contentType

def isEmbeddableImage (attachment : Attachment) : Bool :=
  isImageContentType attachment.contentType && !contains attachment.contentType "svg".toList

def attributeCrossAgent (content : Text) (handle : Option Text) : Text :=
  attributionOpening ++ handle.getD "unknown".toList ++ "\">\n".toList ++
    content ++ "\n</system>".toList

def hasSchema : Option MessageEvent → Bool
  | some (.taskCompletion (some _)) => true
  | _ => false

def taskCompletionContent (message : Message) : Text :=
  if hasSchema message.event && !message.content.isEmpty then
    taskResultOpening ++ message.content ++ "</task_result>".toList
  else message.content

def conversationSummary (summary : Text) : Text :=
  summaryOpening ++ summary ++ "\n</conversation_summary>".toList

def liveCallContent (content : Text) : Text := liveCallTag ++ content

theorem filesOpening_ne_nil : filesOpening ≠ [] := by decide

theorem attributionOpening_ne_nil : attributionOpening ≠ [] := by decide

theorem taskResultOpening_ne_nil : taskResultOpening ≠ [] := by decide

theorem summaryOpening_ne_nil : summaryOpening ≠ [] := by decide

theorem liveCallTag_ne_nil : liveCallTag ≠ [] := by decide

end Texts

section UserMessages

variable (services : Services)

def resolveAttachmentPath (attachment : Attachment) (ownerUserId : Text) : Text :=
  let owned := match stripPrefix "user:".toList attachment.owner with
    | some userId => (services.userHandle userId).map fun handle =>
        (handle, VirtualPath.user handle attachment.path)
    | none => match stripPrefix "agent:".toList attachment.owner with
      | some agentId => (services.userHandle ownerUserId).map fun handle =>
          (handle, VirtualPath.agent agentId attachment.path)
      | none => none
  match owned with
  | none => attachment.path
  | some (handle, virtualPath) =>
      (services.resolveVirtualPath handle virtualPath).getD attachment.path

-- An image whose file cannot be read is left out.
def imageBlock (ownerUserId : Text) (attachment : Attachment) : Option UserContent :=
  (services.read (resolveAttachmentPath services attachment ownerUserId)).map
    (.image · attachment.contentType)

def userMessageText (content : Text) (attachments : List Attachment) (ownerUserId : Text) :
    Text :=
  let nonImages := attachments.filter (!isEmbeddableImage ·)
  let text := if nonImages.isEmpty then content
    else filesBlock content (nonImages.map (resolveAttachmentPath services · ownerUserId))
  withNotes text nonImages

def buildUserMessage (content : Text) (attachments : List Attachment) (ownerUserId : Text) :
    RigMessage :=
  if attachments.isEmpty then .userText content
  else
    let images := attachments.filter isEmbeddableImage
    let text := userMessageText services content attachments ownerUserId
    if images.isEmpty then .userText text
    else
      let contents := .text text :: images.filterMap (imageBlock services ownerUserId)
      if contents.length = 1 then .userText text else .user contents

end UserMessages

section AgentMessages

def groupToolCallsByMessage (toolCalls : List ToolCall) (messageId : Text) :
    Option (List ToolCall) :=
  match toolCalls.filter (·.messageId = messageId) with
  | [] => none
  | calls => some calls

def insertTurn (call : ToolCall) : List (Nat × List ToolCall) → List (Nat × List ToolCall)
  | [] => [(call.turn, [call])]
  | (turn, calls) :: rest =>
      if call.turn < turn then (call.turn, [call]) :: (turn, calls) :: rest
      else if call.turn = turn then (turn, calls ++ [call]) :: rest
      else (turn, calls) :: insertTurn call rest

def groupTurns (toolCalls : List ToolCall) : List (Nat × List ToolCall) :=
  toolCalls.foldl (fun turns call => insertTurn call turns) []

variable (ids : CallIds)

def rebuiltCall (call : ToolCall) : RigToolCall where
  id := (ids.fromWire call.providerCallId).1
  provider := (ids.fromWire call.providerCallId).2
  name := call.name
  arguments := call.arguments
  signature := call.signature

def rebuiltResult (call : ToolCall) : ToolResult where
  call := ids.forProvider (ids.providerCallId call.providerCallId)
  provider := ids.providerCallId call.providerCallId
  name := call.name
  content := [call.result]

def turnItems (calls : List ToolCall) : List AssistantContent :=
  (calls.findSome? (·.turnReasoning)).toList.map .reasoning ++
    ((calls.findSome? (·.turnText)).toList.filter (!·.isEmpty)).map .text ++
    calls.map fun call => .toolCall (rebuiltCall ids call)

def convertTurn (calls : List ToolCall) : List RigMessage :=
  let assistantItems := turnItems ids calls
  let toolResults := calls.map fun call => UserContent.toolResult (rebuiltResult ids call)
  (if assistantItems.isEmpty then [] else [.assistant assistantItems]) ++
    (if toolResults.isEmpty then [] else [.user toolResults])

def convertAgentWithToolCalls (message : Message) (toolCalls : List ToolCall) (agentId : Text)
    (otherAgentHandle : Option Text) : List RigMessage :=
  if message.agentId ≠ some agentId then
    if message.content.isEmpty then []
    else [.userText (attributeCrossAgent message.content otherAgentHandle)]
  else
    let isCompleted := message.status = some .completed
    (groupTurns toolCalls).flatMap (fun turn => convertTurn ids turn.2) ++
      if isCompleted ∧ ¬message.content.isEmpty then
        [.assistant (message.reasoning.toList.map .reasoning ++ [.text message.content])]
      else []

def convertAgentMessage (message : Message) (agentId : Text) (otherAgentHandle : Option Text) :
    Option RigMessage :=
  if message.status = some .executing ∨ message.status = some .paused then none
  else if message.agentId = some agentId then
    match message.reasoning with
    | some reasoning => some (.assistant (.reasoning reasoning ::
        if message.content.isEmpty then [] else [.text message.content]))
    | none => if message.content.isEmpty then none else some (.assistantText message.content)
  else if message.content.isEmpty then none
  else some (.userText (attributeCrossAgent message.content otherAgentHandle))

def resolveOtherAgentHandle (services : Services) (message : Message) (currentAgentId : Text) :
    Option Text :=
  match message.agentId with
  | none => none
  | some id => if id = currentAgentId then none else services.agentHandle id

end AgentMessages

section Build

variable (services : Services) (ids : CallIds) (context : ConversationContext)

def buildMessage (toolCalls : List ToolCall) (message : Message) : List RigMessage :=
  let isEmpty := isBlank message.content && message.attachments.isEmpty
  let user (content : Text) :=
    buildUserMessage services content message.attachments context.userId
  match message.role with
  | .user | .contact => if isEmpty then [] else [user message.content]
  | .taskCompletion => if isEmpty then [] else [user (taskCompletionContent message)]
  | .liveCall => [user (liveCallContent message.content)]
  | .agent =>
      let otherHandle := resolveOtherAgentHandle services message context.agentId
      match groupToolCallsByMessage toolCalls message.id with
      | some calls =>
          convertAgentWithToolCalls ids message calls context.agentId otherHandle
      | none => (convertAgentMessage message context.agentId otherHandle).toList
  | .system => if message.content.isEmpty then [] else [.userText message.content]

def summaryMessage (summary : Option Text) : List RigMessage :=
  match summary with
  | some text => if isBlank text then [] else [.userText (conversationSummary text)]
  | none => []

/-- `DefaultConversationBuilder::build` -/
def build (messages : List Message) (toolCalls : List ToolCall) (summary : Option Text) :
    List RigMessage :=
  summaryMessage summary ++ messages.flatMap (buildMessage services ids context toolCalls)

end Build

end Frona.Inference
