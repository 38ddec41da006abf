import Frona.Chat.Message

set_option autoImplicit false

namespace Frona.Inference

open Utf8
open Frona.Chat (Json Reasoning contains)

structure RigToolCall where
  id : Text
  provider : Option Text := none
  name : Text
  arguments : Json
  signature : Option Text := none

structure ToolResult where
  call : Text
  provider : Option Text := none
  name : Text
  content : List Text

-- An image block holds the bytes that are sent in base64 and the type they are declared as.
inductive UserContent where
  | text (text : Text)
  | image (bytes : List UInt8) (contentType : Text)
  | toolResult (result : ToolResult)

inductive AssistantContent where
  | text (text : Text)
  | reasoning (reasoning : Reasoning)
  | toolCall (call : RigToolCall)

inductive RigMessage where
  | user (content : List UserContent)
  | assistant (content : List AssistantContent)
  | system (content : Text)

def RigMessage.userText (text : Text) : RigMessage := .user [.text text]

def RigMessage.assistantText (text : Text) : RigMessage := .assistant [.text text]

def UserContent.isImage : UserContent → Bool
  | .image _ _ => true
  | _ => false

def UserContent.isToolResult : UserContent → Bool
  | .toolResult _ => true
  | _ => false

section Estimates

def estimateTokens (text : Text) : Nat := byteLength text / 4 + 4

def userContentLength : UserContent → Nat
  | .text text => byteLength text
  | .toolResult result => (result.content.map byteLength).sum
  | .image _ _ => 100

def assistantContentLength : AssistantContent → Nat
  | .text text => byteLength text
  | .toolCall call => byteLength call.name + byteLength call.arguments.render
  | .reasoning _ => 100

def estimateMessageTokens (message : RigMessage) : Nat :=
  let contentLength := match message with
    | .user content => (content.map userContentLength).sum
    | .assistant content => (content.map assistantContentLength).sum
    | .system content => byteLength content
  contentLength / 4 + 4

theorem estimateTokens_pos (text : Text) : 0 < estimateTokens text := by
  simp [estimateTokens]

theorem estimateMessageTokens_pos (message : RigMessage) : 0 < estimateMessageTokens message := by
  simp [estimateMessageTokens]

end Estimates

section Calls

def RigMessage.isAssistant : RigMessage → Bool
  | .assistant _ => true
  | _ => false

def AssistantContent.callId : AssistantContent → Option Text
  | .toolCall call => some call.id
  | _ => none

def UserContent.resultId : UserContent → Option Text
  | .toolResult result => some result.call
  | _ => none

def RigMessage.callIds : RigMessage → List Text
  | .assistant content => content.filterMap AssistantContent.callId
  | _ => []

def RigMessage.resultIds : RigMessage → List Text
  | .user content => content.filterMap UserContent.resultId
  | _ => []

@[simp] theorem callIds_user (content : List UserContent) :
    (RigMessage.user content).callIds = [] := rfl

@[simp] theorem resultIds_assistant (content : List AssistantContent) :
    (RigMessage.assistant content).resultIds = [] := rfl

@[simp] theorem callIds_userText (text : Text) : (RigMessage.userText text).callIds = [] := rfl

@[simp] theorem resultIds_userText (text : Text) : (RigMessage.userText text).resultIds = [] := rfl

@[simp] theorem callIds_assistantText (text : Text) :
    (RigMessage.assistantText text).callIds = [] := rfl

@[simp] theorem resultIds_assistantText (text : Text) :
    (RigMessage.assistantText text).resultIds = [] := rfl

end Calls

section Replace

def historyHasImages (history : List RigMessage) : Bool :=
  history.any fun
    | .user content => content.any UserContent.isImage
    | _ => false

def replaceImagesIn (replacement : Text) : RigMessage → RigMessage
  | .user content =>
      if content.any UserContent.isImage then
        .user (content.filter (!·.isImage) ++ [.text replacement])
      else .user content
  | other => other

def omittedMarker : Text :=
  "[Attachment omitted: the selected model does not support image input.]".toList

def unprocessedMarker : Text :=
  "[Attachment omitted: image could not be processed for this model.]".toList

def imageTranscription (text : Text) : Text :=
  "<image_transcription>\n".toList ++ Frona.Text.trim text ++ "\n</image_transcription>".toList

def stripImagesFromHistory (history : List RigMessage) : List RigMessage :=
  history.map (replaceImagesIn omittedMarker)

def transcribeImagesInHistory (transcribe : Nat → Option Text) (history : List RigMessage) :
    List RigMessage :=
  history.mapIdx fun index message =>
    replaceImagesIn (((transcribe index).map imageTranscription).getD unprocessedMarker) message

/-- `replace_images_for_text_only_model`, with the transcriber if there is one. -/
def replaceImages (vision : Option (Nat → Option Text)) (history : List RigMessage) :
    List RigMessage :=
  if historyHasImages history then
    match vision with
    | some transcribe => transcribeImagesInHistory transcribe history
    | none => stripImagesFromHistory history
  else history

def isImageInputUnsupportedError (lowercase : Text → Text) (message : Text) : Bool :=
  let lower := lowercase message
  contains lower "image".toList &&
    (contains lower "support image".toList || contains lower "not support".toList ||
      contains lower "unsupported".toList || contains lower "no endpoints found".toList)

end Replace

section Pairs

def RigMessage.pairing (message : RigMessage) : Bool × List Text × List Text :=
  (message.isAssistant, message.callIds, message.resultIds)

theorem replaceImagesIn_pairing (replacement : Text) (message : RigMessage) :
    (replaceImagesIn replacement message).pairing = message.pairing := by
  cases message with
  | assistant content => rfl
  | system content => rfl
  | user content =>
      simp only [replaceImagesIn]
      split
      · simp only [RigMessage.pairing, RigMessage.isAssistant, RigMessage.callIds,
          RigMessage.resultIds, List.filterMap_append, List.filterMap_filter, Prod.mk.injEq,
          true_and]
        rw [List.filterMap_cons_none rfl, List.filterMap_nil, List.append_nil]
        apply List.filterMap_congr
        intro item _
        cases item <;> rfl
      · rfl

theorem replaceImages_pairing (vision : Option (Nat → Option Text)) (history : List RigMessage) :
    (replaceImages vision history).map RigMessage.pairing =
      history.map RigMessage.pairing := by
  unfold replaceImages
  split
  · cases vision with
    | none =>
        simp only [stripImagesFromHistory, List.map_map]
        exact List.map_congr_left fun message _ => replaceImagesIn_pairing _ message
    | some transcribe =>
        apply List.ext_getElem
        · simp [transcribeImagesInHistory]
        · intro index _ _
          simp [transcribeImagesInHistory, replaceImagesIn_pairing]
  · rfl

end Pairs

end Frona.Inference
