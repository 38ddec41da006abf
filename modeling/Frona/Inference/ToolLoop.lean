import Frona.Inference.Rig

set_option autoImplicit false

namespace Frona.Inference

open Utf8
open Frona.Chat (Json Reasoning Attachment)

section Outcomes

inductive ToolStatus where
  | pending
  | resolved
  | denied
deriving DecidableEq

inductive TaskEvent where
  | completion (taskId : Text)
  | deferred (taskId : Text)

inductive AppError where
  | inference (display : Text)
  | internal (display : Text)

structure ToolOutput where
  text : Text
  images : List (List UInt8 × Text) := []
  attachments : List Attachment := []
  hitl : Option ToolStatus := none
  taskEvent : Option TaskEvent := none
  systemPrompt : Option Text := none
  pendingExternal : Bool := false
  success : Bool := true

inductive Execution where
  | abandoned
  | failed (display : Text)
  | finished (output : ToolOutput)

structure ToolCallResult where
  providerCallId : Text
  toolName : Text
  arguments : Json
  result : Text
  success : Bool
  hitl : Option ToolStatus
  taskEvent : Option TaskEvent
  systemPrompt : Option Text

inductive Response where
  | contents (content : List AssistantContent) (streamed : Text)
  | cancelled (streamed : Text)
  | failed (error : AppError)

inductive ToolLoopOutcome where
  | completed (text : Text) (attachments : List Attachment) (lifecycleEvent : Option TaskEvent)
      (reasoning : Option Reasoning)
  | cancelled (text : Text)
  | externalToolPending (turnText : Text) (toolCalls : List ToolCallResult)
      (systemPrompt : Option Text)

structure ModelRequest where
  systemPrompt : Text
  history : List RigMessage
  moment : Nat

end Outcomes

/-- All that a run of the loop meets, by moments: when it is cancelled, what the model and the
tools answer, what the database and the transcriber do. A cancelled token stays cancelled, and a
tool is abandoned only when the token is cancelled. -/
structure Surroundings where
  cancelled : Nat → Bool
  stays : ∀ moment later, cancelled moment = true → moment ≤ later → cancelled later = true
  shutdown : Nat → Bool
  respond : Nat → Response
  execute : Nat → Execution
  abandons : ∀ moment, execute moment = .abandoned → cancelled moment = true
  persist : Nat → Except AppError Unit
  activeChat : Except AppError Unit
  vision : Nat → Option (Nat → Option Text)
  lowercase : Text → Text

section Calls

def toolCallsOf (contents : List AssistantContent) : List RigToolCall :=
  contents.filterMap fun
    | .toolCall call => some call
    | _ => none

def extractReasoning (contents : List AssistantContent) : Option Reasoning :=
  contents.findSome? fun
    | .reasoning reasoning => some reasoning
    | _ => none

def retained : AssistantContent → AssistantContent
  | .toolCall call =>
      .toolCall { call with arguments := call.arguments.remove "description".toList }
  | other => other

def processModelResponse (contents : List AssistantContent) (chatHistory : List RigMessage) :
    List RigMessage × Bool :=
  let items := contents.map retained
  let content := if items.isEmpty then [.text []] else items
  (chatHistory ++ [.assistant content], !(toolCallsOf contents).isEmpty)

def concurrencySafeTools : List Text :=
  ["read".toList, "glob".toList, "grep".toList, "analyze_image".toList, "web_search".toList,
    "web_fetch".toList, "search_skills".toList, "list_tasks".toList, "memory_search".toList,
    "memory_graph_get".toList, "memory_graph_sparql".toList, "analyse_spend".toList,
    "compare_models".toList, "list_provider_billing".toList]

def isConcurrencySafe (toolId : Text) : Bool := concurrencySafeTools.contains toolId

def pushCall (batches : List (List RigToolCall)) (call : RigToolCall) :
    List (List RigToolCall) :=
  match batches.getLast? with
  | some (first :: rest) =>
      if isConcurrencySafe call.name && isConcurrencySafe first.name then
        batches.dropLast ++ [first :: rest ++ [call]]
      else batches ++ [[call]]
  | _ => batches ++ [[call]]

def batchToolCalls (calls : List RigToolCall) : List (List RigToolCall) :=
  calls.foldl pushCall []

def buildToolResultMessage (call : RigToolCall) (result : Text)
    (images : List (List UInt8 × Text)) : RigMessage :=
  .user (.toolResult ⟨call.id, call.provider, call.name, [result]⟩ ::
    images.map fun image => .image image.1 image.2)

def extendUniqueAttachments (all attachments : List Attachment) : List Attachment :=
  attachments.foldl (fun all attachment =>
    if all.any fun existing =>
        existing.owner = attachment.owner && existing.path = attachment.path
    then all else all ++ [attachment]) all

end Calls

section Execute

/-- The state of `execute_tool_calls`. -/
structure Exec where
  moment : Nat
  chatHistory : List RigMessage
  attachments : List Attachment
  externalTools : List ToolCallResult := []
  internalToolResults : List ToolCallResult := []
  systemPrompts : List Text := []

variable (around : Surroundings)

def Exec.persist (exec : Exec) : Except AppError Exec := do
  around.persist exec.moment
  pure { exec with moment := exec.moment + 1 }

def beginCalls : List RigToolCall → Exec → Except AppError Exec
  | [], exec => .ok exec
  | _ :: rest, exec => do
      around.activeChat
      let exec ← exec.persist around
      beginCalls rest exec

def runCalls : List RigToolCall → Nat → List (RigToolCall × Execution)
  | [], _ => []
  | call :: rest, moment => (call, around.execute moment) :: runCalls rest (moment + 1)

def Exec.persistIf (wanted : Bool) (exec : Exec) : Except AppError Exec :=
  if wanted then exec.persist around else .ok exec

-- The row of a call is finished, then its prompt and its event are set.
def finishCall (hitl : Option ToolStatus) (taskEvent : Option TaskEvent) (exec : Exec) :
    Except AppError Exec := do
  let finished ← exec.persist around
  let prompted ← finished.persistIf around hitl.isSome
  prompted.persistIf around taskEvent.isSome

def settleCall (call : RigToolCall) (execution : Execution) (exec : Exec) :
    Except AppError (Exec × Bool) :=
  match execution with
  | .abandoned => .ok ({ exec with moment := exec.moment + 1 }, true)
  | .failed display => do
      let text := "Error: ".toList ++ display
      let exec ← finishCall around none none exec
      let result : ToolCallResult := ⟨call.provider.getD call.id, call.name,
        call.arguments.remove "description".toList, text, false, none, none, none⟩
      .ok ({ exec with
        internalToolResults := exec.internalToolResults ++ [result]
        chatHistory := exec.chatHistory ++ [buildToolResultMessage call text []] }, false)
  | .finished output => do
      let exec := { exec with
        attachments := extendUniqueAttachments exec.attachments output.attachments }
      let exec ← finishCall around output.hitl output.taskEvent exec
      let result : ToolCallResult := ⟨call.provider.getD call.id, call.name,
        call.arguments.remove "description".toList, output.text, output.success, output.hitl,
        output.taskEvent, output.systemPrompt⟩
      if output.hitl = some .pending || output.pendingExternal then
        .ok ({ exec with externalTools := exec.externalTools ++ [result] }, false)
      else
        .ok ({ exec with
          systemPrompts := exec.systemPrompts ++ output.systemPrompt.toList
          internalToolResults := exec.internalToolResults ++ [result]
          chatHistory := exec.chatHistory ++
            [buildToolResultMessage call output.text output.images] }, false)

def settleCalls : List (RigToolCall × Execution) → Exec → Except AppError (Exec × Bool)
  | [], exec => .ok (exec, false)
  | (call, execution) :: rest, exec => do
      let (exec, abandoned) ← settleCall around call execution exec
      let (exec, later) ← settleCalls rest exec
      .ok (exec, abandoned || later)

def executeBatches : List (List RigToolCall) → Exec → Except AppError Exec
  | [], exec => .ok exec
  | batch :: rest, exec =>
      if around.cancelled exec.moment then .ok exec
      else do
        let exec ← beginCalls around batch exec
        let runs := runCalls around batch exec.moment
        let (exec, abandoned) ←
          settleCalls around runs { exec with moment := exec.moment + batch.length }
        if abandoned then .ok exec else executeBatches rest exec

def executeToolCalls (contents : List AssistantContent) (exec : Exec) : Except AppError Exec :=
  executeBatches around (batchToolCalls (toolCallsOf contents)) exec

end Execute

section Loop

/-- The state of `run_tool_loop`, with the requests that it has issued. -/
structure Loop where
  moment : Nat := 0
  chatHistory : List RigMessage
  systemPrompt : Text
  attachments : List Attachment := []
  lastReasoning : Option Reasoning := none
  textOnly : Bool := false
  imageFallbackUsed : Bool := false
  requests : List ModelRequest := []

def isOrphan : RigMessage → Bool
  | .user content => content.any UserContent.isToolResult
  | _ => false

def stripLeadingOrphans (chatHistory : List RigMessage) : List RigMessage :=
  chatHistory.dropWhile isOrphan

variable (around : Surroundings)

def Loop.request (loop : Loop) : Loop × Response :=
  ({ loop with
      moment := loop.moment + 1
      requests := loop.requests ++ [⟨loop.systemPrompt, loop.chatHistory, loop.moment⟩] },
    around.respond loop.moment)

def Loop.replaceImages (loop : Loop) : Loop :=
  { loop with
    moment := loop.moment + 1
    chatHistory := Inference.replaceImages (around.vision loop.moment) loop.chatHistory }

def rejectsImages (loop : Loop) : Response → Bool
  | .failed (.inference display) => !loop.imageFallbackUsed &&
      isImageInputUnsupportedError around.lowercase display && historyHasImages loop.chatHistory
  | _ => false

-- The retry without images happens once, because it sets the flag that allows it.
def Loop.stream (loop : Loop) : Loop × Response :=
  let (requested, response) := loop.request around
  if rejectsImages around requested response then
    Loop.request around
      (Loop.replaceImages around { requested with imageFallbackUsed := true, textOnly := true })
  else (requested, response)

def appendPrompts (prompt : Text) (added : List Text) : Text :=
  added.foldl (fun prompt added => prompt ++ "\n\n".toList ++ added) prompt

abbrev TurnEnd := Option (Except AppError ToolLoopOutcome)

def Loop.afterCalls (loop : Loop) (turnText : Text) (exec : Exec) : Loop × TurnEnd :=
  let executed := { loop with
    moment := exec.moment, chatHistory := exec.chatHistory, attachments := exec.attachments }
  let ready := if executed.textOnly then executed.replaceImages around else executed
  let lifecycleEvent := exec.internalToolResults.findSome? (·.taskEvent)
  if around.cancelled ready.moment then (ready, some (.ok (.cancelled turnText)))
  else if around.shutdown ready.moment then
    (ready, some (.ok (.completed turnText ready.attachments none ready.lastReasoning)))
  else if !exec.externalTools.isEmpty then
    (ready, some (.ok (.externalToolPending turnText exec.externalTools
      (exec.externalTools.getLast?.bind (·.systemPrompt)))))
  else if lifecycleEvent.isSome then
    (ready, some (.ok (.completed turnText ready.attachments lifecycleEvent ready.lastReasoning)))
  else
    ({ ready with systemPrompt := appendPrompts ready.systemPrompt exec.systemPrompts }, none)

def Loop.respondTo (loop : Loop) (contents : List AssistantContent) (streamed : Text) :
    Loop × TurnEnd :=
  let (chatHistory, hasToolCalls) := processModelResponse contents loop.chatHistory
  let answered := { loop with chatHistory, lastReasoning := extractReasoning contents }
  if !hasToolCalls then
    (answered, some (.ok (.completed streamed answered.attachments none answered.lastReasoning)))
  else
    match executeToolCalls around contents
        { moment := answered.moment, chatHistory, attachments := answered.attachments } with
    | .error error => (answered, some (.error error))
    | .ok exec => answered.afterCalls around streamed exec

def Loop.turn (loop : Loop) : Loop × TurnEnd :=
  if around.cancelled loop.moment then (loop, some (.ok (.cancelled [])))
  else
    let stripped := { loop with chatHistory := stripLeadingOrphans loop.chatHistory }
    match around.activeChat with
    | .error error => (stripped, some (.error error))
    | .ok () =>
        let (streamed, response) := stripped.stream around
        match response with
        | .failed error => (streamed, some (.error error))
        | .cancelled text => (streamed, some (.ok (.cancelled text)))
        | .contents contents text => streamed.respondTo around contents text

def Loop.turns : Nat → Loop → Loop × Except AppError ToolLoopOutcome
  | 0, loop => (loop, .ok (.completed [] loop.attachments none loop.lastReasoning))
  | left + 1, loop =>
      match loop.turn around with
      | (next, some outcome) => (next, outcome)
      | (next, none) =>
          if left = 0 then (next, .error (.internal "Max tool turns reached".toList))
          else Loop.turns left next

def runToolLoop (maxToolTurns : Nat) (textOnly : Bool) (systemPrompt : Text)
    (chatHistory : List RigMessage) : Loop × Except AppError ToolLoopOutcome :=
  Loop.turns around maxToolTurns { chatHistory, systemPrompt, textOnly }

end Loop

end Frona.Inference
