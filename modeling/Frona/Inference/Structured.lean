import Frona.Inference.ToolLoop

set_option autoImplicit false

namespace Frona.Inference

open Utf8
open Frona.Chat (Json)

structure RigToolDefinition where
  name : Text
  description : Text
  parameters : Json

inductive AnswerAttempt (T : Type) where
  | submitted (value : T)
  | invalidSubmission
  | missingSubmission

structure Exchange where
  history : List RigMessage
  systemPrompt : Text
  tools : List RigToolDefinition
  response : Except Text (List AssistantContent)

structure StructuredConversation where
  explorationToolDefs : List RigToolDefinition
  submitToolDef : RigToolDefinition
  history : List RigMessage
  system : Text
  toolTurnsLeft : Nat
  requestsUsed : Nat
  lastSubmit : Option (Text × Option Text)
  -- No step reads the rest: the requests made, and the tool calls run with the request they follow.
  exchanges : List Exchange
  executed : List (Nat × RigToolCall)

structure Partners (T : Type) where
  respond : Nat → Except Text (List AssistantContent)
  execute : Nat → RigToolCall → Except Text Text
  deserializeSubmission : Json → Except Text T

def submitToolName : Text := "submit".toList

def RigToolCall.isSubmit (call : RigToolCall) : Bool := call.name == submitToolName

def limitReached : Text :=
  "tool error: exploration tool limit reached; call `submit` now".toList

def malformed (error : Text) : Text :=
  "Your `submit` call did not match the required schema and was NOT recorded: ".toList ++ error ++
    ". Call `submit` again with every required field present.".toList

def missing : Text :=
  "You replied without a recorded submission. Call the `".toList ++ submitToolName ++
    "` tool with your answer.".toList

def submitToolDefinition (parameters : Json) : RigToolDefinition where
  name := submitToolName
  description :=
    "Submit the final structured result. Call this once you are confident.".toList
  parameters := parameters

namespace StructuredConversation

/-- `schema` is the JSON schema of the answer's type. -/
def new (explorationToolDefs : List RigToolDefinition) (schema : Json) (system initial : Text)
    (maxToolTurns : Nat) : StructuredConversation where
  explorationToolDefs := explorationToolDefs
  submitToolDef := submitToolDefinition schema
  history := [.userText initial]
  system := system
  toolTurnsLeft := maxToolTurns
  requestsUsed := 0
  lastSubmit := none
  exchanges := []
  executed := []

def push (conversation : StructuredConversation) (message : RigMessage) :
    StructuredConversation :=
  { conversation with history := conversation.history ++ [message] }

def answerPendingSubmission (conversation : StructuredConversation) (text : Text) :
    StructuredConversation × Except AppError Unit :=
  match conversation.lastSubmit with
  | none =>
      (conversation,
        .error (.internal "conversation: no submitted answer is waiting for feedback".toList))
  | some (id, callId) =>
      (push { conversation with lastSubmit := none }
        (.user [.toolResult ⟨id, callId, submitToolName, [text]⟩]), .ok ())

def rejectSubmission (conversation : StructuredConversation) (reason : Text) :
    StructuredConversation × Except AppError Unit :=
  conversation.answerPendingSubmission reason

variable {T : Type} (around : Partners T)

def exploreCall (allowed : Bool) (conversation : StructuredConversation) (call : RigToolCall) :
    StructuredConversation :=
  if call.isSubmit then conversation
  else if allowed then
    let text :=
      match around.execute conversation.executed.length call with
      | .ok out => out
      | .error error => "tool error: ".toList ++ error
    push { conversation with
      executed := conversation.executed ++ [(conversation.requestsUsed, call)] }
      (buildToolResultMessage call text [])
  else conversation.push (buildToolResultMessage call limitReached [])

def ask (conversation : StructuredConversation) :
    StructuredConversation × Except Text (List AssistantContent) :=
  let explorationAllowed := decide (0 < conversation.toolTurnsLeft)
  let toolDefs := if explorationAllowed then conversation.explorationToolDefs else []
  let response := around.respond conversation.requestsUsed
  ({ conversation with
    requestsUsed := conversation.requestsUsed + 1
    exchanges := conversation.exchanges ++ [⟨conversation.history, conversation.system,
      toolDefs ++ [conversation.submitToolDef], response⟩] }, response)

def explore (conversation : StructuredConversation) (contents : List AssistantContent) :
    StructuredConversation × Bool :=
  let explorationAllowed := decide (0 < conversation.toolTurnsLeft)
  let hasExploration := (toolCallsOf contents).any fun call => !call.isSubmit
  let answered := (toolCallsOf contents).foldl (exploreCall around explorationAllowed)
    { conversation with history := (processModelResponse contents conversation.history).1 }
  if hasExploration && explorationAllowed then
    ({ answered with toolTurnsLeft := answered.toolTurnsLeft - 1 }, true)
  else (answered, false)

def conclude (conversation : StructuredConversation) (explored : Bool) :
    Option RigToolCall → StructuredConversation × Option (Except AppError (AnswerAttempt T))
  | some submit =>
      let pending := { conversation with lastSubmit := some (submit.id, submit.provider) }
      match around.deserializeSubmission submit.arguments with
      | .ok value => (pending, some (.ok (.submitted value)))
      | .error error =>
          match pending.answerPendingSubmission (malformed error) with
          | (answered, .ok ()) => (answered, some (.ok .invalidSubmission))
          | (answered, .error error) => (answered, some (.error error))
  | none =>
      if explored then (conversation, none)
      else (conversation.push (.userText missing), some (.ok .missingSubmission))

/-- One pass of the loop in `next_attempt`. -/
def turn (conversation : StructuredConversation) :
    StructuredConversation × Option (Except AppError (AnswerAttempt T)) :=
  match conversation.ask around with
  | (asked, .error error) =>
      (asked, some (.error (.internal ("conversation inference: ".toList ++ error))))
  | (asked, .ok contents) =>
      let explored := asked.explore around contents
      explored.1.conclude around explored.2 ((toolCallsOf contents).find? RigToolCall.isSubmit)

@[simp] theorem exploreCall_toolTurnsLeft (allowed : Bool) (conversation : StructuredConversation)
    (call : RigToolCall) :
    (conversation.exploreCall around allowed call).toolTurnsLeft = conversation.toolTurnsLeft := by
  unfold exploreCall
  split
  next => rfl
  next => split <;> rfl

theorem foldl_toolTurnsLeft (allowed : Bool) (calls : List RigToolCall)
    (conversation : StructuredConversation) :
    (calls.foldl (exploreCall around allowed) conversation).toolTurnsLeft =
      conversation.toolTurnsLeft := by
  induction calls generalizing conversation with
  | nil => rfl
  | cons call rest ih => simp [ih]

theorem conclude_again {conversation after : StructuredConversation} {explored : Bool}
    {submit : Option RigToolCall}
    (again : conversation.conclude around explored submit = (after, none)) :
    after = conversation ∧ explored = true ∧ submit = none := by
  cases submit with
  | some submit =>
      simp only [conclude, answerPendingSubmission] at again
      split at again <;> simp at again
  | none =>
      cases explored with
      | true => simpa [conclude, eq_comm] using again
      | false => simp [conclude] at again

theorem explore_true {conversation : StructuredConversation} {contents : List AssistantContent}
    (explored : (conversation.explore around contents).2 = true) :
    (conversation.explore around contents).1.toolTurnsLeft < conversation.toolTurnsLeft := by
  unfold explore at explored ⊢
  simp only at explored ⊢
  split
  next allowed =>
    have positive : 0 < conversation.toolTurnsLeft := by
      simpa using (Bool.and_eq_true_iff.mp allowed).2
    simp only [foldl_toolTurnsLeft]
    omega
  next never => simp [never] at explored

theorem turn_decreases {conversation after : StructuredConversation}
    (again : conversation.turn around = (after, none)) :
    after.toolTurnsLeft < conversation.toolTurnsLeft := by
  unfold turn at again
  split at again
  next => simp at again
  next asked contents same =>
    have left : asked.toolTurnsLeft = conversation.toolTurnsLeft := by
      rw [← (Prod.mk.inj same).1]
    obtain ⟨rfl, explored, _⟩ := conclude_again around again
    have fewer := explore_true around explored
    omega

set_option linter.unusedVariables false in
/-- The loop of `next_attempt`. -/
def attempts (conversation : StructuredConversation) :
    StructuredConversation × Except AppError (AnswerAttempt T) :=
  match again : conversation.turn around with
  | (after, some result) => (after, result)
  | (after, none) => after.attempts
termination_by conversation.toolTurnsLeft
decreasing_by exact turn_decreases around again

def nextAttempt (conversation : StructuredConversation) :
    StructuredConversation × Except AppError (AnswerAttempt T) :=
  if conversation.lastSubmit.isSome then
    (conversation, .error (.internal
      ("conversation: the previous submission must be rejected before another " ++
        "attempt").toList))
  else conversation.attempts around

end StructuredConversation

inductive CallerStep where
  | nextAttempt
  | rejectSubmission (reason : Text)

def CallerStep.perform {T : Type} (around : Partners T) (conversation : StructuredConversation) :
    CallerStep → StructuredConversation
  | nextAttempt => (conversation.nextAttempt around).1
  | rejectSubmission reason => (conversation.rejectSubmission reason).1

def StructuredConversation.run {T : Type} (around : Partners T) (steps : List CallerStep)
    (conversation : StructuredConversation) : StructuredConversation :=
  steps.foldl (CallerStep.perform around) conversation

end Frona.Inference
