import Mathlib.Algebra.Order.Field.Rat
import Frona.Evidence.Chunks
import Frona.Text.Grounding

set_option autoImplicit false

namespace Frona.Evidence

open Utf8 (Text)
open Frona.Chat (Json)

inductive ExecutionEvidenceClass where
  | recall
  | memoryMutation
  | userResponse
  | taskControl
  | evidence
  | sensitive
  deriving DecidableEq

structure ToolCall where
  id : Text
  chatId : Text
  messageId : Text
  turn : Nat
  name : Text
  arguments : Json
  result : Text
  success : Bool
  createdAt : Int

structure ProjectedEvidenceCall where
  localId : Text
  toolCallId : Text
  chatId : Text
  messageId : Text
  name : Text
  arguments : Json
  result : Text
  evidenceClass : ExecutionEvidenceClass
  chunks : List Text

/-- What the search uses of other code: JSON, redaction, the classes of tools, Unicode tables, and
the logarithm and the digits of a score. -/
structure Library where
  parse : Text → Option Json
  pretty : Json → Text
  redact : Text → Text
  sanitizeArguments : Json → Json
  classifyExecution : ToolCall → ExecutionEvidenceClass
  tables : Frona.Text.UnicodeTables
  isAlphanumeric : Char → Bool
  ln : Nat → ℚ
  ln_nonneg : ∀ n, 0 < n → 0 ≤ ln n
  showScore : ℚ → Text

structure ToolEvidenceProjection where
  calls : List ProjectedEvidenceCall
  byAssertionMessage : Text → Option (List Text)

namespace ToolEvidenceProjection

def byLocalId (projection : ToolEvidenceProjection) (id : Text) : Option ProjectedEvidenceCall :=
  projection.calls.find? fun call => call.localId = id

end ToolEvidenceProjection

section New

structure Conversation where
  calls : List ToolCall
  agentMessageIds : List Text
  assertionMessageIds : List Text
  -- By assertion, in the order of their ids
  taskCalls : List (Text × List ToolCall)
  lookbackMessages : Nat

variable (library : Library) (conversation : Conversation)

-- An id that stands twice is where it stands last.
def Conversation.position (id : Text) : Option Nat :=
  (conversation.agentMessageIds.zipIdx.reverse.find? fun entry => entry.1 = id).map Prod.snd

def Conversation.horizon (assertion : Text) : Option (List Text) :=
  (conversation.position assertion).map fun stop =>
    (conversation.agentMessageIds.take (stop + 1)).drop
      (stop + 1 - max conversation.lookbackMessages 1)

def Conversation.isEligible (call : ToolCall) : Bool :=
  call.success && conversation.assertionMessageIds.any fun assertion =>
    (conversation.horizon assertion).any fun horizon => decide (call.messageId ∈ horizon)

def thenLe {A : Type} [DecidableEq A] [LT A] [DecidableLT A] (left right : A) (rest : Bool) :
    Bool :=
  decide (left < right) || decide (left = right) && rest

def Conversation.eligibleLe (left right : ToolCall) : Bool :=
  thenLe ((conversation.position left.messageId).getD 0)
    ((conversation.position right.messageId).getD 0)
    (thenLe left.turn right.turn (thenLe left.createdAt right.createdAt
      (decide (¬ right.id < left.id))))

def taskCallLe (left right : ToolCall) : Bool :=
  thenLe left.createdAt right.createdAt (thenLe left.chatId right.chatId
    (thenLe left.turn right.turn (decide (¬ right.id < left.id))))

def localIdOf (number : Nat) : Text := 'e' :: Nat.toDigits 10 number

def project (call : ToolCall) (number : Nat) : ProjectedEvidenceCall where
  localId := localIdOf number
  toolCallId := call.id
  chatId := call.chatId
  messageId := call.messageId
  name := call.name
  arguments := library.sanitizeArguments call.arguments
  result := library.redact call.result
  evidenceClass := library.classifyExecution call
  chunks := evidenceChunks library.parse (library.redact call.result)

def Conversation.ownCalls : List ProjectedEvidenceCall :=
  let sorted := (conversation.calls.filter conversation.isEligible).mergeSort
    conversation.eligibleLe
  sorted.zipIdx.map fun entry => project library entry.1 (entry.2 + 1)

def ToolEvidenceProjection.new : ToolEvidenceProjection where
  calls := conversation.ownCalls library
  byAssertionMessage assertion :=
    if assertion ∈ conversation.assertionMessageIds then
      (conversation.horizon assertion).map fun horizon =>
        ((conversation.ownCalls library).filter fun call =>
          decide (call.messageId ∈ horizon)).map ProjectedEvidenceCall.localId
    else none

def ToolEvidenceProjection.linkCall (assertion : Text) (projection : ToolEvidenceProjection)
    (call : ToolCall) : ToolEvidenceProjection :=
  let linked := (projection.byAssertionMessage assertion).getD []
  let existing := projection.calls.find? fun other => other.toolCallId = call.id
  let added := project library call (projection.calls.length + 1)
  let localId := (existing.getD added).localId
  { calls := if existing.isSome then projection.calls else projection.calls ++ [added]
    byAssertionMessage := Function.update projection.byAssertionMessage assertion
      (some (if localId ∈ linked then linked else linked ++ [localId])) }

def ToolEvidenceProjection.linkTask (projection : ToolEvidenceProjection)
    (task : Text × List ToolCall) : ToolEvidenceProjection :=
  let linked := (projection.byAssertionMessage task.1).getD []
  let entered : ToolEvidenceProjection := { projection with
    byAssertionMessage := Function.update projection.byAssertionMessage task.1 (some linked) }
  ((task.2.filter ToolCall.success).mergeSort taskCallLe).foldl (linkCall library task.1) entered

def ToolEvidenceProjection.newWithTaskEvidence : ToolEvidenceProjection :=
  conversation.taskCalls.foldl (linkTask library) (new library conversation)

end New

section Qualified

variable (projection : ToolEvidenceProjection)

def ToolEvidenceProjection.qualifiedForMessage (messageId : Text) : List ProjectedEvidenceCall :=
  (((projection.byAssertionMessage messageId).getD []).filterMap projection.byLocalId).filter
    fun call => call.evidenceClass = .evidence

end Qualified

end Frona.Evidence
