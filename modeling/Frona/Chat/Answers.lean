import Frona.Machine.RowWrites
import Frona.Text.Utf8

set_option autoImplicit false

namespace Frona.Answers

open Utf8 (Text)
open Machine (RowCalls RowEvent SharedRow)

section Service

inductive ToolStatus where
  | pending
  | resolved
  | denied
  deriving DecidableEq

structure HitlDelivery where
  channelId : Text
  externalMessageId : Text
  deliveredAt : Int

structure Hitl (Q A : Type) where
  prompt : Text
  url : Text
  request : Q
  status : ToolStatus
  response : Option A
  delivery : Option HitlDelivery

/-- What the calls below read and write of a tool call. -/
structure ToolCall (Q A E : Type) where
  result : Text
  success : Bool
  durationMs : Nat
  hitl : Option (Hitl Q A)
  taskEvent : Option E
  systemPrompt : Option Text

inductive ToolResolveResult where
  | changed
  | alreadyResolved

inductive AnswerError where
  | http (status : Nat) (message : Text)
  | validation (message : Text)

variable {Q A E : Type}

def finishToolCall (result : Text) (success : Bool) (durationMs : Nat)
    (systemPrompt : Option Text) (te : ToolCall Q A E) : ToolCall Q A E :=
  { te with result, success, durationMs, systemPrompt }

def setHitl (hitl : Hitl Q A) (te : ToolCall Q A E) : ToolCall Q A E :=
  { te with hitl := some hitl }

def setTaskEvent (event : E) (te : ToolCall Q A E) : ToolCall Q A E :=
  { te with taskEvent := some event }

def setHitlDelivery (delivery : HitlDelivery) (te : ToolCall Q A E) : Option (ToolCall Q A E) :=
  te.hitl.map fun hitl => { te with hitl := some { hitl with delivery := some delivery } }

def answer (status : ToolStatus) (text : Text) (response : Option A) (hitl : Hitl Q A)
    (te : ToolCall Q A E) : ToolCall Q A E :=
  { te with hitl := some { hitl with status, response }, result := text }

def resolveToolCall (response : Option Text) (hitlResponse : Option A) (te : ToolCall Q A E) :
    Except AnswerError (ToolResolveResult × Option (ToolCall Q A E)) :=
  let text := response.getD "Human resolved the request.".toList
  match te.hitl with
  | none => .error (.validation "Tool call has no resolvable HITL".toList)
  | some hitl =>
      match hitl.status with
      | .resolved =>
          if te.result = text then .ok (.alreadyResolved, none)
          else .error (.http 409
            "Tool call is already resolved with a different response".toList)
      | .denied => .error (.http 409 "Tool call has already been denied".toList)
      | .pending => .ok (.changed, some (answer .resolved text hitlResponse hitl te))

def denyToolCall (response : Option Text) (hitlResponse : Option A) (te : ToolCall Q A E) :
    Except AnswerError (ToolResolveResult × Option (ToolCall Q A E)) :=
  match te.hitl with
  | none => .error (.validation "Tool call has no deniable HITL".toList)
  | some hitl =>
      match hitl.status with
      | .denied => .ok (.alreadyResolved, none)
      | .resolved => .error (.http 409 "Tool call has already been resolved".toList)
      | .pending => .ok (.changed,
          some (answer .denied (response.getD "User denied the request.".toList) hitlResponse hitl
            te))

def written (outcome : Except AnswerError (ToolResolveResult × Option (ToolCall Q A E))) :
    Option (ToolCall Q A E) :=
  match outcome with
  | .ok (_, row) => row
  | .error _ => none

end Service

section Writes

inductive AnswerCall (A E : Type) where
  | setTaskEvent (event : E)
  | setHitlDelivery (delivery : HitlDelivery)
  | resolve (response : Option Text) (hitlResponse : Option A)
  | deny (response : Option Text) (hitlResponse : Option A)

variable {Q A E : Type}

def AnswerCall.change : AnswerCall A E → ToolCall Q A E → Option (ToolCall Q A E)
  | .setTaskEvent event => some ∘ Answers.setTaskEvent event
  | .setHitlDelivery delivery => Answers.setHitlDelivery delivery
  | .resolve response hitlResponse => fun te => written (resolveToolCall response hitlResponse te)
  | .deny response hitlResponse => fun te => written (denyToolCall response hitlResponse te)

structure Answer (A : Type) where
  status : ToolStatus
  text : Text
  response : Option A
  deriving DecidableEq

def ToolCall.answer (te : ToolCall Q A E) : Option (Answer A) :=
  match te.hitl with
  | none => none
  | some hitl =>
      if hitl.status = .pending then none else some ⟨hitl.status, te.result, hitl.response⟩

def AnswerCall.answer : AnswerCall A E → Option (Answer A)
  | .setTaskEvent _ | .setHitlDelivery _ => none
  | .resolve response hitlResponse =>
      some ⟨.resolved, response.getD "Human resolved the request.".toList, hitlResponse⟩
  | .deny response hitlResponse =>
      some ⟨.denied, response.getD "User denied the request.".toList, hitlResponse⟩

inductive AnswerField where
  | answer
  | delivery
  | taskEvent

@[reducible] def AnswerField.Value (A E : Type) : AnswerField → Type
  | .answer => Option (Answer A)
  | .delivery => Option HitlDelivery
  | .taskEvent => Option E

def AnswerField.get (te : ToolCall Q A E) : (field : AnswerField) → field.Value A E
  | .answer => te.answer
  | .delivery => te.hitl.bind (·.delivery)
  | .taskEvent => te.taskEvent

def AnswerCall.sets : AnswerCall A E → AnswerField → Bool
  | .setTaskEvent _, .taskEvent => true
  | .setHitlDelivery _, .delivery => true
  | .resolve .., .answer => true
  | .deny .., .answer => true
  | _, _ => false

theorem resolveToolCall_written {response : Option Text} {hitlResponse : Option A}
    {te new : ToolCall Q A E}
    (changed : written (resolveToolCall response hitlResponse te) = some new) :
    ∃ hitl, te.hitl = some hitl ∧ hitl.status = .pending ∧
      new = answer .resolved (response.getD "Human resolved the request.".toList) hitlResponse hitl
        te := by
  unfold resolveToolCall at changed
  cases asked : te.hitl with
  | none => simp [asked, written] at changed
  | some hitl =>
      cases status : hitl.status with
      | pending =>
          refine ⟨hitl, rfl, status, ?_⟩
          simpa [asked, status, written, eq_comm] using changed
      | resolved =>
          simp only [asked, status] at changed
          split at changed <;> cases changed
      | denied => simp [asked, status, written] at changed

theorem denyToolCall_written {response : Option Text} {hitlResponse : Option A}
    {te new : ToolCall Q A E}
    (changed : written (denyToolCall response hitlResponse te) = some new) :
    ∃ hitl, te.hitl = some hitl ∧ hitl.status = .pending ∧
      new = answer .denied (response.getD "User denied the request.".toList) hitlResponse hitl
        te := by
  unfold denyToolCall at changed
  cases asked : te.hitl with
  | none => simp [asked, written] at changed
  | some hitl =>
      cases status : hitl.status with
      | pending =>
          refine ⟨hitl, rfl, status, ?_⟩
          simpa [asked, status, written, eq_comm] using changed
      | resolved => simp [asked, status, written] at changed
      | denied => simp [asked, status, written] at changed

theorem AnswerCall.keeps (call : AnswerCall A E) (seen new : ToolCall Q A E) (field : AnswerField)
    (changed : call.change seen = some new) (kept : call.sets field = false) :
    field.get new = field.get seen := by
  cases call with
  | setTaskEvent event =>
      cases changed
      cases field with
      | answer => rfl
      | delivery => rfl
      | taskEvent => simp [sets] at kept
  | setHitlDelivery delivery =>
      obtain ⟨hitl, asked, rfl⟩ := Option.map_eq_some_iff.mp changed
      cases field with
      | answer => simp [AnswerField.get, ToolCall.answer, asked]
      | delivery => simp [sets] at kept
      | taskEvent => rfl
  | resolve response hitlResponse =>
      obtain ⟨hitl, asked, _, rfl⟩ := resolveToolCall_written changed
      cases field with
      | answer => simp [sets] at kept
      | delivery => simp [AnswerField.get, Answers.answer, asked]
      | taskEvent => simp [AnswerField.get, Answers.answer]
  | deny response hitlResponse =>
      obtain ⟨hitl, asked, _, rfl⟩ := denyToolCall_written changed
      cases field with
      | answer => simp [sets] at kept
      | delivery => simp [AnswerField.get, Answers.answer, asked]
      | taskEvent => simp [AnswerField.get, Answers.answer]

def answerCalls :
    RowCalls (ToolCall Q A E) (AnswerCall A E) AnswerField (AnswerField.Value A E) where
  change := AnswerCall.change
  field field te := field.get te
  sets call _ := call.sets
  keeps := AnswerCall.keeps

theorem AnswerCall.answers (call : AnswerCall A E) (seen new : ToolCall Q A E) (given : Answer A)
    (changed : call.change seen = some new) (answers : call.answer = some given) :
    seen.answer = none ∧ new.answer = some given := by
  cases call with
  | setTaskEvent event => cases answers
  | setHitlDelivery delivery => cases answers
  | resolve response hitlResponse =>
      obtain ⟨hitl, asked, pending, rfl⟩ := resolveToolCall_written changed
      cases answers
      simp [ToolCall.answer, asked, pending, Answers.answer]
  | deny response hitlResponse =>
      obtain ⟨hitl, asked, pending, rfl⟩ := denyToolCall_written changed
      cases answers
      simp [ToolCall.answer, asked, pending, Answers.answer]

def answering : RowCalls.Taking (answerCalls (Q := Q) (A := A) (E := E)) (Answer A) where
  holder := ToolCall.answer
  takes := AnswerCall.answer
  takesFree := AnswerCall.answers
  leaves call seen new changed takes := by
    have kept : call.sets .answer = false := by cases call <;> first | rfl | cases takes
    exact AnswerCall.keeps call seen new .answer changed kept

end Writes

section Runs

/-- The row of a tool call that has been asked about. -/
def asked {Q A E : Type} (result : Text) (success : Bool) (durationMs : Nat)
    (systemPrompt : Option Text) (hitl : Hitl Q A) (te : ToolCall Q A E) : ToolCall Q A E :=
  setHitl hitl (finishToolCall result success durationMs systemPrompt te)

/-- Of all the answers to a tool call one at most is accepted, and it stays, just when no call that
has read the row unanswered writes it after an answer; and the delivery and the task event stay
as they were set just when no call writes back what it read before. -/
theorem answered_once_iff {Q A E : Type} (te : ToolCall Q A E) (result : Text) (success : Bool)
    (durationMs : Nat) (systemPrompt : Option Text) (hitl : Hitl Q A)
    (pending : hitl.status = .pending) (events : List (RowEvent (AnswerCall A E)))
    (last : SharedRow _ _ _ (AnswerField.Value A E))
    (reached : Machine.run answerCalls.step events
      (.new answerCalls (asked result success durationMs systemPrompt hitl te)) = some last) :
    let start := SharedRow.new answerCalls (asked result success durationMs systemPrompt hitl te)
    (Machine.Always answerCalls.step answering.Once events start ↔
      Machine.Guarded answerCalls.step (answerCalls.OnWrite answering.Open) events start) ∧
    ∀ field, Machine.Always answerCalls.step (answerCalls.Kept field) events start ↔
      Machine.Guarded answerCalls.step (answerCalls.OnWrite (answerCalls.Current field)) events
        start := by
  refine ⟨?_, fun field => RowCalls.kept_iff_current field events _ last rfl reached⟩
  have free : (asked result success durationMs systemPrompt hitl te).answer = none := by
    simp [ToolCall.answer, asked, setHitl, pending]
  exact RowCalls.taken_once_iff events _ last free reached

def crossing : List (RowEvent (AnswerCall Bool Unit)) :=
  [.read 0 (.resolve (some ['y']) (some true)), .read 1 (.deny (some ['n']) (some false)),
    .write 0, .write 1]

def waiting : ToolCall Unit Bool Unit :=
  asked [] true 0 none ⟨[], [], (), .pending, none, none⟩ ⟨[], false, 0, none, none, none⟩

theorem answered_once_iff_crossing :
    ¬ Machine.Always answerCalls.step answering.Once crossing (.new answerCalls waiting) := by
  have exact := (answered_once_iff (Q := Unit) ⟨[], false, 0, none, none, none⟩ [] true 0 none
    ⟨[], [], (), .pending, none, none⟩ rfl crossing _ rfl).1
  exact fun always => absurd (exact.mp always) (by decide)

end Runs

end Frona.Answers
