import Frona.Text.Utf8

set_option autoImplicit false

namespace Frona.Task

open Utf8 (Text)

inductive TaskStatus where
  | pending
  | inProgress
  | completed
  | failed
  | cancelled
deriving DecidableEq

def TaskStatus.isTerminal : TaskStatus → Bool
  | completed | failed | cancelled => true
  | pending | inProgress => false

inductive TaskKind where
  | direct (sourceChatId : Option Text)
  | delegation (sourceChatId : Text) (resumeParent : Bool)
  | cron (sourceChatId : Option Text) (processResult : Bool)
  | cronRun (sourceCronId : Text) (sourceChatId : Option Text)
  | signal (sourceChatId : Text) (resumeParent : Bool)
deriving DecidableEq

def TaskKind.sourceChatId : TaskKind → Option Text
  | direct sourceChatId | cron sourceChatId _ | cronRun _ sourceChatId => sourceChatId
  | delegation sourceChatId _ | signal sourceChatId _ => some sourceChatId

def TaskKind.isCron : TaskKind → Bool
  | cron _ _ => true
  | _ => false

def TaskKind.isCronRun : TaskKind → Bool
  | cronRun _ _ => true
  | _ => false

def TaskKind.isSignal : TaskKind → Bool
  | signal _ _ => true
  | _ => false

structure Row where
  kind : TaskKind
  status : TaskStatus
  chatId : Option Text
  runAt : Option Nat
  resultSummary : Option Text
  errorMessage : Option Text
deriving DecidableEq

def Row.created (kind : TaskKind) (runAt : Option Nat) : Row where
  kind := kind
  status := .pending
  chatId := none
  runAt := runAt
  resultSummary := none
  errorMessage := none

/-- The `mark_*` functions of the service: each reads the row, sets these fields and writes it. -/
inductive Mark where
  | inProgress (chatId : Option Text)
  | completed (summary : Option Text)
  | failed (error : Text)
  | deferred (runAt : Nat)
  | cancelled
deriving DecidableEq

def Mark.status : Mark → TaskStatus
  | inProgress _ => .inProgress
  | completed _ => .completed
  | failed _ => .failed
  | deferred _ => .pending
  | cancelled => .cancelled

def Mark.apply (row : Row) : Mark → Row
  | inProgress chatId => { row with status := .inProgress, chatId := chatId.or row.chatId }
  | completed summary => { row with status := .completed, resultSummary := summary }
  | failed error => { row with status := .failed, errorMessage := some error }
  | deferred runAt => { row with status := .pending, runAt := some runAt }
  | cancelled => { row with status := .cancelled }

@[simp] theorem Mark.apply_status (mark : Mark) (row : Row) :
    (mark.apply row).status = mark.status := by
  cases mark <;> rfl

end Frona.Task
