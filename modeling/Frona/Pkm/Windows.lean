import Mathlib.Data.List.Sort
import Frona.Inference.Rig

set_option autoImplicit false

namespace Frona.Pkm

open Utf8 (Text)
open Frona.Text (trim)
open Frona.Chat (Message MessageRole MessageStatus)
open Frona.Inference (estimateTokens)

-- Times are nanoseconds from the first that can be written.
def minUtc : Nat := 0

def maxUtc : Nat := 16544868105599999999999

structure TurnCall where
  id : Text
  messageId : Text
  turn : Nat
  turnText : Option Text
  createdAt : Nat

def textLe : Text → Text → Bool
  | [], _ => true
  | _ :: _, [] => false
  | c :: rest, d :: rest' => c.toNat < d.toNat || (c == d && textLe rest rest')

def TurnCall.le (left right : TurnCall) : Bool :=
  left.turn < right.turn || (left.turn == right.turn &&
    (left.createdAt < right.createdAt || (left.createdAt == right.createdAt &&
      textLe left.id right.id)))

def paragraph : Text := ['\n', '\n']

section Tokens

-- The redaction of secrets is another library's.
variable (redact : Text → Text)

def messageText (messageId finalText : Text) (toolCalls : List TurnCall) : Text :=
  let turns := (toolCalls.filter fun call => call.messageId = messageId).filterMap fun call =>
    call.turnText.map fun text => (call, trim text)
  let spoken := (turns.filter fun turn => turn.2 ≠ []).mergeSort fun left right => left.1.le right.1
  let final := if trim finalText = [] then [] else [trim finalText]
  Chat.Json.joinWith paragraph (spoken.map (fun turn => redact turn.2) ++ final)

def speaker : MessageRole → Text
  | .user => "User: ".toList
  | .agent => "Agent: ".toList
  | .contact => "Contact: ".toList
  | _ => []

def windowText (toolCalls : List TurnCall) (message : Message) : Text :=
  if message.role = .agent then messageText redact message.id message.content toolCalls
  else trim message.content

def messageTokens (toolCalls : List TurnCall) (message : Message) : Nat :=
  if speaker message.role = [] ∨ windowText redact toolCalls message = [] then 0
  else estimateTokens (speaker message.role) + estimateTokens (windowText redact toolCalls message)

end Tokens

def inFlight (message : Message) : Bool :=
  message.status == some .executing || message.status == some .paused

def firstInFlight (messages : List Message) : Nat :=
  ((messages.filter inFlight).map Message.createdAt).min?.getD maxUtc

def isEligible (messages : List Message) (watermark : Nat) (message : Message) : Bool :=
  watermark < message.createdAt && message.createdAt < firstInFlight messages && !inFlight message

def eligible (messages : List Message) (watermark : Nat) : List Message :=
  messages.filter (isEligible messages watermark)

section Cut

variable (maxTokens maxMessages : Nat) (tokens : Message → Nat)

def windowsFrom (current : List Message) (used : Nat) : List Message → List (List Message)
  | [] => if current = [] then [] else [current]
  | message :: rest =>
      if current ≠ [] ∧ (maxMessages ≤ current.length ∨ maxTokens < used + tokens message) then
        current :: windowsFrom [message] (tokens message) rest
      else windowsFrom (current ++ [message]) (used + tokens message) rest

theorem windowsFrom_flatten (current : List Message) (used : Nat) (messages : List Message) :
    (windowsFrom maxTokens maxMessages tokens current used messages).flatten =
      current ++ messages := by
  induction messages generalizing current used with
  | nil => by_cases empty : current = [] <;> simp [windowsFrom, empty]
  | cons message rest ih =>
      simp only [windowsFrom]
      split
      · simp [ih]
      · simp [ih]

theorem windowsFrom_ne_nil (current : List Message) (used : Nat) (messages : List Message) :
    ∀ window ∈ windowsFrom maxTokens maxMessages tokens current used messages, window ≠ [] := by
  induction messages generalizing current used with
  | nil =>
      intro window member
      by_cases empty : current = []
      · simp [windowsFrom, empty] at member
      · obtain rfl : window = current := by simpa [windowsFrom, empty] using member
        exact empty
  | cons message rest ih =>
      intro window member
      simp only [windowsFrom] at member
      split at member
      next closed =>
        cases List.mem_cons.mp member with
        | inl first => exact first ▸ closed.1
        | inr later => exact ih _ _ window later
      next => exact ih _ _ window member

-- A window has room left, or is a single message.
def Fits (window : List Message) : Prop :=
  window.length ≤ maxMessages ∧ ((window.map tokens).sum ≤ maxTokens ∨ window.length ≤ 1)

theorem windowsFrom_fits (positive : 0 < maxMessages) (current : List Message)
    (messages : List Message) (fits : Fits maxTokens maxMessages tokens current) :
    ∀ window ∈ windowsFrom maxTokens maxMessages tokens current (current.map tokens).sum messages,
      Fits maxTokens maxMessages tokens window := by
  induction messages generalizing current with
  | nil =>
      intro window member
      by_cases empty : current = []
      · simp [windowsFrom, empty] at member
      · obtain rfl : window = current := by simpa [windowsFrom, empty] using member
        exact fits
  | cons message rest ih =>
      have single : Fits maxTokens maxMessages tokens [message] := ⟨positive, Or.inr le_rfl⟩
      intro window member
      simp only [windowsFrom] at member
      split at member
      next =>
        cases List.mem_cons.mp member with
        | inl first => exact first ▸ fits
        | inr later => exact ih [message] single window (by simpa using later)
      next room =>
        refine ih (current ++ [message]) ?_ window (by simpa using member)
        by_cases empty : current = []
        · simpa [empty] using single
        · -- The window was not closed, so the message fits.
          simp only [ne_eq, empty, not_false_iff, true_and, not_or, Nat.not_le, Nat.not_lt] at room
          refine ⟨?_, Or.inl ?_⟩
          · simp only [List.length_append, List.length_singleton]
            exact room.1
          · simpa using room.2

end Cut

def advanceTo (window : List Message) : Option Nat := (window.map Message.createdAt).max?

abbrev ConsolidationWindow := List Message × Option Nat

def consolidationWindows (redact : Text → Text) (messages : List Message) (watermark : Nat)
    (maxTokens maxMessages : Nat) (toolCalls : List TurnCall) : List ConsolidationWindow :=
  (windowsFrom (max maxTokens 1) (max maxMessages 1) (messageTokens redact toolCalls) [] 0
    (eligible messages watermark)).map fun window => (window, advanceTo window)

theorem consolidationWindows_messages (redact : Text → Text) (messages : List Message)
    (watermark maxTokens maxMessages : Nat) (toolCalls : List TurnCall) :
    (consolidationWindows redact messages watermark maxTokens maxMessages toolCalls).flatMap
      Prod.fst = eligible messages watermark := by
  have whole := windowsFrom_flatten (max maxTokens 1) (max maxMessages 1)
    (messageTokens redact toolCalls) [] 0 (eligible messages watermark)
  rw [List.nil_append] at whole
  rw [consolidationWindows, List.flatMap_map]
  simpa [List.flatMap_id'] using whole

theorem consolidationWindows_fits (redact : Text → Text) (messages : List Message)
    (watermark maxTokens maxMessages : Nat) (toolCalls : List TurnCall) :
    ∀ window ∈ consolidationWindows redact messages watermark maxTokens maxMessages toolCalls,
      window.1 ≠ [] ∧ window.2 = advanceTo window.1 ∧
        Fits (max maxTokens 1) (max maxMessages 1) (messageTokens redact toolCalls) window.1 := by
  intro window member
  obtain ⟨filled, found, rfl⟩ := List.mem_map.mp member
  refine ⟨windowsFrom_ne_nil _ _ _ _ _ _ filled found, rfl, ?_⟩
  refine windowsFrom_fits _ _ _ (by omega) [] (eligible messages watermark) ?_ filled found
  exact ⟨by simp, Or.inl (by simp)⟩

end Frona.Pkm
