import Frona.Text.Visible

set_option autoImplicit false

namespace Frona.Chat

open Utf8
open Frona.Text (isWhitespace)

/-- A `serde_json::Value`. An object has each key once, and equality does not look at the order. -/
inductive Json where
  | null
  | bool (value : Bool)
  | number (digits : Text)
  | string (value : Text)
  | array (items : List Json)
  | object (fields : List (Text × Json))

namespace Json

def escapeChar (c : Char) : Text :=
  if c = '"' then ['\\', '"']
  else if c = '\\' then ['\\', '\\']
  else if c = '\n' then ['\\', 'n']
  else if c = '\r' then ['\\', 'r']
  else if c = '\t' then ['\\', 't']
  else if c.toNat = 8 then ['\\', 'b']
  else if c.toNat = 12 then ['\\', 'f']
  else if c.toNat < 32 then
    ['\\', 'u', '0', '0'] ++ [Nat.digitChar (c.toNat / 16), Nat.digitChar (c.toNat % 16)]
  else [c]

def quote (text : Text) : Text := '"' :: text.flatMap escapeChar ++ ['"']

def joinWith (separator : Text) : List Text → Text
  | [] => []
  | [text] => text
  | text :: rest => text ++ separator ++ joinWith separator rest

mutual

/-- The compact form that `to_string` writes. -/
def render : Json → Text
  | null => "null".toList
  | bool true => "true".toList
  | bool false => "false".toList
  | number digits => digits
  | string value => quote value
  | array items => '[' :: joinWith [','] (renderItems items) ++ [']']
  | object fields => Char.ofNat 0x7b :: joinWith [','] (renderFields fields) ++ [Char.ofNat 0x7d]

def renderItems : List Json → List Text
  | [] => []
  | item :: rest => render item :: renderItems rest

def renderFields : List (Text × Json) → List Text
  | [] => []
  | (key, value) :: rest => (quote key ++ ':' :: render value) :: renderFields rest

end

def remove (key : Text) : Json → Json
  | object fields => object (fields.filter (·.1 ≠ key))
  | other => other

end Json

inductive MessageRole where
  | user
  | agent
  | taskCompletion
  | contact
  | liveCall
  | system
deriving DecidableEq

inductive MessageStatus where
  | executing
  | paused
  | completed
  | failed
  | cancelled
deriving DecidableEq

structure Reasoning where
  id : Option Text
  content : Text
  signature : Option Text
  raw : Option Json

-- Of an event only the schema of a task's result shows in what is sent to the model.
inductive MessageEvent where
  | taskCompletion (schema : Option Json)
  | taskMatch
  | taskDeferred

structure Attachment where
  filename : Text
  contentType : Text
  owner : Text
  path : Text
  transcript : Option Text := none

structure Message where
  id : Text
  role : MessageRole
  content : Text
  agentId : Option Text := none
  event : Option MessageEvent := none
  attachments : List Attachment := []
  status : Option MessageStatus := none
  reasoning : Option Reasoning := none
  createdAt : Nat

structure ToolCall where
  messageId : Text
  turn : Nat
  providerCallId : Text
  name : Text
  arguments : Json
  result : Text
  turnText : Option Text := none
  turnReasoning : Option Reasoning := none
  signature : Option Text := none

-- `trim().is_empty()`
def isBlank (text : Text) : Bool := text.all isWhitespace

@[simp] theorem isBlank_nil : isBlank [] = true := rfl

def contains (text pattern : Text) : Bool := (find text pattern).isSome

def joinLines (lines : List Text) : Text := Json.joinWith ['\n'] lines

end Frona.Chat
