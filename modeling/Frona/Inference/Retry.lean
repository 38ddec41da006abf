import Frona.Inference.Rig
import Frona.Text.Wikilink

set_option autoImplicit false

namespace Frona.Inference

open Utf8 (Text)
open Frona.Chat (contains)

inductive HttpError where
  | invalidStatusCode (code : Nat)
  | invalidStatusCodeWithMessage (code : Nat) (message : Text)
  -- The request got no answer.
  | transport (message : Text)
  | other (message : Text)

inductive CompletionError where
  | httpError (error : HttpError)
  | jsonError (message : Text)
  | providerError (message : Text)
  | providerResponse (status : Option Nat) (body : Text)
  | other (message : Text)

inductive InferenceError where
  | providerNotConfigured (provider : Text)
  | modelGroupNotFound (name : Text)
  | inferenceFailed (message : Text)
  | streamingFailed (message : Text)
  | completionFailed (error : CompletionError)
  | allFallbacksFailed (errors : List InferenceError)
  | modelFailed (provider model : Text) (retryCount : Nat) (source : InferenceError)
  | rateLimited (retryAfterSecs : Nat)
  | emptyResponse
  | cancelled (text : Text)
  | configError (message : Text)

def InferenceError.isCancelled : InferenceError → Bool
  | cancelled _ => true
  | _ => false

/-- The texts of library errors, Unicode lower case, and the first group that one of the patterns
of `parse_output_token_limit` captures. -/
structure Texts where
  display : CompletionError → Text
  lowercase : Text → Text
  captures : Nat → Text → Option Text

def isSuccess (status : Nat) : Bool := 200 ≤ status && status < 300

def hasNonRetryableStatus (message : Text) : Bool :=
  ["400", "401", "403", "404", "405", "422"].any fun code => contains message code.toList

section Errors

variable (texts : Texts)

def InferenceError.isRetryable : InferenceError → Bool
  | modelFailed _ _ _ source => source.isRetryable
  | rateLimited _ | emptyResponse => true
  | cancelled _ => false
  | completionFailed (.httpError error) =>
      match error with
      | .invalidStatusCode code | .invalidStatusCodeWithMessage code _ =>
          code == 429 || code == 500 || code == 502 || code == 503 || code == 504
      | .transport _ => true
      | .other _ => false
  | completionFailed (.providerError message) => !hasNonRetryableStatus message
  | completionFailed (.providerResponse status _) => status.any isSuccess
  | completionFailed (.jsonError _) => true
  | completionFailed (.other _) => false
  | inferenceFailed message | streamingFailed message =>
      let lower := texts.lowercase message
      contains lower "429".toList || contains lower "timeout".toList ||
        contains lower "overloaded".toList
  | _ => false

def InferenceError.isRateLimited : InferenceError → Bool
  | modelFailed _ _ _ source => source.isRateLimited
  | rateLimited _ => true
  | completionFailed (.httpError (.invalidStatusCode code)) => code == 429
  | completionFailed (.httpError (.invalidStatusCodeWithMessage code _)) => code == 429
  | completionFailed (.providerError message) => contains message "429".toList
  | _ => false

def InferenceError.retryReason : InferenceError → String
  | modelFailed _ _ _ source => source.retryReason
  | error =>
      if error.isRateLimited then "rate_limited"
      else
        match error with
        | emptyResponse => "empty_response"
        | completionFailed (.httpError (.transport _)) => "network_error"
        | completionFailed (.httpError _) => "server_error"
        | completionFailed (.providerResponse status _) =>
            if status.any isSuccess then "invalid_provider_response" else "server_error"
        | completionFailed (.jsonError _) => "invalid_provider_response"
        | streamingFailed message =>
            if contains (texts.lowercase message) "timeout".toList then "timeout"
            else "server_error"
        | inferenceFailed message =>
            if contains (texts.lowercase message) "overloaded".toList then "overloaded"
            else "server_error"
        | _ => "server_error"

/-- `parse::<u64>` of a run of digits. -/
def parseU64 (text : Text) : Option Nat :=
  if !text.isEmpty && text.all Char.isDigit then
    let value := text.foldl (fun value c => 10 * value + (c.toNat - '0'.toNat)) 0
    if value < 2 ^ 64 then some value else none
  else none

def tokenNames : List Text :=
  ["max_tokens".toList, "max_completion_tokens".toList, "max_output_tokens".toList,
    "maxoutputtokens".toList]

def parseOutputTokenLimit (message : Text) : Option Nat :=
  let unescape (text : Text) (code : String) (character : Char) :=
    Wikilink.replace text code.toList [character]
  let text := unescape (unescape (unescape (unescape message "\\u003c" '<') "\\u003C" '<')
    "\\u003e" '>') "\\u003E" '>'
  let lower := text.map Char.toLower
  if tokenNames.any fun name => contains lower name then
    [0, 1, 2, 3].findSome? fun pattern =>
      ((texts.captures pattern text).bind parseU64).filter (0 < ·)
  else none

def InferenceError.outputTokenLimit : InferenceError → Option Nat
  | modelFailed _ _ _ source => source.outputTokenLimit
  | completionFailed error =>
      parseOutputTokenLimit texts ("Completion error: ".toList ++ texts.display error)
  | _ => none

end Errors

inductive StreamToken where
  | text (text : Text)
  | reasoning (text : Text)

inductive StreamEvent where
  | text (text : Text)
  | reasoning (text : Text)
  | retry (reason : String)

/-- How a provider's stream ends, or that the caller cancelled it first. No provider makes a
`Cancelled` error. -/
inductive Ending where
  | output (content : List AssistantContent)
  | error (error : InferenceError) (provider : error.isCancelled = false)
  | cancelled

structure Attempt where
  tokens : List StreamToken
  ending : Ending

inductive StreamResult where
  | contents (content : List AssistantContent)
  | cancelled

structure ModelConfig where
  providerHandle : Text
  modelId : Text
  maxTokens : Option Nat

structure ModelGroup where
  main : ModelConfig
  fallbacks : List ModelConfig
  maxRetries : Nat
  -- The providers that there are.
  providers : List Text

def ModelConfig.asStr (model : ModelConfig) : Text :=
  model.providerHandle ++ '/' :: model.modelId

structure Made where
  model : Nat
  cap : Option Nat
  attempt : Attempt

structure Call where
  -- `LEARNED_OUTPUT_CAPS`
  learned : Text → Option Nat
  emitted : Bool
  events : List StreamEvent
  accumulatedText : Text
  -- No step reads the rest: the attempts so far, and each pass over a model with its cap.
  made : List Made
  passes : List (Nat × Option Nat)

def Attempt.emits (attempt : Attempt) : Bool := !attempt.tokens.isEmpty

def tokenText : StreamToken → Text
  | .text text => text
  | .reasoning _ => []

/-- `turn_text` -/
def Attempt.text (attempt : Attempt) : Text := attempt.tokens.flatMap tokenText

def tokenEvent : StreamToken → StreamEvent
  | .text text => .text text
  | .reasoning text => .reasoning text

def eventText : StreamEvent → Text
  | .text text => text
  | _ => []

def streamedText (events : List StreamEvent) : Text := events.flatMap eventText

def InferenceError.forModel (error : InferenceError) (model : ModelConfig) (retryCount : Nat) :
    InferenceError :=
  .modelFailed model.providerHandle model.modelId retryCount error

def lastIsToolResult (history : List RigMessage) : Bool :=
  match history.getLast? with
  | some (.user content) => content.any UserContent.isToolResult
  | _ => false

def lastIsAssistant (history : List RigMessage) : Bool :=
  match history.getLast? with
  | some (.assistant _) => true
  | _ => false

/-- What the closure of `stream_one_model` returns. -/
def Attempt.result (history : List RigMessage) (attempt : Attempt) :
    Except InferenceError (List AssistantContent) :=
  match attempt.ending with
  | .cancelled => .error (.cancelled attempt.text)
  | .output content =>
      if content.isEmpty then
        if lastIsToolResult history || lastIsAssistant history then .ok content
        else .error .emptyResponse
      else .ok content
  | .error error _ => .error error

section Retry

variable (texts : Texts) (history : List RigMessage)

def cappedMaxTokens (learned : Text → Option Nat) (model : ModelConfig) (requested : Option Nat) :
    Option Nat :=
  requested.map fun requested =>
    match learned model.asStr with
    | some cap => min requested cap
    | none => requested

/-- The ceiling that the rejection of `sent` names, when it is lower. -/
def learnOutputCap (sent : Option Nat) (error : InferenceError) : Option Nat :=
  match sent, error.outputTokenLimit texts with
  | some sent, some limit => if limit < sent then some limit else none
  | _, _ => none

def Call.learn (call : Call) (model : ModelConfig) (cap : Nat) : Call :=
  { call with learned := Function.update call.learned model.asStr (some cap) }

def Call.attempt (call : Call) (index : Nat) (cap : Option Nat) (attempt : Attempt) : Call :=
  { call with
    emitted := call.emitted || attempt.emits
    events := call.events ++ attempt.tokens.map tokenEvent
    made := call.made ++ [⟨index, cap, attempt⟩] }

def Call.append (call : Call) (text : Text) : Call :=
  { call with accumulatedText := call.accumulatedText ++ text }

/-- What `stream_one_model` makes of the error that is left. -/
def Call.giveUp (call : Call) (model : ModelConfig) (retries : Nat) :
    InferenceError → Except InferenceError StreamResult × Call
  | .cancelled text => (.ok .cancelled, call.append text)
  | error => (.error (error.forModel model retries), call)

-- What the provider does in each attempt of the call.
variable (outcomes : Nat → Attempt)

/-- The attempts of one pass over a model, of which `retries` have failed before. -/
def streamAttempts (index : Nat) (model : ModelConfig) (cap : Option Nat) (left retries : Nat)
    (call : Call) : Except InferenceError StreamResult × Call :=
  let attempt := outcomes call.made.length
  let tried := call.attempt index cap attempt
  match attempt.result history with
  | .ok content => (.ok (.contents content), tried.append attempt.text)
  | .error error =>
      match left with
      | left + 1 =>
          if error.isRetryable texts && !tried.emitted then
            streamAttempts index model cap left (retries + 1)
              { tried with events := tried.events ++ [.retry (error.retryReason texts)] }
          else tried.giveUp model retries error
      | 0 => tried.giveUp model retries error
termination_by structural left

def streamOneModel (maxRetries index : Nat) (model : ModelConfig) (cap : Option Nat)
    (call : Call) : Except InferenceError StreamResult × Call :=
  streamAttempts texts history outcomes index model cap maxRetries 0
    { call with passes := call.passes ++ [(index, cap)] }

theorem learnOutputCap_eq_some {sent : Option Nat} {error : InferenceError} {cap : Nat}
    (learned : learnOutputCap texts sent error = some cap) :
    ∃ before, sent = some before ∧ cap < before := by
  unfold learnOutputCap at learned
  split at learned
  next before limit _ =>
    split at learned
    next lower =>
      obtain rfl := Option.some.inj learned
      exact ⟨before, rfl, lower⟩
    next => simp at learned
  next => simp at learned

set_option linter.unusedVariables false in
def streamModel (maxRetries index : Nat) (model : ModelConfig) (cap : Option Nat) (call : Call) :
    Except InferenceError StreamResult × Call :=
  match streamOneModel texts history outcomes maxRetries index model cap call with
  | (.ok result, call) => (.ok result, call)
  | (.error error, call) =>
      match learned : learnOutputCap texts cap error with
      | some lower => streamModel maxRetries index model (some lower) (call.learn model lower)
      | none => (.error error, call)
termination_by cap.getD 0
decreasing_by
  obtain ⟨before, rfl, less⟩ := learnOutputCap_eq_some texts learned
  exact less

def streamFallbacks (group : ModelGroup) (maxTokens : Option Nat) (index : Nat) :
    List ModelConfig → List InferenceError → Call → Except InferenceError StreamResult × Call
  | [], failures, call => (.error (.allFallbacksFailed failures), call)
  | model :: rest, failures, call =>
      if model.providerHandle ∈ group.providers then
        let cap := cappedMaxTokens call.learned model (maxTokens.or model.maxTokens)
        match streamModel texts history outcomes group.maxRetries index model cap
            { call with emitted := false } with
        | (.ok result, call) => (.ok result, call)
        | (.error error, call) =>
            if call.emitted then (.error (.allFallbacksFailed (failures ++ [error])), call)
            else streamFallbacks group maxTokens (index + 1) rest (failures ++ [error]) call
      else
        streamFallbacks group maxTokens (index + 1) rest
          (failures ++
            [InferenceError.forModel (.providerNotConfigured model.providerHandle) model 0]) call

def Call.begin (accumulatedText : Text) (learned : Text → Option Nat) : Call where
  learned := learned
  emitted := false
  events := []
  accumulatedText := accumulatedText
  made := []
  passes := []

/-- `overrides.max_tokens`, the text accumulated so far and the learned caps are the caller's. -/
def streamWithRetryAndFallback (group : ModelGroup) (maxTokens : Option Nat)
    (accumulatedText : Text) (learned : Text → Option Nat) :
    Except InferenceError StreamResult × Call :=
  streamFallbacks texts history outcomes group maxTokens 0 (group.main :: group.fallbacks) []
    (.begin accumulatedText learned)

end Retry

end Frona.Inference
