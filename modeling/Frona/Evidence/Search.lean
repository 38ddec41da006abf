import Frona.Evidence.Projection

set_option autoImplicit false

namespace Frona.Evidence

open Utf8 (Text)
open Frona.Chat (Json contains joinLines)
open Frona.Inference (estimateTokens)
open Frona.Text (words isWhitespace)

section Scores

variable (library : Library)

def normalize (value : Text) : Text :=
  [' '].intercalate (words (value.map fun c =>
    if library.isAlphanumeric c then c.toLower else ' '))

def tokens (value : Text) : List Text := words (normalize library value)

/-- The score of a text for a query. Where the source has an `f64`, this is a fraction. -/
def bm25LikeScore (query text : Text) : ℚ :=
  let queryTokens := tokens library query
  let textTokens := tokens library text
  if queryTokens = [] then 0
  else
    let score := (queryTokens.map fun token =>
      let frequency := textTokens.count token
      if 0 < frequency then 1 + library.ln frequency else 0).sum
    score / (queryTokens.length * (1 + textTokens.length / 400))

def coverageScore (query text : Text) : ℚ :=
  let queryTokens := (tokens library query).dedup
  if queryTokens = [] then 0
  else
    let covered := queryTokens.filter fun token => decide (token ∈ tokens library text)
    let coverage : ℚ := covered.length / queryTokens.length
    coverage + if 4 / 5 ≤ coverage then 1 / 4 else 0

-- `trim_matches` of everything that is not alphanumeric
def trimToken (token : Text) : Text :=
  ((token.dropWhile fun c => !library.isAlphanumeric c).reverse.dropWhile fun c =>
    !library.isAlphanumeric c).reverse

def isAsciiDigit (c : Char) : Bool := decide ('0' ≤ c ∧ c ≤ '9')

def isCritical (token : Text) : Bool :=
  token.any isAsciiDigit || "http://".toList.isPrefixOf token ||
    "https://".toList.isPrefixOf token || token.contains '_'

def criticalTokens (value : Text) : List Text :=
  ((words value).map (trimToken library)).filter isCritical

def criticalValueScore (query text : Text) : ℚ :=
  let critical := criticalTokens library query
  if critical = [] then 0
  else ((critical.filter fun token => contains text token).length : ℚ) / critical.length

-- Each token once, where it stands first
def criticalValues (value : Text) : List Text :=
  (criticalTokens library value).reverse.dedup.reverse

/-- `resolve_value(value).is_ok()`. The matcher does not panic. -/
def grounded (evidence value : Text) : Bool :=
  match Frona.Text.GroundingText.new library.tables evidence with
  | none => false
  | some grounding =>
      match grounding.resolveValue library.tables value with
      | some (.ok _) => true
      | _ => false

def missingCriticalValues (claim evidence : Text) : List Text :=
  (criticalValues library claim).filter fun token => !grounded library evidence token

end Scores

section Ranking

variable (library : Library)

def ProjectedEvidenceCall.searchableText (call : ProjectedEvidenceCall) : Text :=
  call.arguments.render ++ '\n' :: call.result

def ProjectedEvidenceCall.criticalValueText (call : ProjectedEvidenceCall) : Text :=
  call.name ++ '\n' :: call.searchableText

def scoreLe (left right : ProjectedEvidenceCall × ℚ) : Bool :=
  decide (right.2 < left.2) ||
    decide (left.2 = right.2) && decide (¬ right.1.localId < left.1.localId)

def rankedBy (calls : List ProjectedEvidenceCall) (score : ProjectedEvidenceCall → ℚ) :
    List (ProjectedEvidenceCall × ℚ) :=
  (calls.map fun call => (call, score call)).mergeSort scoreLe

def credit (scores : Text → ℚ) (entry : (ProjectedEvidenceCall × ℚ) × Nat) : Text → ℚ :=
  if 0 < entry.1.2 then
    Function.update scores entry.1.1.localId
      (scores entry.1.1.localId + 1 / (60 + entry.2 + 1))
  else scores

def tally (scores : Text → ℚ) (ranked : List (ProjectedEvidenceCall × ℚ)) : Text → ℚ :=
  ranked.zipIdx.foldl credit scores

def rankedForMessage (projection : ToolEvidenceProjection) (messageId claim quote : Text) :
    List ProjectedEvidenceCall :=
  let calls := projection.qualifiedForMessage messageId
  let rankings := [
    rankedBy calls fun call => bm25LikeScore library claim call.searchableText,
    rankedBy calls fun call => bm25LikeScore library quote call.searchableText,
    rankedBy calls fun call => criticalValueScore library claim call.searchableText,
    rankedBy calls fun call => coverageScore library claim call.searchableText]
  let scores := rankings.foldl tally fun _ => 0
  let ranked := calls.filter fun call => decide (0 < scores call.localId)
  ((ranked.map fun call => (call, scores call.localId)).mergeSort scoreLe).map Prod.fst

end Ranking

section Handles

structure EvidenceHandleTarget where
  callLocalId : Text
  chunkIndex : Nat
  deriving DecidableEq

structure EvidenceHandleState where
  nextByPromptMessage : Text → Nat
  byId : Text → Option EvidenceHandleTarget
  byTarget : EvidenceHandleTarget → Option Text

def EvidenceHandleState.empty : EvidenceHandleState := ⟨fun _ => 0, fun _ => none, fun _ => none⟩

def chunkId (target : EvidenceHandleTarget) : Text :=
  target.callLocalId ++ ":chunk".toList ++ Nat.toDigits 10 (target.chunkIndex + 1)

def legacyId (promptMessage : Text) (number : Nat) : Text :=
  promptMessage ++ ":tool".toList ++ Nat.toDigits 10 number

def EvidenceHandleState.evidenceId (handles : EvidenceHandleState) (promptMessage : Text)
    (target : EvidenceHandleTarget) : EvidenceHandleState × Text :=
  match handles.byTarget target with
  | some existing => (handles, existing)
  | none =>
      let next := handles.nextByPromptMessage promptMessage + 1
      let minted := Function.update handles.byId (chunkId target) (some target)
      ({ nextByPromptMessage := Function.update handles.nextByPromptMessage promptMessage next
         byId := Function.update minted (legacyId promptMessage next) (some target)
         byTarget := Function.update handles.byTarget target (some (chunkId target)) },
        chunkId target)

structure ResolvedToolEvidence where
  call : ProjectedEvidenceCall
  text : Text

def resolveEvidenceId (projection : ToolEvidenceProjection) (handles : EvidenceHandleState)
    (assertionMessageId evidenceId : Text) : Option ResolvedToolEvidence := do
  let target ← handles.byId evidenceId
  let call ← projection.byLocalId target.callLocalId
  let scope ← projection.byAssertionMessage assertionMessageId
  if target.callLocalId ∈ scope then
    let text ← call.chunks[target.chunkIndex]?
    return ⟨call, text⟩
  else none

end Handles

section Search

variable (library : Library)

structure Shown where
  message : Text
  sourceMessage : Text
  evidenceId : Text
  tool : Text
  score : ℚ
  request : Json
  text : Text
  assertionMessageId : Text
  target : EvidenceHandleTarget
  -- The whole result stands for a call of which no chunk has a score.
  wholeResult : Bool

def Shown.toJson (shown : Shown) : Json :=
  .object [("evidence_id".toList, .string shown.evidenceId),
    ("message".toList, .string shown.message), ("request".toList, shown.request),
    ("score".toList, .number (library.showScore shown.score)),
    ("source_message".toList, .string shown.sourceMessage), ("text".toList, .string shown.text),
    ("tool".toList, .string shown.tool)]

def renderResults (results : List Shown) : Text :=
  library.pretty (.object [("results".toList, .array (results.map (Shown.toJson library)))])

def bounded (value : Text) (cap : Nat) : Text :=
  if value.length ≤ cap then value else value.take (cap - 1) ++ ['…']

structure SearchRequest where
  promptMessage : Text
  messageId : Text
  query : Text
  tokenCap : Nat
  sourceHandles : Text → Option Text

def shownChunks (call : ProjectedEvidenceCall) (query : Text) : List (Nat × Text × ℚ × Bool) :=
  let scored := (call.chunks.zipIdx.map fun entry =>
    (entry.2, entry.1, bm25LikeScore library query entry.1, false)).filter fun chunk =>
      decide (0 < chunk.2.2.1)
  let sorted := scored.mergeSort fun left right => decide (right.2.2.1 ≤ left.2.2.1)
  if sorted = [] then
    [(0, call.result, bm25LikeScore library query call.searchableText, true)]
  else sorted

def candidate (request : SearchRequest) (call : ProjectedEvidenceCall) (id : Text)
    (chunk : Nat × Text × ℚ × Bool) : Shown where
  message := request.promptMessage
  sourceMessage := (request.sourceHandles call.messageId).getD request.promptMessage
  evidenceId := id
  tool := call.name
  score := chunk.2.2.1
  request := call.arguments
  text := bounded chunk.2.1 2000
  assertionMessageId := request.messageId
  target := ⟨call.localId, chunk.1⟩
  wholeResult := chunk.2.2.2

def showChunks (request : SearchRequest) (call : ProjectedEvidenceCall) :
    List (Nat × Text × ℚ × Bool) → EvidenceHandleState × List Shown →
      EvidenceHandleState × List Shown
  | [], state => state
  | chunk :: rest, (handles, results) =>
      let minted := handles.evidenceId request.promptMessage ⟨call.localId, chunk.1⟩
      let shown := candidate request call minted.2 chunk
      if request.tokenCap < estimateTokens (renderResults library (results ++ [shown])) then
        (minted.1, results)
      else showChunks request call rest (minted.1, results ++ [shown])

def isGated (projection : ToolEvidenceProjection) (request : SearchRequest) : Bool :=
  let corpus := joinLines ((projection.qualifiedForMessage request.messageId).map
    ProjectedEvidenceCall.criticalValueText)
  let critical := criticalValues library request.query
  decide (critical ≠ []) &&
    decide ((missingCriticalValues library request.query corpus).length = critical.length)

def searchForMessageWithHandles (projection : ToolEvidenceProjection) (request : SearchRequest)
    (handles : EvidenceHandleState) : EvidenceHandleState × List Shown :=
  if isGated library projection request then (handles, [])
  else (rankedForMessage library projection request.messageId request.query request.query).foldl
    (fun state call => showChunks library request call (shownChunks library call request.query)
      state) (handles, [])

structure World where
  handles : EvidenceHandleState
  shown : List Shown

def World.search (projection : ToolEvidenceProjection) (world : World) (request : SearchRequest) :
    World :=
  let found := searchForMessageWithHandles library projection request world.handles
  ⟨found.1, world.shown ++ found.2⟩

def searches (projection : ToolEvidenceProjection) (requests : List SearchRequest) : World :=
  requests.foldl (World.search library projection) ⟨.empty, []⟩

end Search

end Frona.Evidence
