import Frona.Chat.Fence
import Frona.Text.NormalizedString

set_option autoImplicit false

namespace Frona.Chat

open Utf8 Frona.Text

section Boundary

-- The longest part of the text that fits in `target` bytes.
def floorBoundary : Text → Nat → Text
  | [], _ => []
  | c :: rest, target =>
      if c.utf8Size ≤ target then c :: floorBoundary rest (target - c.utf8Size) else []

def rfind (text pattern : Text) : Option Nat :=
  match text with
  | [] => if pattern.isPrefixOf [] then some 0 else none
  | c :: rest =>
      match rfind rest pattern with
      | some i => some (c.utf8Size + i)
      | none => if pattern.isPrefixOf (c :: rest) then some 0 else none

/-- The best place to cut a text so that the part before it fits in `target` bytes. -/
def findBoundary (text : Text) (target : Nat) : Nat :=
  if byteLength text ≤ target then byteLength text
  else
    let slice := floorBoundary text target
    match rfind slice ['\n', '\n'] with
    | some i => i + 2
    | none =>
        match rfind slice ['\n'] with
        | some i => i + 1
        | none =>
            match rfind slice [' '] with
            | some i => i + 1
            | none => byteLength slice

def trailingBackslashes (text : Text) : Nat := (text.reverse.takeWhile (· = '\\')).length

def avoidSplitAfterBackslash (text : Text) (cut : Nat) : Nat :=
  if cut = 0 ∨ cut ≥ byteLength text then cut
  else match splitAt text cut with
    | some (before, escaped :: _) =>
        if trailingBackslashes before % 2 = 1 then cut + escaped.utf8Size else cut
    | _ => cut

def backtrackToSafe (text : Text) (entry : FenceState) : Nat → Option Nat
  | 0 => none
  | pos + 1 =>
      match fenceDepthFrom text pos entry with
      | none => backtrackToSafe text entry pos
      | some state =>
          if state.inlineOpen.isNone then some pos else backtrackToSafe text entry pos

end Boundary

def openFenceMarker : Option BlockFence → Text
  | none => []
  | some bf => List.replicate bf.openLen bf.marker ++ ['\n']

def closeFenceMarker : Option BlockFence → Text
  | none => []
  | some bf => '\n' :: List.replicate bf.openLen bf.marker

structure Chunk where
  opening : Text
  body : Text
  closing : Text
  deriving DecidableEq

def Chunk.text (chunk : Chunk) : Text := chunk.opening ++ (chunk.body ++ chunk.closing)

section Splitter

-- What a splitter does to a cut that it has chosen.
variable (adjust : Text → Nat → Nat)

def chooseCut (remaining : Text) (candidate : Nat) (entry : FenceState) :
    Option (Nat × Text) := do
  let state ← fenceDepthFrom remaining candidate entry
  match state.block, state.inlineOpen with
  | none, none => return (candidate, [])
  | block, some _ =>
      match backtrackToSafe remaining entry candidate with
      | some safe =>
          let safe := adjust remaining safe
          let stateAtSafe ← fenceDepthFrom remaining safe entry
          return (safe, closeFenceMarker stateAtSafe.block)
      | none => return (candidate, closeFenceMarker block)
  | some bf, none => return (candidate, closeFenceMarker (some bf))

structure SplitState where
  cursor : Nat
  entry : FenceState

def SplitState.at (text : Text) (cursor : Nat) : Option SplitState :=
  (fenceDepthAt text cursor).map (⟨cursor, ·⟩)

def splitRound (text : Text) (providerLimit : Nat) (state : SplitState) :
    Option (Chunk × Option SplitState) := do
  let remaining ← sliceFrom text state.cursor
  let opening := openFenceMarker state.entry.block
  if byteLength remaining + byteLength opening ≤ providerLimit then
    return (⟨opening, remaining, []⟩, none)
  let budget := providerLimit - byteLength opening
  let candidate := adjust remaining (findBoundary remaining budget)
  let (cut, closing) ← chooseCut adjust remaining candidate state.entry
  if cut = 0 then
    -- One character is forced, so that the loop terminates.
    let first ← remaining.head?
    let next ← SplitState.at text (state.cursor + first.utf8Size)
    return (⟨opening, [first], []⟩, some next)
  let (body, _) ← splitAt remaining cut
  let next ← SplitState.at text (state.cursor + cut)
  return (⟨opening, body, closing⟩, some next)

def splitLoop (text : Text) (providerLimit : Nat) : Nat → SplitState → Option (List Chunk)
  | 0, _ => none
  | fuel + 1, state =>
      if state.cursor < byteLength text then do
        let (chunk, next) ← splitRound adjust text providerLimit state
        match next with
        | none => return [chunk]
        | some next => return chunk :: (← splitLoop text providerLimit fuel next)
      else some []

def splitChunks (text : Text) (providerLimit : Nat) : Option (List Chunk) :=
  splitLoop adjust text providerLimit (byteLength text + 1) ⟨0, {}⟩

def split (text : Text) (providerLimit : Nat) : Option (List Text) :=
  if text.all isWhitespace then some []
  else if byteLength text ≤ providerLimit then some [text]
  else (splitChunks adjust text providerLimit).map (·.map Chunk.text)

end Splitter

def splitMarkdownAware : Text → Nat → Option (List Chunk) := splitChunks fun _ cut => cut

def splitMarkdownV2Aware : Text → Nat → Option (List Chunk) := splitChunks avoidSplitAfterBackslash

structure MarkdownSplitter where
  providerLimit : Nat

def MarkdownSplitter.split (self : MarkdownSplitter) (text : Text) : Option (List Text) :=
  Chat.split (fun _ cut => cut) text self.providerLimit

structure TelegramMarkdownV2Splitter where
  providerLimit : Nat

def TelegramMarkdownV2Splitter.split (self : TelegramMarkdownV2Splitter) (text : Text) :
    Option (List Text) :=
  Chat.split avoidSplitAfterBackslash text self.providerLimit

end Frona.Chat
