import Frona.Chat.SplitPlain
import Frona.Text.Visible
import Frona.Text.Words

set_option autoImplicit false

namespace Frona.Channel

open Utf8 (Text)
open Frona.Chat (trimEnd)
open Frona.Pkm (lines)
open Frona.Text (trim)

section Events

inductive HeadingLevel where
  | h1 | h2 | h3 | h4 | h5 | h6
  deriving DecidableEq

inductive SignalStyle where
  | bold | italic | strikethrough | monospace
  deriving DecidableEq

/-- `Strong`, `Emphasis` and `Strikethrough`. -/
inductive InlineStyle where
  | strong | emphasis | strikethrough
  deriving DecidableEq

def InlineStyle.signal : InlineStyle → SignalStyle
  | strong => .bold
  | emphasis => .italic
  | strikethrough => .strikethrough

-- A list starts with its first number, if it has numbers. `other` is every tag that writes nothing.
inductive Tag where
  | paragraph
  | heading (level : HeadingLevel)
  | blockQuote
  | codeBlock
  | list (start : Option Nat)
  | item
  | link (destUrl : Text)
  | image (destUrl : Text)
  | styled (style : InlineStyle)
  | other
  deriving DecidableEq

inductive TagEnd where
  | paragraph | heading | blockQuote | codeBlock | list | item | link | image
  | styled (style : InlineStyle)
  | other
  deriving DecidableEq

def Tag.toEnd : Tag → TagEnd
  | paragraph => .paragraph
  | heading _ => .heading
  | blockQuote => .blockQuote
  | codeBlock => .codeBlock
  | list _ => .list
  | item => .item
  | link _ => .link
  | image _ => .image
  | styled style => .styled style
  | other => .other

-- `ignored` is a rule, HTML, a footnote reference, a task marker or mathematics.
inductive Event where
  | text (t : Text)
  | code (t : Text)
  | softBreak
  | hardBreak
  | opens (tag : Tag)
  | closes (tagEnd : TagEnd)
  | ignored

end Events

structure Flavor where
  code : Text → Text := id
  headingStart : Text := []
  headingEnd : Text := []
  quote : Text := []
  codeBlockStart : Text := []
  codeBlockEnd : Text := []
  bullet : Text
  style : InlineStyle → Text := fun _ => []
  link : Text → Text → Text
  flushesBeforeItem : Bool := false

def lenUtf16 (c : Char) : Nat := if c.toNat < 0x10000 then 1 else 2

def units (text : Text) : Nat := (text.map lenUtf16).sum

-- The list stack has its top first. Only the converter for Signal has `utf16Len`, a `u32`.
structure Converter where
  out : Text := []
  utf16Len : Nat := 0
  atLineStart : Bool := true
  pendingBlankLine : Bool := false
  listStack : List (Option Nat) := []
  linkTextBuf : Option Text := none
  linkDest : Option Text := none

namespace Converter

section Writing

variable (c : Converter)

-- The additions are those of a release build, which wrap.
def write (s : Text) : Converter :=
  { c with out := c.out ++ s, utf16Len := (c.utf16Len + units s) % 2 ^ 32 }

-- This one saturates, after a cast of what is added.
def writeStr (s : Text) : Converter :=
  { c with out := c.out ++ s, utf16Len := min (c.utf16Len + units s % 2 ^ 32) (2 ^ 32 - 1) }

def blankLine (out : Text) : Text :=
  if out = [] ∨ ['\n', '\n'].isSuffixOf out then []
  else if ['\n'].isSuffixOf out then ['\n'] else ['\n', '\n']

def flushPendingBlank : Converter :=
  if c.pendingBlankLine then { c.write (blankLine c.out) with pendingBlankLine := false } else c

def pushStr (s : Text) : Converter :=
  if s = [] then c
  else { c.flushPendingBlank.writeStr s with atLineStart := ['\n'].isSuffixOf s }

def breakLine : Converter :=
  if c.atLineStart then c else { c.write ['\n'] with atLineStart := true }

def setPending : Converter := { c with pendingBlankLine := true }

-- Inside a link the text is held back until the link ends.
def pushText (t : Text) : Converter :=
  match c.linkTextBuf with
  | some buf => { c with linkTextBuf := some (buf ++ t) }
  | none => c.pushStr t

end Writing

variable (flavor : Flavor) (c : Converter)

def startItem : Converter :=
  let c := if flavor.flushesBeforeItem then c.flushPendingBlank else c
  let c := c.breakLine
  let c := c.write (List.replicate (c.listStack.length - 1) [' ', ' ']).flatten
  match c.listStack with
  | some n :: rest =>
      { c.write (Nat.toDigits 10 n ++ ['.', ' ']) with
        listStack := some (n + 1) :: rest
        atLineStart := false }
  | none :: _ => { c.write flavor.bullet with atLineStart := false }
  | [] => { c with atLineStart := false }

def startTag : Tag → Converter
  | .paragraph => c.breakLine
  | .heading level =>
      let c := c.breakLine
      let c := if (level = .h1 ∨ level = .h2) ∧ c.out ≠ [] then c.setPending else c
      c.pushStr flavor.headingStart
  | .blockQuote => c.breakLine.pushStr flavor.quote
  | .codeBlock => c.breakLine.pushStr flavor.codeBlockStart
  | .list start =>
      let c := c.breakLine
      { c with listStack := start :: c.listStack }
  | .item => c.startItem flavor
  | .link destUrl => { c with linkTextBuf := some [], linkDest := some destUrl }
  | .image _ => { c with linkTextBuf := some [], linkDest := none }
  | .styled style => c.pushStr (flavor.style style)
  | .other => c

def endLink : Converter :=
  let text := c.linkTextBuf.getD []
  let dest := c.linkDest.getD []
  { c with linkTextBuf := none, linkDest := none }.pushStr
    (if dest = [] ∨ dest = text then text else flavor.link text dest)

def endTag : TagEnd → Converter
  | .paragraph | .blockQuote => c.breakLine.setPending
  | .heading => (c.pushStr flavor.headingEnd).breakLine.setPending
  | .codeBlock => (c.breakLine.pushStr flavor.codeBlockEnd).breakLine.setPending
  | .list =>
      let c := c.breakLine
      let c := { c with listStack := c.listStack.tail }
      if c.listStack = [] then c.setPending else c
  | .item => c.breakLine
  | .link => c.endLink flavor
  | .image => { c with linkTextBuf := none }.pushStr (c.linkTextBuf.getD [])
  | .styled style => c.pushStr (flavor.style style)
  | .other => c

def convert (c : Converter) : Event → Converter
  | .text t => c.pushText t
  | .code t => c.pushText (flavor.code t)
  | .softBreak => if c.atLineStart then c else c.write [' ']
  | .hardBreak => c.breakLine
  | .opens tag => c.startTag flavor tag
  | .closes tagEnd => c.endTag flavor tagEnd
  | .ignored => c

def convertAll (events : List Event) : Converter := events.foldl (convert flavor) {}

end Converter

section Flavors

def parenthesized (text dest : Text) : Text := text ++ [' ', '('] ++ dest ++ [')']

def Flavor.plain : Flavor where
  bullet := ['-', ' ']
  link := parenthesized

def Flavor.signal : Flavor where
  bullet := ['-', ' ']
  link := parenthesized
  flushesBeforeItem := true

def Flavor.whatsapp : Flavor where
  code t := '`' :: t ++ ['`']
  headingStart := ['*']
  headingEnd := ['*']
  quote := ['>', ' ']
  codeBlockStart := ['`', '`', '`', '\n']
  codeBlockEnd := ['`', '`', '`']
  bullet := ['*', ' ']
  style
    | .strong => ['*']
    | .emphasis => ['_']
    | .strikethrough => ['~']
  link text dest := if text = [] then dest else text ++ [':', ' '] ++ dest

-- A lone bullet or number, or a line of blanks.
def isEmptyBullet (line : Text) : Bool :=
  let trimmed := trim line
  trimmed = ['*'] || trimmed = ['-'] || trimmed = [] && line ≠ [] ||
    ['.'].isSuffixOf trimmed && trimmed.dropLast.all Char.isDigit

def dropEmptyBullets (out : Text) : Text :=
  ['\n'].intercalate ((lines out).filter fun line => !isEmptyBullet line)

def plainText (events : List Event) : Text := trimEnd (Converter.convertAll .plain events).out

def whatsappText (events : List Event) : Text :=
  trimEnd (dropEmptyBullets (Converter.convertAll .whatsapp events).out)

def signalText (events : List Event) : Text := trimEnd (Converter.convertAll .signal events).out

end Flavors

end Frona.Channel
