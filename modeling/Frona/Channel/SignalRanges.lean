import Frona.Channel.Newlines

set_option autoImplicit false

namespace Frona.Channel

open Utf8 (Text)
open Frona.Chat (trimEnd)
open Squeeze (squeeze)

section Loop

-- Both numbers are `u32`s.
structure SignalBodyRange where
  start : Nat
  length : Nat
  style : SignalStyle
  deriving DecidableEq

structure SignalText where
  body : Text
  ranges : List SignalBodyRange
  deriving DecidableEq

structure SignalConverter where
  converter : Converter := {}
  ranges : List SignalBodyRange := []
  styleStack : List (SignalStyle × Nat) := []
  inCodeBlock : Bool := false
  codeBlockStart : Nat := 0

def mark (start stop : Nat) (style : SignalStyle) : Option SignalBodyRange :=
  if start < stop then some ⟨start, stop - start, style⟩ else none

namespace SignalConverter

variable (s : SignalConverter)

-- The last newline of a code block is not in its range.
def codeBlockRange : Option SignalBodyRange :=
  let length := s.converter.utf16Len - s.codeBlockStart
  let trimmedLen := if ['\n'].isSuffixOf s.converter.out then length - 1 else length
  if s.inCodeBlock ∧ 0 < length ∧ 0 < trimmedLen then
    some ⟨s.codeBlockStart, trimmedLen, .monospace⟩
  else none

def completed : Event → Option SignalBodyRange
  | .code t =>
      -- Inside a link there is no range.
      if s.converter.linkTextBuf = none then
        mark s.converter.utf16Len (s.converter.convert .signal (.code t)).utf16Len .monospace
      else none
  | .closes .codeBlock => s.codeBlockRange
  | .closes (.styled _) =>
      -- The style is the one on the stack; the assertion that it is the tag's own is left out.
      s.styleStack.head?.bind fun entry => mark entry.2 s.converter.utf16Len entry.1
  | _ => none

def stacked : Event → List (SignalStyle × Nat)
  | .opens (.styled style) => (style.signal, s.converter.utf16Len) :: s.styleStack
  | .closes (.styled _) => s.styleStack.tail
  | _ => s.styleStack

def convert (event : Event) : SignalConverter where
  converter := s.converter.convert .signal event
  ranges := s.ranges ++ (s.completed event).toList
  styleStack := s.stacked event
  inCodeBlock :=
    match event with
    | .opens .codeBlock => true
    | .closes .codeBlock => false
    | _ => s.inCodeBlock
  codeBlockStart :=
    match event with
    | .opens .codeBlock => (s.converter.convert .signal event).utf16Len
    | _ => s.codeBlockStart

def convertAll (events : List Event) : SignalConverter := events.foldl convert {}

end SignalConverter

def asI32 (n : Int) : Int := n.bmod (2 ^ 32)

def SignalCollapsed.shift (c : SignalCollapsed) (r : SignalBodyRange) : Option SignalBodyRange :=
  let newStart := (asI32 (asI32 r.start + (c.deltas[r.start]?).getD 0)).toNat
  let endOld := min (r.start + r.length) (2 ^ 32 - 1)
  let newEnd := min
    (asI32 (asI32 endOld + (c.deltas[endOld - 1]?).getD c.runningDelta)).toNat
    (units c.body % 2 ^ 32)
  if newStart < newEnd then some ⟨newStart, newEnd - newStart, r.style⟩ else none

def toSignal (events : List Event) : Option SignalText :=
  let s := SignalConverter.convertAll events
  (collapseSignal (trimEnd s.converter.out)).map fun c => ⟨c.body, s.ranges.filterMap c.shift⟩

end Loop

section Nesting

def Tag.isInline : Tag → Bool
  | .link _ | .image _ | .styled _ | .other => true
  | _ => false

def Event.isLeaf : Event → Bool
  | .opens _ | .closes _ => false
  | _ => true

-- Not inside a link, an image or a style.
def blocksAllowed (tags : List Tag) : Bool := tags.all fun tag => !tag.isInline || tag = .other

def openTags (tags : List Tag) : Event → Option (List Tag)
  | .opens tag => if tag.isInline || blocksAllowed tags then some (tag :: tags) else none
  | .closes tagEnd =>
      match tags with
      | tag :: rest => if tag.toEnd = tagEnd then some rest else none
      | [] => none
  | _ => some tags

/-- What a parser of markdown emits: each tag is closed in its turn, and blocks are not inside
inline tags. -/
def WellNested (events : List Event) : Prop := events.foldlM openTags [] = some []

instance (events : List Event) : Decidable (WellNested events) :=
  inferInstanceAs (Decidable (events.foldlM openTags [] = some []))

inductive Inlines : List Event → Prop
  | nil : Inlines []
  | leaf {event : Event} : event.isLeaf → Inlines [event]
  | append {first second : List Event} : Inlines first → Inlines second → Inlines (first ++ second)
  | tag {tag : Tag} {inside : List Event} : tag.isInline → Inlines inside →
      Inlines (.opens tag :: inside ++ [.closes tag.toEnd])

end Nesting

section Stretches

variable (events : List Event)

inductive Styled : List Event → List Event → SignalStyle → Prop
  | style {before inside after : List Event} (style : InlineStyle) :
      events = before ++ .opens (.styled style) :: inside ++ .closes (.styled style) :: after →
      Inlines inside → Styled before (.opens (.styled style) :: inside) style.signal
  | code {before after : List Event} (t : Text) :
      events = before ++ .code t :: after → (Converter.convertAll .signal before).linkTextBuf = none →
      Styled before [.code t] .monospace

variable (before written : List Event) (style : SignalStyle)

def rangeFor : Option SignalBodyRange := do
  let c ← collapseSignal (signalText events)
  let raw ← mark (Converter.convertAll .signal before).utf16Len
    (Converter.convertAll .signal (before ++ written)).utf16Len style
  c.shift raw

def Converter.separator (c : Converter) : Text :=
  if c.pendingBlankLine then Converter.blankLine c.out else []

def collapsed (text : Text) : Text := squeeze '\n' 2 0 text

def separated : Text :=
  (Converter.convertAll .signal before).out ++ (Converter.convertAll .signal before).separator

-- What is in the body before the stretch, and up to its end.
def frontOf : Text := collapsed ((signalText events).take (separated before).length)

def keptOf : Text :=
  collapsed ((signalText events).take (Converter.convertAll .signal (before ++ written)).out.length)

structure CoversExactly (body : Text) (r : SignalBodyRange) : Prop where
  visible : 0 < r.length
  inside : keptOf events before written <+: body
  start : r.start = units (frontOf events before)
  stop : r.start + r.length = units (keptOf events before written)

/-- Each range is that of a styled stretch or of a code block, and those of the stretches are exact. -/
structure MarksStyledText (text : SignalText) : Prop where
  origin : ∀ r ∈ text.ranges,
    (∃ before written style, Styled events before written style ∧
      rangeFor events before written style = some r) ∨
    ∃ before after raw c, events = before ++ .closes .codeBlock :: after ∧
      (SignalConverter.convertAll before).codeBlockRange = some raw ∧
      collapseSignal (signalText events) = some c ∧ c.shift raw = some r
  exactly : ∀ before written style, Styled events before written style →
    ∀ r, rangeFor events before written style = some r →
      r ∈ text.ranges ∧ CoversExactly events before written text.body r

/-- A stretch that is in the body starts there: no blank line is pending before it, and it does not
start with a newline that is dropped. -/
def StartsVisibly : Prop :=
  ∀ before written style, Styled events before written style →
    let start := Converter.convertAll .signal before
    ∀ first rest, (Converter.convertAll .signal (before ++ written)).out = start.out ++ first :: rest →
      start.out.length < (signalText events).length →
        start.separator = [] ∧ ¬(first = '\n' ∧ ['\n', '\n'] <:+ start.out)

end Stretches

end Frona.Channel
