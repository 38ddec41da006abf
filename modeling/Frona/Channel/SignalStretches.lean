import Frona.Channel.SignalOffsets

set_option autoImplicit false

namespace Frona.Channel

open Utf8 (Text)

namespace Converter

section Writing

variable (c : Converter)

/-- The length is that of the text if a `u32` holds it, and only at the start of a line is a blank
line pending. -/
structure Settled : Prop where
  counted : units c.out < 2 ^ 32 → c.utf16Len = units c.out
  pending : c.pendingBlankLine → c.atLineStart

variable {c}

theorem Settled.write (settled : c.Settled) (s : Text) : (c.write s).Settled where
  counted fits := by
    simp only [Converter.write, units_append] at fits ⊢
    rw [settled.counted (by omega), Nat.mod_eq_of_lt fits]
  pending := settled.pending

theorem Settled.writeStr (settled : c.Settled) (s : Text) : (c.writeStr s).Settled where
  counted fits := by
    simp only [Converter.writeStr, units_append] at fits ⊢
    rw [settled.counted (by omega), Nat.mod_eq_of_lt (by omega)]
    omega
  pending := settled.pending

theorem Settled.flushPendingBlank (settled : c.Settled) : c.flushPendingBlank.Settled := by
  unfold Converter.flushPendingBlank
  split
  · exact ⟨(settled.write _).counted, nofun⟩
  · exact settled

theorem flushPendingBlank_pending : c.flushPendingBlank.pendingBlankLine = false := by
  unfold Converter.flushPendingBlank
  split
  · rfl
  next still => simpa using still

theorem Settled.pushStr (settled : c.Settled) (s : Text) : (c.pushStr s).Settled := by
  unfold Converter.pushStr
  split
  · exact settled
  · refine ⟨(settled.flushPendingBlank.writeStr s).counted, fun pending => ?_⟩
    have := flushPendingBlank_pending (c := c)
    simp only [Converter.writeStr] at pending
    simp [this] at pending

theorem Settled.breakLine (settled : c.Settled) : c.breakLine.Settled := by
  unfold Converter.breakLine
  split
  · exact settled
  · exact ⟨(settled.write _).counted, fun _ => rfl⟩

theorem breakLine_atLineStart : c.breakLine.atLineStart = true := by
  unfold Converter.breakLine
  split
  next start => exact start
  next => rfl

theorem Settled.setPending_breakLine (settled : c.Settled) : c.breakLine.setPending.Settled :=
  ⟨settled.breakLine.counted, fun _ => breakLine_atLineStart⟩

theorem Settled.pushText (settled : c.Settled) (t : Text) : (c.pushText t).Settled := by
  unfold Converter.pushText
  split
  · exact ⟨settled.counted, settled.pending⟩
  · exact settled.pushStr t

@[simp] theorem breakLine_pending : c.breakLine.pendingBlankLine = c.pendingBlankLine := by
  unfold Converter.breakLine
  split <;> rfl

theorem Settled.startItem (settled : c.Settled) : (c.startItem .signal).Settled := by
  have indented := settled.flushPendingBlank.breakLine.write
    (List.replicate (c.flushPendingBlank.breakLine.listStack.length - 1) [' ', ' ']).flatten
  have done : (c.flushPendingBlank.breakLine.write
      (List.replicate (c.flushPendingBlank.breakLine.listStack.length - 1)
        [' ', ' ']).flatten).pendingBlankLine = false := by
    simp [Converter.write, flushPendingBlank_pending]
  simp only [Converter.startItem, Flavor.signal, if_true]
  generalize c.flushPendingBlank.breakLine.write _ = base at indented done ⊢
  split
  · exact ⟨(indented.write _).counted, by simp [Converter.write, done]⟩
  · exact ⟨(indented.write _).counted, by simp [Converter.write, done]⟩
  · exact ⟨indented.counted, by simp [done]⟩

theorem Settled.convert (settled : c.Settled) (event : Event) : (c.convert .signal event).Settled := by
  cases event with
  | text t => exact settled.pushText t
  | code t => exact settled.pushText t
  | softBreak =>
      change (if c.atLineStart then c else c.write [' ']).Settled
      split
      · exact settled
      · exact settled.write _
  | hardBreak => exact settled.breakLine
  | ignored => exact settled
  | opens tag =>
      cases tag with
      | paragraph => exact settled.breakLine
      | heading level =>
          simp only [Converter.convert, Converter.startTag]
          split
          · exact settled.setPending_breakLine
          · exact settled.breakLine
      | blockQuote => exact settled.breakLine
      | codeBlock => exact settled.breakLine
      | list start => exact ⟨settled.breakLine.counted, settled.breakLine.pending⟩
      | item => exact settled.startItem
      | link destUrl => exact ⟨settled.counted, settled.pending⟩
      | image destUrl => exact ⟨settled.counted, settled.pending⟩
      | styled style => exact settled
      | other => exact settled
  | closes tagEnd =>
      cases tagEnd with
      | paragraph => exact settled.setPending_breakLine
      | blockQuote => exact settled.setPending_breakLine
      | heading => exact settled.setPending_breakLine
      | codeBlock => exact settled.breakLine.setPending_breakLine
      | list =>
          simp only [Converter.convert, Converter.endTag]
          split
          · exact ⟨settled.breakLine.counted, fun _ => breakLine_atLineStart⟩
          · exact ⟨settled.breakLine.counted, settled.breakLine.pending⟩
      | item => exact settled.breakLine
      | link =>
          apply Settled.pushStr
          exact ⟨settled.counted, settled.pending⟩
      | image =>
          apply Settled.pushStr
          exact ⟨settled.counted, settled.pending⟩
      | styled style => exact settled
      | other => exact settled

theorem Settled.foldl (settled : c.Settled) (events : List Event) :
    (events.foldl (Converter.convert .signal) c).Settled := by
  induction events generalizing c with
  | nil => exact settled
  | cons event rest ih => exact ih (settled.convert event)

theorem settled_convertAll (events : List Event) : (convertAll .signal events).Settled :=
  Settled.foldl ⟨fun _ => rfl, by simp⟩ events

end Writing

section Growing

variable (c : Converter)

theorem out_flushPendingBlank : c.flushPendingBlank.out = c.out ++ c.separator := by
  unfold Converter.flushPendingBlank separator
  split
  · rfl
  · simp

theorem out_pushStr (s : Text) :
    (c.pushStr s).out = if s = [] then c.out else c.out ++ c.separator ++ s := by
  unfold Converter.pushStr
  split
  · rfl
  · simp [Converter.writeStr, out_flushPendingBlank]

theorem out_breakLine : (c.breakLine).out = if c.atLineStart then c.out else c.out ++ ['\n'] := by
  unfold Converter.breakLine
  split <;> rfl

theorem pushStr_grows (s : Text) : c.out <+: (c.pushStr s).out := by
  rw [out_pushStr]
  split
  · exact List.prefix_rfl
  · simp [List.append_assoc]

theorem breakLine_grows : c.out <+: c.breakLine.out := by
  rw [out_breakLine]
  split <;> simp

theorem pushText_grows (t : Text) : c.out <+: (c.pushText t).out := by
  unfold Converter.pushText
  split
  · exact List.prefix_rfl
  · exact c.pushStr_grows t

theorem startItem_grows : c.out <+: (c.startItem .signal).out := by
  have start : c.out <+: c.flushPendingBlank.breakLine.out := by
    refine List.IsPrefix.trans ?_ (breakLine_grows _)
    rw [out_flushPendingBlank]
    exact List.prefix_append _ _
  simp only [Converter.startItem, Flavor.signal, if_true]
  split
  all_goals
    simp only [Converter.write, List.append_assoc]
    exact start.trans (List.prefix_append _ _)

theorem convert_grows (event : Event) : c.out <+: (c.convert .signal event).out := by
  cases event with
  | text t => exact c.pushText_grows t
  | code t => exact c.pushText_grows t
  | softBreak =>
      change c.out <+: (if c.atLineStart then c else c.write [' ']).out
      split
      · exact List.prefix_rfl
      · exact List.prefix_append _ _
  | hardBreak => exact c.breakLine_grows
  | ignored => exact List.prefix_rfl
  | opens tag =>
      cases tag with
      | heading level =>
          simp only [Converter.convert, Converter.startTag]
          split <;> exact c.breakLine_grows
      | paragraph | blockQuote | codeBlock | list => exact c.breakLine_grows
      | item => exact c.startItem_grows
      | link | image | styled | other => exact List.prefix_rfl
  | closes tagEnd =>
      cases tagEnd with
      | paragraph | blockQuote | heading | item => exact c.breakLine_grows
      | codeBlock => exact c.breakLine_grows.trans (breakLine_grows _)
      | list =>
          simp only [Converter.convert, Converter.endTag]
          split <;> exact c.breakLine_grows
      | link => exact pushStr_grows { c with linkTextBuf := none, linkDest := none } _
      | image => exact pushStr_grows { c with linkTextBuf := none } _
      | styled | other => exact List.prefix_rfl

theorem foldl_grows (events : List Event) :
    c.out <+: (events.foldl (Converter.convert .signal) c).out := by
  induction events generalizing c with
  | nil => exact List.prefix_rfl
  | cons event rest ih => exact (c.convert_grows event).trans (ih _)

theorem convertAll_append (flavor : Flavor) (before after : List Event) :
    convertAll flavor (before ++ after) = after.foldl (convert flavor) (convertAll flavor before) :=
  List.foldl_append

end Growing

section Inside

def IsInside : Event → Prop
  | .opens tag => tag.isInline
  | .closes tagEnd => ∃ tag : Tag, tag.isInline ∧ tag.toEnd = tagEnd
  | _ => True

def Progress (c d : Converter) : Prop :=
  (d.out = c.out ∧ d.pendingBlankLine = c.pendingBlankLine ∧ d.atLineStart = c.atLineStart) ∨
    ∃ first rest, d.out = c.out ++ c.separator ++ first :: rest

variable {c d : Converter}

theorem pushStr_progress (s : Text) : Progress c (c.pushStr s) := by
  cases s with
  | nil => exact .inl ⟨rfl, rfl, rfl⟩
  | cons first rest =>
      right
      exact ⟨first, rest, by simp [out_pushStr]⟩

theorem breakLine_progress (settled : c.Settled) : Progress c c.breakLine := by
  by_cases start : c.atLineStart
  · left
    simp [Converter.breakLine, start]
  · right
    have done : c.separator = [] := by
      simp [separator, mt settled.pending start]
    exact ⟨'\n', [], by simp [Converter.breakLine, start, done, Converter.write]⟩

theorem convert_progress (settled : c.Settled) {event : Event} (inside : IsInside event) :
    Progress c (c.convert .signal event) := by
  cases event with
  | text t | code t =>
      simp only [Converter.convert, Converter.pushText]
      split
      · exact .inl ⟨rfl, rfl, rfl⟩
      · exact pushStr_progress _
  | softBreak =>
      by_cases start : c.atLineStart
      · left
        simp [Converter.convert, start]
      · right
        have done : c.separator = [] := by
          simp [separator, mt settled.pending start]
        exact ⟨' ', [], by simp [Converter.convert, start, done, Converter.write]⟩
  | hardBreak => exact breakLine_progress settled
  | ignored => exact .inl ⟨rfl, rfl, rfl⟩
  | opens tag =>
      cases tag with
      | link | image | styled | other => exact .inl ⟨rfl, rfl, rfl⟩
      | paragraph | heading | blockQuote | codeBlock | list | item =>
          exact absurd inside Bool.false_ne_true
  | closes tagEnd =>
      obtain ⟨tag, inline_, rfl⟩ := inside
      cases tag with
      | link => exact pushStr_progress (c := { c with linkTextBuf := none, linkDest := none }) _
      | image => exact pushStr_progress (c := { c with linkTextBuf := none }) _
      | styled | other => exact .inl ⟨rfl, rfl, rfl⟩
      | paragraph | heading | blockQuote | codeBlock | list | item =>
          exact absurd inline_ Bool.false_ne_true

theorem Progress.grow (progress : Progress c d) {e : Converter} (grows : d.out <+: e.out)
    (onward : Progress d e) : Progress c e := by
  cases progress with
  | inl still =>
      obtain ⟨same, pending, start⟩ := still
      cases onward with
      | inl also => exact .inl ⟨also.1.trans same, also.2.1.trans pending, also.2.2.trans start⟩
      | inr wrote =>
          right
          simpa [separator, same, pending] using wrote
  | inr wrote =>
      right
      obtain ⟨first, rest, same⟩ := wrote
      obtain ⟨more, longer⟩ := grows
      exact ⟨first, rest ++ more, by simp [← longer, same]⟩

theorem foldl_progress (settled : c.Settled) {events : List Event}
    (inside : ∀ event ∈ events, IsInside event) :
    Progress c (events.foldl (Converter.convert .signal) c) := by
  induction events generalizing c with
  | nil => exact .inl ⟨rfl, rfl, rfl⟩
  | cons event rest ih =>
      have here := convert_progress settled (inside event (by simp))
      have later := ih (settled.convert event) fun other member => inside other (by simp [member])
      exact here.grow (foldl_grows _ rest) later

end Inside

end Converter

end Frona.Channel
