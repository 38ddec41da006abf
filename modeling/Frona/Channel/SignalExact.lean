import Frona.Channel.SignalStretches
import Frona.Machine.Lists

set_option autoImplicit false

namespace Frona.Channel

open Utf8 (Text)

section Ranges

namespace SignalConverter

theorem converter_foldl (s : SignalConverter) (events : List Event) :
    (events.foldl convert s).converter = events.foldl (Converter.convert .signal) s.converter := by
  induction events generalizing s with
  | nil => rfl
  | cons event rest ih => exact ih _

theorem converter_convertAll (events : List Event) :
    (convertAll events).converter = Converter.convertAll .signal events :=
  converter_foldl {} events

theorem mem_ranges_iff (events : List Event) (r : SignalBodyRange) :
    r ∈ (convertAll events).ranges ↔
      ∃ before event after, events = before ++ event :: after ∧
        (convertAll before).completed event = some r := by
  induction events using List.reverseRecOn with
  | nil => simp [convertAll]
  | append_singleton events last ih =>
      have step : (convertAll (events ++ [last])).ranges =
          (convertAll events).ranges ++ ((convertAll events).completed last).toList := by
        rw [convertAll, List.foldl_append]
        rfl
      rw [step, List.mem_append, ih, Option.mem_toList]
      constructor
      · rintro (⟨before, event, after, rfl, done⟩ | done)
        · exact ⟨before, event, after ++ [last], by simp, done⟩
        · exact ⟨events, last, [], rfl, done⟩
      · rintro ⟨before, event, after, split, done⟩
        rcases Machine.split_concat split with ⟨rfl, rfl, -⟩ | ⟨rest, -, earlier⟩
        · exact .inr done
        · exact .inl ⟨before, event, rest, earlier, done⟩

theorem styleStack_inlines {events : List Event} (inlines : Inlines events) (s : SignalConverter) :
    (events.foldl convert s).styleStack = s.styleStack := by
  induction inlines generalizing s with
  | nil => rfl
  | @leaf event single =>
      cases event with
      | opens | closes => exact absurd single Bool.false_ne_true
      | text | code | softBreak | hardBreak | ignored => rfl
  | append _ _ first second => rw [List.foldl_append, second, first]
  | @tag tag inside inline_ _ ih =>
      rw [List.foldl_append, List.foldl_cons, List.foldl_cons, List.foldl_nil]
      cases tag with
      | styled style =>
          change ((inside.foldl convert (s.convert (.opens (.styled style)))).styleStack).tail = _
          rw [ih]
          rfl
      | link | image | other => exact ih _
      | paragraph | heading | blockQuote | codeBlock | list | item =>
          exact absurd inline_ Bool.false_ne_true

end SignalConverter

theorem Inlines.isInside {events : List Event} (inlines : Inlines events) :
    ∀ event ∈ events, Converter.IsInside event := by
  induction inlines with
  | nil => simp
  | @leaf event single =>
      intro other member
      rw [List.mem_singleton.mp member]
      cases event with
      | opens | closes => exact absurd single Bool.false_ne_true
      | text | code | softBreak | hardBreak | ignored => trivial
  | append _ _ first second =>
      intro event member
      exact (List.mem_append.mp member).elim (first event) (second event)
  | @tag tag inside inline_ _ ih =>
      intro event member
      simp only [List.cons_append, List.mem_cons, List.mem_append, List.not_mem_nil, or_false]
        at member
      rcases member with rfl | member | rfl
      · exact inline_
      · exact ih event member
      · exact ⟨tag, inline_, rfl⟩

end Ranges

section Nesting

theorem blocksAllowed_cons {tag : Tag} {tags : List Tag} (closed : blocksAllowed tags = false) :
    blocksAllowed (tag :: tags) = false := by
  simp only [blocksAllowed, List.all_cons] at closed ⊢
  simp [closed]

structure Opened (events : List Event) (tag : Tag) (below : List Tag) (before inside : List Event) :
    Prop where
  split : events = before ++ .opens tag :: inside
  outer : before.foldlM openTags [] = some below
  allowed : tag.isInline || blocksAllowed below
  inlines : blocksAllowed (tag :: below) = false → Inlines inside

theorem opened_of_run {events : List Event} {tag : Tag} {below : List Tag}
    (run : events.foldlM openTags [] = some (tag :: below)) :
    ∃ before inside, Opened events tag below before inside := by
  induction size : events.length using Nat.strong_induction_on generalizing events tag below with
  | _ n ih =>
    subst size
    cases List.eq_nil_or_concat events with
    | inl nothing =>
        subst nothing
        simp at run
    | inr more =>
        obtain ⟨init, last, rfl⟩ := more
        rw [List.concat_eq_append] at run ih ⊢
        rw [List.foldlM_append] at run
        obtain ⟨tags, early, late⟩ := Option.bind_eq_some_iff.mp run
        simp only [List.foldlM_cons, List.foldlM_nil, Option.pure_def, Option.bind_eq_bind,
          Option.bind_fun_some] at late
        have leaf (single : last.isLeaf) (same : tags = tag :: below) :
            ∃ before inside, Opened (init ++ [last]) tag below before inside := by
          obtain ⟨before, inside, opened⟩ := ih init.length (by simp) (same ▸ early) rfl
          exact ⟨before, inside ++ [last], by simp [opened.split], opened.outer, opened.allowed,
            fun closed => .append (opened.inlines closed) (.leaf single)⟩
        cases last with
        | text | code | softBreak | hardBreak | ignored =>
            exact leaf rfl (by simpa [openTags] using late)
        | opens inner =>
            simp only [openTags] at late
            split at late
            next allowed =>
              obtain ⟨rfl, rfl⟩ : inner = tag ∧ tags = below := by simpa using late
              exact ⟨init, [], rfl, early, allowed, fun _ => .nil⟩
            next => cases late
        | closes tagEnd =>
            -- The tag that is closed here stands inside the one that is asked for.
            cases tags with
            | nil => simp [openTags] at late
            | cons inner rest =>
                simp only [openTags] at late
                split at late
                next same =>
                  obtain rfl : rest = tag :: below := by simpa using late
                  obtain ⟨middle, nested, held⟩ := ih init.length (by simp) early rfl
                  have shorter : middle.length < (init ++ [Event.closes tagEnd]).length := by
                    rw [held.split]
                    simp
                  obtain ⟨before, inside, opened⟩ := ih middle.length shorter held.outer rfl
                  refine ⟨before, inside ++ (.opens inner :: nested ++ [.closes tagEnd]),
                    by simp [held.split, opened.split], opened.outer, opened.allowed, ?_⟩
                  intro closed
                  have inline_ : inner.isInline := by simpa [closed] using held.allowed
                  rw [← same]
                  exact .append (opened.inlines closed)
                    (.tag inline_ (held.inlines (blocksAllowed_cons closed)))
                next => cases late

theorem opened_of_close {before after : List Event} {style : InlineStyle}
    (nested : WellNested (before ++ .closes (.styled style) :: after)) :
    ∃ outer inside, before = outer ++ .opens (.styled style) :: inside ∧ Inlines inside := by
  rw [WellNested, List.foldlM_append] at nested
  obtain ⟨tags, early, late⟩ := Option.bind_eq_some_iff.mp nested
  rw [List.foldlM_cons] at late
  obtain ⟨rest, closed, -⟩ := Option.bind_eq_some_iff.mp late
  cases tags with
  | nil => simp [openTags] at closed
  | cons tag below =>
      simp only [openTags] at closed
      split at closed
      next same =>
        cases tag with
        | styled opened =>
            obtain rfl : opened = style := by simpa [Tag.toEnd] using same
            obtain ⟨outer, inside, held⟩ := opened_of_run early
            exact ⟨outer, inside, held.split, held.inlines rfl⟩
        | _ => simp [Tag.toEnd] at same
      next => cases closed

end Nesting

section Exactness

variable {events before written : List Event} {style : SignalStyle}

theorem Styled.isInside (styled : Styled events before written style) :
    ∀ event ∈ written, Converter.IsInside event := by
  cases styled with
  | style style _ inlines =>
      intro event member
      cases List.mem_cons.mp member with
      | inl here => exact here ▸ rfl
      | inr deeper => exact inlines.isInside event deeper
  | code t =>
      intro event member
      rw [List.mem_singleton.mp member]
      trivial

theorem Styled.out_prefix (styled : Styled events before written style) :
    (Converter.convertAll .signal (before ++ written)).out <+:
      (Converter.convertAll .signal events).out := by
  have longer : ∃ after, events = before ++ written ++ after := by
    cases styled with
    | style style split => exact ⟨_, split⟩
    | code t split => exact ⟨_, by rw [split, List.append_assoc]; rfl⟩
  obtain ⟨after, split⟩ := longer
  rw [split, Converter.convertAll_append .signal (before ++ written)]
  exact Converter.foldl_grows _ after

theorem Styled.progress (styled : Styled events before written style) :
    Converter.Progress (Converter.convertAll .signal before)
      (Converter.convertAll .signal (before ++ written)) := by
  rw [Converter.convertAll_append]
  exact Converter.foldl_progress (Converter.settled_convertAll before) styled.isInside

end Exactness

section Shifted

variable {text blanks front rest : Text} {first : Char} {c : SignalCollapsed} {style : SignalStyle}

variable (front rest first style) in
theorem mark_written : mark (units front) (units (front ++ first :: rest)) style =
    some ⟨units front, units (front ++ first :: rest) - units front, style⟩ := by
  have := lenUtf16_pos first
  rw [mark, if_pos]
  rw [units_append, units_cons]
  omega

variable (run : collapseSignal text = some c) (within : front ++ first :: rest <+: text ++ blanks)
  (short : units (text ++ blanks) < 2 ^ 31)

include run within short

theorem shift_within : c.shift ⟨units front, units (front ++ first :: rest) - units front, style⟩ =
    let stop := units (front ++ first :: rest)
    let newStart := (units front + (c.deltas[units front]?).getD 0 : Int).toNat
    let newEnd := min (stop + (c.deltas[stop - 1]?).getD c.runningDelta : Int).toNat (units c.body)
    if newStart < newEnd then some ⟨newStart, newEnd - newStart, style⟩ else none := by
  have grown : units front ≤ units (front ++ first :: rest) := units_le (List.prefix_append _ _)
  have fits := units_le within
  have whole : units text ≤ units (text ++ blanks) := units_le (List.prefix_append _ _)
  rw [shift_eq run (by omega) (by simp only; omega)]
  simp only [Nat.add_sub_cancel' grown]

theorem shift_trimmed (trimmed : text.length ≤ front.length) :
    c.shift ⟨units front, units (front ++ first :: rest) - units front, style⟩ = none := by
  have inside : text <+: front := List.prefix_of_prefix_length_le (List.prefix_append text blanks)
    ((List.prefix_append front _).trans within) trimmed
  have start := shift_start_beyond run (units_le inside)
  rw [shift_within run within short]
  simp only
  rw [if_neg]
  omega

theorem shift_visible (visible : front.length < text.length) :
    c.shift ⟨units front, units (front ++ first :: rest) - units front, style⟩ =
      let start := units (collapsed front) - if IsDropped front first then 1 else 0
      some ⟨start, units (collapsed (text.take (front ++ first :: rest).length)) - start, style⟩ := by
  have stop := shift_end run (by simp) within
  rw [shift_within run within short]
  obtain ⟨after, split⟩ : front ++ [first] <+: text := by
    apply List.prefix_of_prefix_length_le _ (List.prefix_append text blanks)
      (by simp; omega)
    exact List.IsPrefix.trans (by simp) within
  rw [List.append_assoc, List.singleton_append] at split
  subst split
  have start := shift_start front after first run
  rw [surplus_first] at start
  have later : (front ++ first :: after).take (front ++ first :: rest).length =
      front ++ first :: after.take rest.length := by
    simp [List.take_append]
  have positive : units (collapsed front) - (if IsDropped front first then 1 else 0) <
      units (collapsed ((front ++ first :: after).take (front ++ first :: rest).length)) := by
    rw [later]
    by_cases dropped : IsDropped front first
    · have some_ : front ≠ [] := by
        rintro rfl
        exact absurd dropped.2 (by simp)
      have least : units (collapsed front) ≤
          units (collapsed (front ++ first :: after.take rest.length)) := by
        rw [collapsed_append]
        exact units_le (List.prefix_append _ _)
      have := units_pos (Squeeze.squeeze_ne_nil (x := '\n') some_ (by decide : 0 < 2))
      rw [if_pos dropped]
      unfold collapsed at least ⊢
      omega
    · obtain ⟨more, same⟩ := collapsed_kept dropped (after.take rest.length)
      have := lenUtf16_pos first
      rw [same, if_neg dropped, units_append, units_cons]
      omega
  simp only [start, stop, if_pos positive]

end Shifted

section Exactly

variable {events before written : List Event} {style : SignalStyle} {c : SignalCollapsed}
  {first : Char} {rest : Text}

theorem signalText_out (events : List Event) :
    ∃ blanks, (Converter.convertAll .signal events).out = signalText events ++ blanks :=
  Frona.Chat.trimEnd_append _

/-- The text is shorter than what a position can count. -/
def FitsPositions (events : List Event) : Prop :=
  units (Converter.convertAll .signal events).out < 2 ^ 31

instance (events : List Event) : Decidable (FitsPositions events) :=
  inferInstanceAs (Decidable (units (Converter.convertAll .signal events).out < 2 ^ 31))

theorem FitsPositions.counted (short : FitsPositions events)
    (start : (Converter.convertAll .signal before).out <+: (Converter.convertAll .signal events).out) :
    (Converter.convertAll .signal before).utf16Len =
      units (Converter.convertAll .signal before).out := by
  have least := units_le start
  unfold FitsPositions at short
  exact (Converter.settled_convertAll before).counted (by omega)

theorem Styled.out_before (styled : Styled events before written style) :
    (Converter.convertAll .signal before).out <+: (Converter.convertAll .signal events).out := by
  refine List.IsPrefix.trans ?_ styled.out_prefix
  rw [Converter.convertAll_append]
  exact Converter.foldl_grows _ written

theorem rangeFor_marked (run : collapseSignal (signalText events) = some c) {raw : SignalBodyRange}
    (made : mark (Converter.convertAll .signal before).utf16Len
      (Converter.convertAll .signal (before ++ written)).utf16Len style = some raw) :
    rangeFor events before written style = c.shift raw := by
  unfold rangeFor
  rw [run, Option.bind_eq_bind, Option.bind_some, made, Option.bind_eq_bind, Option.bind_some]

theorem rangeFor_written (short : FitsPositions events) (styled : Styled events before written style)
    (run : collapseSignal (signalText events) = some c)
    (wrote : (Converter.convertAll .signal (before ++ written)).out =
      (Converter.convertAll .signal before).out ++ first :: rest) :
    rangeFor events before written style =
      let front := (Converter.convertAll .signal before).out
      if front.length < (signalText events).length then
        let start := units (collapsed front) - if IsDropped front first then 1 else 0
        some ⟨start, units (keptOf events before written) - start, style⟩
      else none := by
  obtain ⟨blanks, out⟩ := signalText_out events
  have within := styled.out_prefix
  rw [wrote, out] at within
  have fits : units (signalText events ++ blanks) < 2 ^ 31 := by
    unfold FitsPositions at short
    rwa [out] at short
  have made := mark_written (Converter.convertAll .signal before).out rest first style
  rw [← wrote, ← short.counted styled.out_before, ← short.counted styled.out_prefix] at made
  rw [rangeFor_marked run made, short.counted styled.out_before, short.counted styled.out_prefix,
    wrote, keptOf, wrote]
  simp only
  split
  next visible => exact shift_visible run within fits visible
  next trimmed => exact shift_trimmed run within fits (by omega)

theorem rangeFor_silent (short : FitsPositions events) (styled : Styled events before written style)
    (same : (Converter.convertAll .signal (before ++ written)).out =
    (Converter.convertAll .signal before).out) : rangeFor events before written style = none := by
  simp only [rangeFor, short.counted styled.out_before, short.counted styled.out_prefix, same, mark,
    lt_irrefl, if_false]
  cases collapseSignal (signalText events) <;> rfl

theorem visible_split (styled : Styled events before written style)
    (wrote : (Converter.convertAll .signal (before ++ written)).out =
      (Converter.convertAll .signal before).out ++ first :: rest)
    (visible : (Converter.convertAll .signal before).out.length < (signalText events).length) :
    ∃ after, signalText events = (Converter.convertAll .signal before).out ++ first :: after := by
  obtain ⟨blanks, out⟩ := signalText_out events
  have within := styled.out_prefix
  rw [wrote, out] at within
  obtain ⟨after, split⟩ : (Converter.convertAll .signal before).out ++ [first] <+:
      signalText events := by
    apply List.prefix_of_prefix_length_le _ (List.prefix_append _ blanks) (by simp; omega)
    exact List.IsPrefix.trans (by simp) within
  exact ⟨after, by rw [← split]; simp⟩

theorem separator_short (c : Converter) (some_ : c.separator ≠ []) (first : Char) :
    ¬ IsDropped c.out first := by
  rintro ⟨-, ends⟩
  apply some_
  unfold Converter.separator Converter.blankLine
  simp [List.isSuffixOf_iff_suffix, ends]

section Visible

variable (styled : Styled events before written style)
  (run : collapseSignal (signalText events) = some c)
  (wrote : (Converter.convertAll .signal (before ++ written)).out =
    (Converter.convertAll .signal before).out ++ first :: rest)
  (visible : (Converter.convertAll .signal before).out.length < (signalText events).length)

include styled wrote visible

theorem keptOf_visible (stays : ¬ IsDropped (Converter.convertAll .signal before).out first) :
    ∃ more, keptOf events before written =
      collapsed (Converter.convertAll .signal before).out ++ first :: more := by
  obtain ⟨after, split⟩ := visible_split styled wrote visible
  have later : ((Converter.convertAll .signal before).out ++ first :: after).take
      ((Converter.convertAll .signal before).out ++ first :: rest).length =
        (Converter.convertAll .signal before).out ++ first :: after.take rest.length := by
    simp [List.take_append]
  rw [keptOf, split, wrote, later]
  exact collapsed_kept stays _

-- A blank line that is put in front is not dropped.
theorem frontOf_separated (some_ : (Converter.convertAll .signal before).separator ≠ []) :
    ∃ more, frontOf events before =
      collapsed (Converter.convertAll .signal before).out ++ first :: more := by
  obtain ⟨after, split⟩ := visible_split styled wrote visible
  obtain ⟨c, more, shape⟩ := List.exists_cons_of_ne_nil some_
  have later : ((Converter.convertAll .signal before).out ++ first :: after).take
      ((Converter.convertAll .signal before).out ++ c :: more).length =
        (Converter.convertAll .signal before).out ++ first :: after.take more.length := by
    simp [List.take_append]
  rw [frontOf, separated, split, shape, later]
  exact collapsed_kept (separator_short _ some_ first) _

include run

theorem coversExactly_iff (short : FitsPositions events) {r : SignalBodyRange}
    (range : rangeFor events before written style = some r) :
    CoversExactly events before written c.body r ↔
      (Converter.convertAll .signal before).separator = [] ∧
        ¬ IsDropped (Converter.convertAll .signal before).out first := by
  have shape := rangeFor_written short styled run wrote
  simp only [if_pos visible, range, Option.some.injEq] at shape
  have wide := lenUtf16_pos first
  constructor
  · intro covers
    have start := covers.start
    rw [shape] at start
    simp only at start
    have unseparated : (Converter.convertAll .signal before).separator = [] := by
      by_contra some_
      obtain ⟨more, front⟩ := frontOf_separated styled wrote visible some_
      rw [if_neg (separator_short _ some_ first), front, units_append, units_cons] at start
      omega
    refine ⟨unseparated, fun dropped => ?_⟩
    have written_ : (Converter.convertAll .signal before).out ≠ [] := by
      intro nothing
      rw [nothing] at dropped
      exact absurd dropped.2 (by simp)
    have positive := units_pos (Squeeze.squeeze_ne_nil (x := '\n') written_ (by decide : 0 < 2))
    obtain ⟨after, split⟩ := visible_split styled wrote visible
    rw [if_pos dropped, frontOf, separated, unseparated, List.append_nil, split, List.take_left]
      at start
    unfold collapsed at start
    omega
  · rintro ⟨unseparated, stays⟩
    obtain ⟨more, kept⟩ := keptOf_visible styled wrote visible stays
    obtain ⟨after, split⟩ := visible_split styled wrote visible
    have front : frontOf events before = collapsed (Converter.convertAll .signal before).out := by
      rw [frontOf, separated, unseparated, List.append_nil, split, List.take_left]
    have length : units (keptOf events before written) =
        units (collapsed (Converter.convertAll .signal before).out) +
          (lenUtf16 first + units more) := by
      rw [kept, units_append, units_cons]
    rw [if_neg stays] at shape
    rw [shape]
    constructor
    · simp only
      omega
    · rw [(collapseSignal_eq run).1]
      exact collapsed_take _ _
    · simp [front]
    · simp only
      omega

end Visible

end Exactly

section Message

variable {events : List Event} {text : SignalText}

theorem toSignal_eq (returned : toSignal events = some text) :
    ∃ c, collapseSignal (signalText events) = some c ∧ text.body = c.body ∧
      text.ranges = (SignalConverter.convertAll events).ranges.filterMap c.shift := by
  have same : toSignal events = (collapseSignal (signalText events)).map fun c =>
      ⟨c.body, (SignalConverter.convertAll events).ranges.filterMap c.shift⟩ := by
    simp only [toSignal, signalText, SignalConverter.converter_convertAll]
  rw [same] at returned
  obtain ⟨c, run, rfl⟩ := Option.map_eq_some_iff.mp returned
  exact ⟨c, run, rfl, rfl⟩

theorem completed_style (outer : List Event) {inside : List Event} (style : InlineStyle)
    (inlines : Inlines inside) :
    (SignalConverter.convertAll (outer ++ .opens (.styled style) :: inside)).completed
        (.closes (.styled style)) =
      mark (Converter.convertAll .signal outer).utf16Len
        (Converter.convertAll .signal (outer ++ .opens (.styled style) :: inside)).utf16Len
        style.signal := by
  have stack : (SignalConverter.convertAll (outer ++ .opens (.styled style) :: inside)).styleStack =
      (style.signal, (Converter.convertAll .signal outer).utf16Len) ::
        (SignalConverter.convertAll outer).styleStack := by
    rw [SignalConverter.convertAll, List.foldl_append, List.foldl_cons,
      SignalConverter.styleStack_inlines inlines, ← SignalConverter.converter_convertAll outer]
    rfl
  simp only [SignalConverter.completed, stack, List.head?_cons, Option.bind_some,
    SignalConverter.converter_convertAll]

theorem completed_code {before : List Event} (t : Text)
    (outside : (Converter.convertAll .signal before).linkTextBuf = none) :
    (SignalConverter.convertAll before).completed (.code t) =
      mark (Converter.convertAll .signal before).utf16Len
        (Converter.convertAll .signal (before ++ [.code t])).utf16Len .monospace := by
  simp only [SignalConverter.completed, SignalConverter.converter_convertAll, outside, if_true,
    Converter.convertAll_append, List.foldl_cons, List.foldl_nil]

variable {c : SignalCollapsed} (run : collapseSignal (signalText events) = some c)
  (body : text.body = c.body)
  (ranges : text.ranges = (SignalConverter.convertAll events).ranges.filterMap c.shift)

include run ranges

theorem Styled.mem_ranges {before written : List Event} {style : SignalStyle}
    (styled : Styled events before written style) {r : SignalBodyRange}
    (range : rangeFor events before written style = some r) : r ∈ text.ranges := by
  simp only [rangeFor, run, Option.bind_eq_bind, Option.bind_some] at range
  obtain ⟨raw, made, shifted⟩ := Option.bind_eq_some_iff.mp range
  rw [ranges, List.mem_filterMap]
  refine ⟨raw, (SignalConverter.mem_ranges_iff events raw).mpr ?_, shifted⟩
  cases styled with
  | style style split inlines =>
      exact ⟨_, _, _, split, (completed_style before style inlines).trans made⟩
  | code t split outside => exact ⟨_, _, _, split, (completed_code t outside).trans made⟩

theorem ranges_origin (nested : WellNested events) {r : SignalBodyRange} (member : r ∈ text.ranges) :
    (∃ before written style, Styled events before written style ∧
      rangeFor events before written style = some r) ∨
    ∃ before after raw c, events = before ++ .closes .codeBlock :: after ∧
      (SignalConverter.convertAll before).codeBlockRange = some raw ∧
      collapseSignal (signalText events) = some c ∧ c.shift raw = some r := by
  rw [ranges, List.mem_filterMap] at member
  obtain ⟨raw, made, shifted⟩ := member
  obtain ⟨before, event, after, split, completed⟩ :=
    (SignalConverter.mem_ranges_iff events raw).mp made
  cases event with
  | code t =>
      left
      have outside : (Converter.convertAll .signal before).linkTextBuf = none := by
        by_contra inside
        rw [SignalConverter.completed, SignalConverter.converter_convertAll, if_neg inside]
          at completed
        cases completed
      rw [completed_code t outside] at completed
      exact ⟨before, [.code t], .monospace, .code t split outside,
        (rangeFor_marked run completed).trans shifted⟩
  | closes tagEnd =>
      cases tagEnd with
      | codeBlock => exact .inr ⟨before, after, raw, c, split, completed, run, shifted⟩
      | styled style =>
          left
          obtain ⟨outer, inside, rfl, inlines⟩ := opened_of_close (split ▸ nested)
          rw [completed_style outer style inlines] at completed
          exact ⟨outer, _, style.signal, .style style split inlines,
            (rangeFor_marked run completed).trans shifted⟩
      | _ => cases completed
  | _ => cases completed

end Message

/-- The style ranges of a message are those of the styled text exactly when no styled stretch of it
starts with a blank line that was pending, or with a newline that is dropped. -/
theorem marksStyledText_iff {events : List Event} {text : SignalText} (nested : WellNested events)
    (short : FitsPositions events) (returned : toSignal events = some text) :
    MarksStyledText events text ↔ StartsVisibly events := by
  obtain ⟨c, run, body, ranges⟩ := toSignal_eq returned
  constructor
  · intro marks before written style styled start first rest wrote visible
    have range := rangeFor_written short styled run wrote
    rw [if_pos visible] at range
    have covers := (marks.exactly before written style styled _ range).2
    rw [body] at covers
    exact (coversExactly_iff styled run wrote visible short range).mp covers
  · intro starts
    constructor
    · intro r member
      exact ranges_origin run ranges nested member
    · intro before written style styled r range
      refine ⟨styled.mem_ranges run ranges range, ?_⟩
      rw [body]
      cases styled.progress with
      | inl silent =>
          rw [rangeFor_silent short styled silent.1] at range
          cases range
      | inr progress =>
          obtain ⟨first, rest, wrote⟩ : ∃ first rest,
              (Converter.convertAll .signal (before ++ written)).out =
                (Converter.convertAll .signal before).out ++ first :: rest := by
            obtain ⟨c, more, same⟩ := progress
            rw [same, List.append_assoc]
            cases (Converter.convertAll .signal before).separator with
            | nil => exact ⟨c, more, rfl⟩
            | cons d others => exact ⟨d, others ++ c :: more, rfl⟩
          by_cases visible : (Converter.convertAll .signal before).out.length <
              (signalText events).length
          · exact (coversExactly_iff styled run wrote visible short range).mpr
              (starts before written style styled first rest wrote visible)
          · rw [rangeFor_written short styled run wrote, if_neg visible] at range
            cases range

section Paragraphs

def paragraph (inside : List Event) : List Event :=
  .opens .paragraph :: inside ++ [.closes .paragraph]

def strong (t : Text) : List Event :=
  [.opens (.styled .strong), .text t, .closes (.styled .strong)]

theorem marksStyledText_sentence :
    MarksStyledText (paragraph (.text ['a', ' '] :: strong ['b']))
        ⟨['a', ' ', 'b'], [⟨2, 1, .bold⟩]⟩ ↔
      StartsVisibly (paragraph (.text ['a', ' '] :: strong ['b'])) :=
  marksStyledText_iff (by decide) (by decide +kernel) (by decide +kernel)

theorem bold_paragraph_marks_separator :
    ∃ text, WellNested (paragraph [.text ['a']] ++ paragraph (strong ['b'])) ∧
      toSignal (paragraph [.text ['a']] ++ paragraph (strong ['b'])) = some text ∧
      ¬ MarksStyledText (paragraph [.text ['a']] ++ paragraph (strong ['b'])) text := by
  refine ⟨⟨['a', '\n', '\n', 'b'], [⟨2, 2, .bold⟩]⟩, by decide, by decide +kernel, fun marks => ?_⟩
  have styled : Styled (paragraph [.text ['a']] ++ paragraph (strong ['b']))
      (paragraph [.text ['a']] ++ [.opens .paragraph]) [.opens (.styled .strong), .text ['b']]
      .bold := .style .strong rfl (.leaf rfl)
  have covers := (marks.exactly _ _ _ styled ⟨2, 2, .bold⟩ (by decide +kernel)).2
  exact absurd covers.start (by decide)

end Paragraphs

end Frona.Channel
