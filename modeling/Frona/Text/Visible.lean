import Frona.Text.Alignment

set_option autoImplicit false

namespace Frona.Text

open Utf8

section Solid

variable {A : Type} (p : A → Bool)

structure Solid (core : List A) : Prop where
  starts : ∃ first rest, core = first :: rest ∧ p first = true
  stops : ∃ init last, core = init ++ [last] ∧ p last = true

def Unmarked (items : List A) : Prop := ∀ item ∈ items, p item = false

theorem unmarked_iff_filter (items : List A) : Unmarked p items ↔ items.filter p = [] := by
  simp [Unmarked, List.filter_eq_nil_iff]

theorem exists_solid (items : List A) (marked : items.filter p ≠ []) :
    ∃ before core after, items = before ++ (core ++ after) ∧ Unmarked p before ∧
      Unmarked p after ∧ Solid p core := by
  obtain ⟨first, inside, holds⟩ : ∃ first ∈ items, p first = true := by
    obtain ⟨first, rest, same⟩ := List.exists_cons_of_ne_nil marked
    exact ⟨first, List.mem_filter.mp (same ▸ List.mem_cons_self)⟩
  -- The first marked element from the left, and then the first one from the right.
  have left (items : List A) (holds : ∃ item ∈ items, p item = true) :
      ∃ before item rest, items = before ++ item :: rest ∧ Unmarked p before ∧
        p item = true := by
    induction items with
    | nil => simp at holds
    | cons item rest ih =>
        cases marks : p item with
        | true => exact ⟨[], item, rest, rfl, by simp [Unmarked], marks⟩
        | false =>
            have : ∃ other ∈ rest, p other = true := by simpa [marks] using holds
            obtain ⟨before, other, tail, same, blank, found⟩ := ih this
            refine ⟨item :: before, other, tail, by simp [same], ?_, found⟩
            intro next member
            rcases List.mem_cons.mp member with rfl | member
            · exact marks
            · exact blank next member
  obtain ⟨before, head, rest, whole, blank, headMarked⟩ := left items ⟨first, inside, holds⟩
  obtain ⟨after, tail, middle, reversed, blank', tailMarked⟩ :=
    left (head :: rest).reverse ⟨head, by simp, headMarked⟩
  have core : head :: rest = middle.reverse ++ [tail] ++ after.reverse := by
    have := congrArg List.reverse reversed
    simpa using this
  refine ⟨before, middle.reverse ++ [tail], after.reverse, ?_, blank, ?_, ?_, ?_⟩
  · rw [whole, core]
  · intro item member
    exact blank' item (List.mem_reverse.mp member)
  · cases shape : middle.reverse with
    | nil => exact ⟨tail, [], rfl, tailMarked⟩
    | cons item items =>
        rw [shape, List.cons_append, List.cons_append] at core
        exact ⟨item, items ++ [tail], rfl, (List.cons.inj core).1 ▸ headMarked⟩
  · exact ⟨middle.reverse, tail, rfl, tailMarked⟩

theorem append_cons_inj (a b c d : List A) (v w : A) (same : a ++ v :: b = c ++ w :: d)
    (left : p v = true) (right : p w = true) (count : a.countP p = c.countP p) :
    a = c ∧ v = w ∧ b = d := by
  rcases List.append_eq_append_iff.mp same with ⟨middle, rfl, tail⟩ | ⟨middle, rfl, tail⟩
  · cases middle with
    | nil => simpa using tail
    | cons x middle =>
        obtain ⟨rfl, _⟩ := List.cons.inj tail
        simp [List.countP_append, left] at count
  · cases middle with
    | nil => simpa [eq_comm] using tail
    | cons x middle =>
        obtain ⟨rfl, _⟩ := List.cons.inj tail
        simp [List.countP_append, right] at count

theorem solid_unique (a c b a' c' b' : List A) (same : a ++ (c ++ b) = a' ++ (c' ++ b'))
    (solid : Solid p c) (solid' : Solid p c') (before : a.countP p = a'.countP p)
    (inside : c.countP p = c'.countP p) : a = a' ∧ c = c' := by
  obtain ⟨first, rest, starts, marked⟩ := solid.starts
  obtain ⟨first', rest', starts', marked'⟩ := solid'.starts
  have front : a = a' := by
    rw [starts, starts'] at same
    exact (append_cons_inj p a _ a' _ first first' same marked marked' before).1
  subst front
  refine ⟨rfl, ?_⟩
  obtain ⟨init, last, stops, marked⟩ := solid.stops
  obtain ⟨init', last', stops', marked'⟩ := solid'.stops
  have back := List.append_cancel_left same
  rw [stops, stops', List.append_assoc, List.append_assoc] at back
  have count : init.countP p = init'.countP p := by
    rw [stops, stops'] at inside
    simpa [List.countP_append, marked, marked'] using inside
  obtain ⟨rfl, rfl, _⟩ := append_cons_inj p init _ init' _ last last' back marked marked' count
  rw [stops, stops']

end Solid

section Trim

def trim (text : Text) : Text :=
  ((text.dropWhile isWhitespace).reverse.dropWhile isWhitespace).reverse

def isVisible (c : Char) : Bool := !isWhitespace c

theorem trim_unmarked (text : Text) (blank : Unmarked isVisible text) : trim text = [] := by
  have : text.dropWhile isWhitespace = [] := by
    induction text with
    | nil => rfl
    | cons c rest ih =>
        have head : isWhitespace c = true := by simpa [isVisible] using blank c (by simp)
        simpa [head] using ih fun d member => blank d (by simp [member])
  simp [trim, this]

theorem trim_solid (before core after : Text) (left : Unmarked isVisible before)
    (right : Unmarked isVisible after) (solid : Solid isVisible core) :
    trim (before ++ (core ++ after)) = core := by
  have dropped (blank rest : Text) (all : Unmarked isVisible blank) :
      (blank ++ rest).dropWhile isWhitespace = rest.dropWhile isWhitespace := by
    apply List.dropWhile_append_of_pos
    intro c member
    simpa [isVisible] using all c member
  obtain ⟨first, rest, starts, visible⟩ := solid.starts
  obtain ⟨init, last, stops, visible'⟩ := solid.stops
  have front : (core ++ after).dropWhile isWhitespace = core ++ after := by
    have : isWhitespace first = false := by simpa [isVisible] using visible
    simp [starts, this]
  have back : core.reverse.dropWhile isWhitespace = core.reverse := by
    have : isWhitespace last = false := by simpa [isVisible] using visible'
    simp [stops, this]
  rw [trim, dropped _ _ left, front, List.reverse_append, dropped _ _ ?_, back,
    List.reverse_reverse]
  intro c member
  exact right c (List.mem_reverse.mp member)

theorem countP_trim (text : Text) : (trim text).countP isVisible = text.countP isVisible := by
  by_cases blank : text.filter isVisible = []
  · rw [trim_unmarked text ((unmarked_iff_filter _ _).mpr blank), List.countP_eq_length_filter,
      List.countP_eq_length_filter, blank]
    rfl
  · obtain ⟨before, core, after, rfl, left, right, solid⟩ := exists_solid isVisible text blank
    rw [trim_solid before core after left right solid]
    have none (blank : Text) (unmarked : Unmarked isVisible blank) :
        blank.countP isVisible = 0 :=
      List.countP_eq_zero.mpr fun c member => by simp [unmarked c member]
    simp [List.countP_append, none before left, none after right]

end Trim

section Collapsing

def visible (cell : Cell) : Bool := isVisible cell.char

theorem not_visible_space (span : Span) : ¬ visible ⟨' ', span⟩ = true := by
  simp only [visible]
  decide

theorem filter_prependBlank (span : Span) (cells : List Cell) :
    (prependBlank span cells).filter visible = cells.filter visible := by
  cases cells with
  | nil => exact List.filter_cons_of_neg (not_visible_space span)
  | cons cell rest =>
      simp only [prependBlank]
      split
      · rename_i blank
        have hidden : ¬ visible cell = true := by
          simp only [visible, blank]
          decide
        rw [List.filter_cons_of_neg (not_visible_space _), List.filter_cons_of_neg hidden]
      · rw [List.filter_cons_of_neg (not_visible_space span)]

theorem filter_collapseCells (cells : List Cell) :
    (collapseCells cells).filter visible = cells.filter visible := by
  induction cells with
  | nil => rfl
  | cons cell rest ih =>
      simp only [collapseCells]
      split
      · rename_i blank
        rw [filter_prependBlank, ih, List.filter_cons_of_neg (by simp [visible, isVisible, blank])]
      · rename_i shown
        have : visible cell = true := by simpa [visible, isVisible] using shown
        rw [List.filter_cons_of_pos this, List.filter_cons_of_pos this, ih]

theorem prependBlank_append (span : Span) (left right : List Cell) (cell : Cell)
    (shown : visible cell = true) :
    prependBlank span (left ++ cell :: right) = prependBlank span left ++ cell :: right := by
  cases left with
  | nil =>
      have : cell.char ≠ ' ' := by
        intro blank
        simp only [visible, blank] at shown
        exact absurd shown (by decide)
      simp [prependBlank, this]
  | cons head left =>
      simp only [List.cons_append, prependBlank]
      split <;> simp

theorem collapseCells_append (left right : List Cell) (cell : Cell)
    (shown : visible cell = true) :
    collapseCells (left ++ cell :: right) =
      collapseCells left ++ cell :: collapseCells right := by
  induction left with
  | nil =>
      have : isWhitespace cell.char = false := by simpa [visible, isVisible] using shown
      simp [collapseCells, this]
  | cons head left ih =>
      simp only [List.cons_append, collapseCells]
      split
      · rw [ih, prependBlank_append _ _ _ _ shown]
      · rw [ih, List.cons_append]

theorem collapseCells_solid (before core after : List Cell) (solid : Solid visible core) :
    collapseCells (before ++ (core ++ after)) =
      collapseCells before ++ (collapseCells core ++ collapseCells after) := by
  obtain ⟨first, rest, starts, firstShown⟩ := solid.starts
  obtain ⟨init, last, stops, lastShown⟩ := solid.stops
  have front : collapseCells (before ++ (core ++ after)) =
      collapseCells before ++ collapseCells (core ++ after) := by
    have alone := collapseCells_append [] (rest ++ after) first firstShown
    rw [starts, List.cons_append, collapseCells_append before _ first firstShown]
    rw [List.nil_append] at alone
    rw [alone]
    rfl
  have back : collapseCells (core ++ after) = collapseCells core ++ collapseCells after := by
    have alone := collapseCells_append init [] last lastShown
    rw [stops, List.append_assoc, List.singleton_append,
      collapseCells_append init after last lastShown, alone]
    simp [collapseCells]
  rw [front, back]

theorem Solid.collapseCells {core : List Cell} (solid : Solid visible core) :
    Solid visible (collapseCells core) := by
  obtain ⟨first, rest, starts, firstShown⟩ := solid.starts
  obtain ⟨init, last, stops, lastShown⟩ := solid.stops
  refine ⟨⟨first, Text.collapseCells rest, ?_, firstShown⟩,
    ⟨Text.collapseCells init, last, ?_, lastShown⟩⟩
  · rw [starts]
    exact collapseCells_append [] rest first firstShown
  · rw [stops, collapseCells_append init [] last lastShown]
    rfl

theorem Solid.chars {core : List Cell} (solid : Solid visible core) :
    Solid isVisible (chars core) := by
  obtain ⟨first, rest, starts, firstShown⟩ := solid.starts
  obtain ⟨init, last, stops, lastShown⟩ := solid.stops
  exact ⟨⟨first.char, Text.chars rest, by simp [starts], firstShown⟩,
    ⟨Text.chars init, last.char, by simp [stops], lastShown⟩⟩

theorem Unmarked.chars {cells : List Cell} (blank : Unmarked visible cells) :
    Unmarked isVisible (chars cells) := by
  intro c member
  obtain ⟨cell, inside, rfl⟩ := List.mem_map.mp member
  exact blank cell inside

theorem Unmarked.collapseCells {cells : List Cell} (blank : Unmarked visible cells) :
    Unmarked visible (collapseCells cells) := by
  rw [unmarked_iff_filter, filter_collapseCells, ← unmarked_iff_filter]
  exact blank

theorem countP_chars (cells : List Cell) :
    (chars cells).countP isVisible = (cells.filter visible).length := by
  rw [chars, List.countP_map, List.countP_eq_length_filter]
  rfl

theorem chars_collapseCells_congr (left right : List Cell) (same : chars left = chars right) :
    chars (collapseCells left) = chars (collapseCells right) := by
  induction left generalizing right with
  | nil =>
      obtain rfl : right = [] := List.map_eq_nil_iff.mp same.symm
      rfl
  | cons cell left ih =>
      cases right with
      | nil => simp at same
      | cons other right =>
          obtain ⟨head, tail⟩ := List.cons.inj same
          have rest := ih right tail
          simp only [collapseCells, head]
          split
          · cases h : collapseCells left with
            | nil =>
                rw [h] at rest
                rw [show collapseCells right = [] from List.map_eq_nil_iff.mp rest.symm]
                rfl
            | cons a as =>
                cases k : collapseCells right with
                | nil => rw [h, k] at rest; simp at rest
                | cons b bs =>
                    rw [h, k] at rest
                    obtain ⟨first, others⟩ := List.cons.inj rest
                    simp only [prependBlank, first]
                    split
                    · simp [show chars as = chars bs from others]
                    · simp [first, show chars as = chars bs from others]
          · simp [head, rest]

end Collapsing

end Frona.Text
