import Frona.Pkm.PageText

set_option autoImplicit false

namespace Frona.Pkm

open Utf8 (Text stripPrefix stripPrefix_eq_some)
open Frona.Chat (Json)
open Frona.Text (isWhitespace trim isVisible countP_trim)

section Titles

theorem dropReturn_title (rest : Text) : ∃ more, dropReturn ('#' :: ' ' :: rest) = '#' :: ' ' :: more := by
  cases List.eq_nil_or_concat rest with
  | inl nothing => exact ⟨[], by rw [nothing]; rfl⟩
  | inr some_ =>
      obtain ⟨init, last, rfl⟩ := some_
      have back : ('#' :: ' ' :: init.concat last).reverse = last :: ('#' :: ' ' :: init).reverse := by
        simp
      unfold dropReturn
      rw [back]
      split
      next same =>
        obtain ⟨rfl, rfl⟩ := List.cons.inj same
        exact ⟨init, by simp⟩
      next => exact ⟨_, rfl⟩

theorem isHeading_title (rest : Text) : isHeading ('#' :: ' ' :: rest) = true := by
  have blank : isWhitespace ' ' = true := by decide
  have shown : isWhitespace '#' = false := by decide
  simp [isHeading, blank, shown]

theorem trim_ne_nil {text : Text} {c : Char} (member : c ∈ text) (shown : isVisible c = true) :
    trim text ≠ [] := by
  intro nothing
  have count := countP_trim text
  rw [nothing, List.countP_nil] at count
  have := List.countP_eq_zero.mp count.symm c member
  exact this shown

theorem opensWithHeading_title (rest : Text) : opensWithHeading ('#' :: ' ' :: rest) = true := by
  obtain ⟨first, more, split⟩ : ∃ first more,
      lines ('#' :: ' ' :: rest) = ('#' :: ' ' :: first) :: more := by
    have inside : '\n' ∉ '#' :: ' ' :: rest.takeWhile (· ≠ '\n') := by
      have := fun member => List.mem_takeWhile_imp (p := (· ≠ '\n')) (l := rest) (x := '\n') member
      simpa using this
    have whole := List.takeWhile_append_dropWhile (p := (· ≠ '\n')) (l := rest)
    cases later : rest.dropWhile (· ≠ '\n') with
    | nil =>
        rw [later, List.append_nil] at whole
        rw [whole] at inside
        exact ⟨rest, [], by rw [lines_line inside, if_neg (by simp)]⟩
    | cons c others =>
        have newline : c = '\n' := by
          have := List.head_dropWhile_not (· ≠ '\n') (l := rest) (by rw [later]; simp)
          simp only [later, List.head_cons] at this
          simpa using this
        rw [later, newline] at whole
        obtain ⟨more, kept⟩ := dropReturn_title (rest.takeWhile (· ≠ '\n'))
        refine ⟨more, lines others, ?_⟩
        rw [← whole, ← kept]
        exact lines_cons inside others
  have shown : trim ('#' :: ' ' :: first) ≠ [] := trim_ne_nil (by simp) (by decide : isVisible '#' = true)
  rw [opensWithHeading, split, List.find?_cons_of_pos (by simpa using shown), Option.any_some]
  exact isHeading_title first

end Titles

section Extraction

def cutHistory (body : Text) : Text := ((splitOnce history body).map Prod.fst).getD body

variable (context : PageContext) (page : Consolidate.KnowledgeEntity) (attributes : Json)
  (links : List KnowledgeEntityLink) {article : MarkdownPage}

-- Below the frontmatter.
def contentOf (article : MarkdownPage) : Text :=
  (if article.hasTitle then [] else ['#', ' '] ++ page.name ++ ['\n', '\n']) ++
    trim article.body ++ ['\n', '\n'] ++ relatedSection context page

theorem composePage_split (article : MarkdownPage) :
    composePage context page attributes links article = frontmatterStart ++
      (unlines (frontmatterLines context page attributes links) ++
        (frontmatterStart ++ '\n' :: contentOf context page article)) := by
  simp only [composePage, contentOf, List.append_assoc]
  rfl

theorem unlines_concat {lines : List Text} (some_ : lines ≠ []) :
    ∃ front, unlines lines = front ++ ['\n'] := by
  obtain ⟨init, last, rfl⟩ := (List.eq_nil_or_concat lines).resolve_left some_
  exact ⟨unlines init ++ last, by simp [unlines]⟩

-- The newline of the last line is the first of the mark.
theorem frontmatter_split (article : MarkdownPage) :
    ∃ front, unlines (frontmatterLines context page attributes links) = front ++ ['\n'] ∧
      composePage context page attributes links article = frontmatterStart ++
        (front ++ (frontmatterEnd ++ '\n' :: contentOf context page article)) := by
  have some_ : frontmatterLines context page attributes links ≠ [] := List.cons_ne_nil _ _
  obtain ⟨front, split⟩ := unlines_concat some_
  refine ⟨front, split, ?_⟩
  rw [composePage_split, split, List.append_assoc]
  rfl

variable {context page attributes links}

theorem dropFrontmatter_page
    (whole : ¬ frontmatterEnd <:+: unlines (frontmatterLines context page attributes links)) :
    dropFrontmatter (composePage context page attributes links article) =
      '\n' :: contentOf context page article := by
  obtain ⟨front, lines, split⟩ := frontmatter_split context page attributes links article
  rw [lines] at whole
  rw [dropFrontmatter, (stripPrefix_eq_some _ _ _).mpr split, Option.bind_some,
    splitOnce_frontmatter whole]
  rfl

theorem articleText_trimmed (article : MarkdownPage) :
    trim (articleText article) = articleText article := by
  simp only [articleText]
  split
  · exact trim_trim _
  · exact trim_trim _
  · rfl

theorem trim_eq_nil {text : Text} (blank : trim text = []) : ∀ c ∈ text, isWhitespace c = true := by
  intro c member
  by_contra shown
  have count := countP_trim text
  rw [blank, List.countP_nil] at count
  exact List.countP_eq_zero.mp count.symm c member (by simpa [isVisible] using shown)

theorem dropWhile_blank {blank : Text} (all : ∀ c ∈ blank, isWhitespace c = true) (rest : Text) :
    (blank ++ rest).dropWhile isWhitespace = rest.dropWhile isWhitespace := by
  rw [← dropWhile_dropWhile_append, List.dropWhile_eq_nil_iff.mpr all, List.nil_append]

-- Before its title is dropped the content is what comes after the title, or the article itself.
theorem dropTitle_added (blank : trim (belowName page) = []) (rest : Text) :
    dropTitle (('\n' :: (['#', ' '] ++ page.name ++ ['\n', '\n'] ++ rest)).dropWhile isWhitespace) =
      rest.dropWhile isWhitespace := by
  have newline : isWhitespace '\n' = true := by decide
  have mark : isWhitespace '#' = false := by decide
  have shown : ('\n' :: (['#', ' '] ++ page.name ++ ['\n', '\n'] ++ rest)).dropWhile isWhitespace =
      '#' :: ' ' :: (page.name ++ '\n' :: '\n' :: rest) := by
    simp [newline, mark]
  have starts : stripPrefix ['#', ' '] ('#' :: ' ' :: (page.name ++ '\n' :: '\n' :: rest)) =
      some (page.name ++ '\n' :: '\n' :: rest) := by
    rw [stripPrefix_eq_some]
    rfl
  rw [shown, dropTitle, starts]
  cases cut : splitOnce ['\n'] page.name with
  | none =>
      have free : '\n' ∉ '#' :: ' ' :: page.name := by
        intro member
        simp only [List.mem_cons] at member
        obtain ⟨before, after, split⟩ := List.append_of_mem
          ((member.resolve_left (by decide)).resolve_left (by decide))
        exact (splitOnce_eq_none _ _).mp cut ⟨before, after, by simp [split]⟩
      have found := splitOnce_newline free ('\n' :: rest)
      simp only [List.cons_append] at found
      rw [found]
      simp [newline]
  | some parts =>
      obtain ⟨first, below⟩ := parts
      have free : '\n' ∉ '#' :: ' ' :: first := by
        simpa using splitOnce_newline_free cut
      have whole : '#' :: ' ' :: (page.name ++ '\n' :: '\n' :: rest) =
          '#' :: ' ' :: first ++ '\n' :: (below ++ '\n' :: '\n' :: rest) := by
        simp [splitOnce_eq_some cut]
      rw [belowName, cut, Option.map_some, Option.getD_some] at blank
      rw [whole, splitOnce_newline free]
      simp only
      rw [dropWhile_blank (trim_eq_nil blank)]
      simp [newline]

theorem dropTitle_own {body : Text} (trimmed : trim body = body) (some_ : body ≠ []) (rest : Text) :
    dropTitle (('\n' :: (body ++ '\n' :: rest)).dropWhile isWhitespace) =
      (articleText ⟨body, true⟩ ++ '\n' :: rest).dropWhile isWhitespace := by
  obtain ⟨c, more, rfl⟩ := List.exists_cons_of_ne_nil some_
  have shown := trimmed_starts trimmed
  have newline : isWhitespace '\n' = true := by decide
  have start : ('\n' :: (c :: more ++ '\n' :: rest)).dropWhile isWhitespace =
      c :: more ++ '\n' :: rest := by
    simp [newline, shown]
  rw [start, dropTitle]
  simp only [articleText, trimmed]
  cases titled : stripPrefix ['#', ' '] (c :: more) with
  | none =>
      have untitled : stripPrefix ['#', ' '] (c :: more ++ '\n' :: rest) = none := by
        by_contra found
        obtain ⟨after, found⟩ := Option.ne_none_iff_exists'.mp found
        rw [stripPrefix_eq_some] at found
        cases more with
        | nil => simp at found
        | cons d others =>
            have starts : stripPrefix ['#', ' '] (c :: d :: others) = some others := by
              rw [stripPrefix_eq_some]
              simp only [List.cons_append, List.cons.injEq] at found
              simp [found.1, found.2.1]
            rw [starts] at titled
            cases titled
      rw [untitled]
      simp [shown]
  | some after =>
      have still : stripPrefix ['#', ' '] (c :: more ++ '\n' :: rest) = some (after ++ '\n' :: rest) := by
        rw [stripPrefix_eq_some] at titled ⊢
        rw [titled]
        simp
      rw [still]
      cases cut : splitOnce ['\n'] (c :: more) with
      | none =>
          have free : '\n' ∉ c :: more := by
            intro member
            obtain ⟨front, back, split⟩ := List.append_of_mem member
            exact (splitOnce_eq_none _ _).mp cut ⟨front, back, by simp [split]⟩
          rw [splitOnce_newline free]
          simp [newline]
      | some parts =>
          obtain ⟨first, below⟩ := parts
          have split := splitOnce_eq_some cut
          have whole : c :: more ++ '\n' :: rest = first ++ '\n' :: (below ++ '\n' :: rest) := by
            simp [split]
          have behind : below <:+ c :: more := ⟨first ++ ['\n'], split.symm⟩
          rw [whole, splitOnce_newline (splitOnce_newline_free cut)]
          simp only [trim_suffix trimmed behind, dropWhile_dropWhile_append]

theorem opensWithHeading_nil : opensWithHeading [] = false := by decide

theorem articleText_untitled {body : Text} (untitled : opensWithHeading body = false)
    (trimmed : trim body = body) (hasTitle : Bool) : articleText ⟨body, hasTitle⟩ = body := by
  simp only [articleText, trimmed]
  cases titled : stripPrefix ['#', ' '] body with
  | none => rfl
  | some after =>
      rw [(stripPrefix_eq_some _ _ _).mp titled] at untitled
      exact absurd (opensWithHeading_title after) (by simpa using untitled)

def recovered (text below : Text) : Text :=
  trim (cutHistory ((text ++ '\n' :: '\n' :: below).dropWhile isWhitespace))

theorem extractBody_page (parser : PageParser) (raw : Text)
    (ends : HeaderEnds context page attributes links (.parse parser raw)) :
    extractBody (composePage context page attributes links (.parse parser raw)) =
      recovered (articleText (.parse parser raw)) (relatedSection context page) := by
  have trimmed := trim_clean parser raw
  rw [extractBody, dropFrontmatter_page ends.frontmatter, recovered, cutHistory]
  have dropped : dropTitle (('\n' :: contentOf context page (.parse parser raw)).dropWhile isWhitespace) =
      (articleText (.parse parser raw) ++ '\n' :: '\n' :: relatedSection context page).dropWhile
        isWhitespace := by
    cases titled : opensWithHeading (clean parser raw) with
    | false =>
        have blank : trim (belowName page) = [] := ends.title.resolve_left (by
          simp [MarkdownPage.parse, titled])
        have added := dropTitle_added blank
          (clean parser raw ++ '\n' :: '\n' :: relatedSection context page)
        simp only [MarkdownPage.parse, contentOf, titled, trimmed,
          articleText_untitled titled trimmed]
        simpa using added
    | true =>
        have some_ : clean parser raw ≠ [] := by
          intro nothing
          rw [nothing, opensWithHeading_nil] at titled
          cases titled
        have own := dropTitle_own trimmed some_ ('\n' :: relatedSection context page)
        simp only [MarkdownPage.parse, contentOf, titled, trimmed, if_true]
        simpa using own
  rw [dropped]

end Extraction

section Recovered

theorem history_infix_newline {text : Text} (inside : history <:+: text ++ ['\n']) :
    history <:+: text := by
  rw [List.infix_concat_iff] at inside
  cases inside with
  | inl ends =>
      have last : history.getLast? = some 'y' := by decide
      rcases List.suffix_concat_iff.mp ends with nothing | ⟨front, same, -⟩
      · rw [nothing] at last
        cases last
      · rw [same, List.getLast?_concat] at last
        exact absurd last (by decide)
  | inr within => exact within

theorem section_before_history {below rest tail after : Text}
    (starts : below = relatedHeading ++ rest)
    (split : '\n' :: '\n' :: below = tail ++ (history ++ after)) : '#' ∈ tail := by
  subst starts
  cases tail with
  | nil =>
      have : some '\n' = some '#' := congrArg (fun text : Text => text[1]?) split
      exact absurd this (by decide)
  | cons first tail =>
      cases tail with
      | nil =>
          have : some 'R' = some 'H' := congrArg (fun text : Text => text[5]?) split
          exact absurd this (by decide)
      | cons second tail =>
          have third := (List.cons.inj (List.cons.inj split).2).2
          cases tail with
          | nil =>
              have : some '#' = some '\n' := congrArg (fun text : Text => text[0]?) third
              exact absurd this (by decide)
          | cons c tail =>
              have : some '#' = some c := congrArg (fun text : Text => text[0]?) third
              rw [Option.some.inj this]
              exact .tail _ (.tail _ (.head _))

variable {text : Text} (trimmed : trim text = text)

include trimmed

theorem recovered_nil :
    recovered text [] = text ∧ ¬ history <:+: text ∨
      (recovered text []).length < text.length ∧ history <:+: text := by
  cases text with
  | nil =>
      have absent : ¬ history <:+: [] := fun inside => absurd (List.infix_nil.mp inside) (by decide)
      exact .inl ⟨by decide, absent⟩
  | cons c more =>
      have start : (c :: more ++ ['\n', '\n']).dropWhile isWhitespace = c :: more ++ ['\n', '\n'] := by
        simp [trimmed_starts trimmed]
      rw [recovered, start, cutHistory]
      cases cut : splitOnce history (c :: more ++ ['\n', '\n']) with
      | none =>
          left
          have absent := (splitOnce_eq_none _ _).mp cut
          have blank : isWhitespace '\n' = true := by decide
          have kept := trim_padded [] ['\n', '\n'] trimmed nofun
            (List.forall_mem_cons.mpr ⟨blank, List.forall_mem_singleton.mpr blank⟩)
          exact ⟨by simpa using kept, fun inside => absent (inside.trans (List.infix_append' [] _ _))⟩
      | some parts =>
          right
          obtain ⟨before, after⟩ := parts
          have split := splitOnce_eq_some cut
          constructor
          · have length := congrArg List.length split
            have least := length_trim_le before
            have eleven : history.length = 11 := by decide
            simp only [List.length_append, List.length_cons, List.length_nil, eleven] at length
            simp only [Option.map_some, Option.getD_some, List.length_cons]
            omega
          · apply history_infix_newline
            apply history_infix_newline
            exact ⟨before, after, by rw [← split]; simp⟩

theorem recovered_section {below rest : Text} (starts : below = relatedHeading ++ rest) :
    recovered text below ≠ text := by
  have hash : below = '#' :: (relatedHeading.tail ++ rest) := starts
  have shown : isVisible '#' = true := by decide
  intro same
  cases text with
  | nil =>
      have start : ('\n' :: '\n' :: below).dropWhile isWhitespace = below := by
        have first : isWhitespace '\n' = true := by decide
        have second : isWhitespace '#' = false := by decide
        simp [first, second, hash]
      rw [recovered, List.nil_append, start, cutHistory] at same
      cases cut : splitOnce history below with
      | none =>
          rw [cut] at same
          exact trim_ne_nil (c := '#') (by simp [hash]) shown same
      | some parts =>
          obtain ⟨before, after⟩ := parts
          have split := splitOnce_eq_some cut
          rw [cut, Option.map_some, Option.getD_some] at same
          cases before with
          | nil =>
              rw [hash] at split
              exact absurd (List.cons.inj split).1 (by decide)
          | cons c others =>
              rw [hash] at split
              have first := (List.cons.inj split).1
              exact trim_ne_nil (c := '#') (by rw [first]; exact .head _) shown same
  | cons c more =>
      have start : (c :: more ++ '\n' :: '\n' :: below).dropWhile isWhitespace =
          c :: more ++ '\n' :: '\n' :: below := by
        simp [trimmed_starts trimmed]
      rw [recovered, start, cutHistory] at same
      -- Something visible is left after the text.
      have more_visible (tail : Text) (member : '#' ∈ tail) : trim (c :: more ++ tail) ≠ c :: more := by
        intro same
        have count := countP_trim (c :: more ++ tail)
        rw [same, List.countP_append] at count
        have := List.countP_pos_iff.mpr ⟨'#', member, shown⟩
        omega
      cases cut : splitOnce history (c :: more ++ '\n' :: '\n' :: below) with
      | none =>
          rw [cut] at same
          exact more_visible _ (by simp [hash]) same
      | some parts =>
          obtain ⟨before, after⟩ := parts
          rw [cut, Option.map_some, Option.getD_some] at same
          have split := splitOnce_eq_some cut
          have long : (c :: more).length ≤ before.length := by
            have := length_trim_le before
            rw [same] at this
            exact this
          have within : before <+: c :: more ++ '\n' :: '\n' :: below :=
            ⟨history ++ after, by rw [split, List.append_assoc]⟩
          obtain ⟨tail, rfl⟩ :=
            List.prefix_of_prefix_length_le (List.prefix_append _ _) within long
          rw [List.append_assoc, List.append_assoc, List.append_cancel_left_eq] at split
          exact more_visible tail (section_before_history starts split) same

end Recovered

section Uid

variable {context : PageContext} {page : Consolidate.KnowledgeEntity} {attributes : Json}
  {links : List KnowledgeEntityLink}

theorem dropReturn_visible {line : Text} {last : Char} (shown : isWhitespace last = false) :
    dropReturn (line ++ [last]) = line ++ [last] := by
  unfold dropReturn
  rw [List.reverse_append]
  split
  next same =>
    obtain ⟨rfl, -⟩ := List.cons.inj same
    exact absurd shown (by decide)
  next => rfl

theorem uidLine_trimmed {line value : Text} (found : uidLine line = some value) :
    value ≠ [] ∧ trim value = value := by
  obtain ⟨rest, -, kept⟩ := Option.bind_eq_some_iff.mp found
  unfold nonEmpty at kept
  split at kept
  next => cases kept
  next some_ =>
    obtain rfl := Option.some.inj kept
    exact ⟨some_, trim_trim rest⟩

theorem uidLine_subset {line value : Text} (found : uidLine line = some value) : value ⊆ line := by
  obtain ⟨rest, stripped, kept⟩ := Option.bind_eq_some_iff.mp found
  have behind : rest ⊆ line := by
    rw [(stripPrefix_eq_some _ _ _).mp stripped]
    exact List.subset_append_right _ _
  unfold nonEmpty at kept
  split at kept
  next => cases kept
  next =>
    rw [← Option.some.inj kept]
    refine List.Subset.trans ?_ behind
    intro c member
    have inner := (List.dropWhile_suffix isWhitespace).subset (List.mem_reverse.mp member)
    exact (List.dropWhile_suffix isWhitespace).subset (List.mem_reverse.mp inner)

theorem uidLine_own {id : Text} (some_ : id ≠ []) (trimmed : trim id = id) :
    uidLine ("uid: ".toList ++ id) = some id := by
  have stripped : stripPrefix "uid:".toList ("uid: ".toList ++ id) = some (' ' :: id) := by
    rw [stripPrefix_eq_some]
    rfl
  have blank : isWhitespace ' ' = true := by decide
  have inner := trim_padded [' '] [] trimmed (List.forall_mem_singleton.mpr blank) nofun
  rw [List.append_nil, List.singleton_append] at inner
  rw [uidLine, stripped, Option.bind_some, inner, nonEmpty, if_neg some_]

theorem header_lines {front after : Text} {id : Text} (free : '\n' ∉ "uid: ".toList ++ id)
    (some_ : id ≠ []) (trimmed : trim id = id) (mark more : Text)
    (cut : splitOnce ('\n' :: mark) ("uid: ".toList ++ id ++ '\n' :: more) = some (front, after)) :
    (lines front).findSome? uidLine = some id := by
  rw [splitOnce_line mark free] at cut
  obtain ⟨⟨between, _⟩, found, same⟩ := Option.map_eq_some_iff.mp cut
  obtain ⟨init, last, split⟩ := (List.eq_nil_or_concat id).resolve_left some_
  rw [List.concat_eq_append] at split
  have kept : dropReturn ("uid: ".toList ++ id) = "uid: ".toList ++ id := by
    rw [split] at trimmed ⊢
    rw [← List.append_assoc]
    exact dropReturn_visible (trimmed_stops trimmed)
  obtain rfl : "uid: ".toList ++ id ++ between = front := (Prod.mk.inj same).1
  cases between with
  | nil =>
      rw [List.append_nil, lines_line free, if_neg (by simp), List.findSome?_cons,
        uidLine_own some_ trimmed]
  | cons c others =>
      have newline := (List.cons.inj (splitOnce_eq_some found)).1
      rw [← newline, lines_cons free, kept, List.findSome?_cons, uidLine_own some_ trimmed]

theorem header_split (context : PageContext) (page : Consolidate.KnowledgeEntity)
    (attributes : Json) (links : List KnowledgeEntityLink) (article : MarkdownPage) :
    ∃ below front after,
      stripPrefix "---\n".toList (composePage context page attributes links article) =
          some ("uid: ".toList ++ page.id ++ '\n' :: below) ∧
        splitOnce "\n---".toList ("uid: ".toList ++ page.id ++ '\n' :: below) =
          some (front, after) := by
  have lead : unlines (frontmatterLines context page attributes links) ++
      (frontmatterStart ++ '\n' :: contentOf context page article) =
        "uid: ".toList ++ page.id ++ '\n' ::
          (unlines (frontmatterLines context page attributes links).tail ++
            (frontmatterStart ++ '\n' :: contentOf context page article)) := by
    simp only [unlines, frontmatterLines, List.cons_append, List.flatMap_cons, List.tail_cons,
      List.append_assoc, List.nil_append]
  obtain ⟨front, lines, -⟩ := frontmatter_split context page attributes links article
  have inside : "\n---".toList <:+: unlines (frontmatterLines context page attributes links) ++
      (frontmatterStart ++ '\n' :: contentOf context page article) := by
    rw [lines]
    exact ⟨front, '\n' :: '\n' :: contentOf context page article, by simp [frontmatterStart]⟩
  have stripped := (stripPrefix_eq_some "---\n".toList _ _).mpr
    (composePage_split context page attributes links article)
  rw [lead] at stripped inside
  cases found : splitOnce "\n---".toList ("uid: ".toList ++ page.id ++ '\n' ::
      (unlines (frontmatterLines context page attributes links).tail ++
        (frontmatterStart ++ '\n' :: contentOf context page article))) with
  | none => exact absurd inside ((splitOnce_eq_none _ _).mp found)
  | some parts => exact ⟨_, parts.1, parts.2, stripped, found⟩

theorem dropReturn_begins (line : Text) : dropReturn line <+: line := by
  unfold dropReturn
  split
  next back same =>
    have whole := congrArg List.reverse same
    rw [List.reverse_reverse, List.reverse_cons] at whole
    exact ⟨_, whole.symm⟩
  next => exact List.prefix_rfl

theorem lines_free {text line : Text} (member : line ∈ lines text) : '\n' ∉ line := by
  induction size : text.length using Nat.strong_induction_on generalizing text with
  | _ n ih =>
    subst size
    cases cut : splitOnce ['\n'] text with
    | none =>
        have free : '\n' ∉ text := by
          intro newline
          obtain ⟨before, after, split⟩ := List.append_of_mem newline
          exact (splitOnce_eq_none _ _).mp cut ⟨before, after, by simp [split]⟩
        rw [lines_line free] at member
        split at member
        next => cases member
        next => rwa [List.mem_singleton.mp member]
    | some parts =>
        obtain ⟨first, rest⟩ := parts
        have free := splitOnce_newline_free cut
        have split := splitOnce_eq_some cut
        rw [List.append_assoc, List.singleton_append] at split
        rw [split, lines_cons free, List.mem_cons] at member
        cases member with
        | inl here => exact here ▸ fun newline => free ((dropReturn_begins first).subset newline)
        | inr later => exact ih rest.length (by simp [split]; omega) later rfl

theorem parseUid_page (article : MarkdownPage) :
    parseUid (composePage context page attributes links article) = some page.id ↔
      page.id ≠ [] ∧ trim page.id = page.id ∧ '\n' ∉ page.id := by
  constructor
  · intro found
    simp only [parseUid, Option.bind_eq_bind, Option.bind_eq_some_iff] at found
    obtain ⟨_, -, _, -, head, -, found⟩ := found
    obtain ⟨line, member, read⟩ := List.exists_of_findSome?_eq_some found
    obtain ⟨some_, trimmed⟩ := uidLine_trimmed read
    exact ⟨some_, trimmed, fun newline => lines_free member (uidLine_subset read newline)⟩
  · rintro ⟨some_, trimmed, single⟩
    obtain ⟨below, front, after, stripped, cut⟩ :=
      header_split context page attributes links article
    have line : '\n' ∉ "uid: ".toList ++ page.id := by
      rw [List.mem_append, not_or]
      exact ⟨by decide, single⟩
    simp only [parseUid, stripped, find_eq_splitOnce, cut, Option.map_some, Option.bind_eq_bind,
      Option.bind_some, slice_splitOnce cut]
    have mark : "\n---".toList = '\n' :: "---".toList := by decide
    rw [mark] at cut
    exact header_lines line some_ trimmed _ below cut

end Uid

section RoundTrip

variable {context : PageContext} {page : Consolidate.KnowledgeEntity} {attributes : Json}
  {links : List KnowledgeEntityLink}

theorem articleText_length {body : Text} (trimmed : trim body = body) (hasTitle : Bool) :
    (articleText ⟨body, hasTitle⟩).length ≤ body.length ∧
      (['#', ' '] <+: body → (articleText ⟨body, hasTitle⟩).length < body.length) := by
  simp only [articleText, trimmed]
  cases titled : stripPrefix ['#', ' '] body with
  | none =>
      refine ⟨le_refl _, fun starts => ?_⟩
      obtain ⟨rest, same⟩ := starts
      rw [(stripPrefix_eq_some _ _ rest).mpr same.symm] at titled
      cases titled
  | some after =>
      have size := congrArg List.length ((stripPrefix_eq_some _ _ _).mp titled)
      cases cut : splitOnce ['\n'] body with
      | none =>
          simp at size ⊢
          omega
      | some parts =>
          obtain ⟨front, rest⟩ := parts
          have split := congrArg List.length (splitOnce_eq_some cut)
          have least := length_trim_le rest
          simp only [List.length_append, List.length_cons, List.length_nil] at split
          exact ⟨by simp only; omega, fun _ => by simp only; omega⟩

theorem articleText_plain {body : Text} (trimmed : trim body = body) (hasTitle : Bool)
    (untitled : ¬ ['#', ' '] <+: body) : articleText ⟨body, hasTitle⟩ = body := by
  simp only [articleText, trimmed]
  cases titled : stripPrefix ['#', ' '] body with
  | none => rfl
  | some after => exact absurd ⟨after, ((stripPrefix_eq_some _ _ _).mp titled).symm⟩ untitled

theorem recovered_again {parser : PageParser} (marks : parser.Marks) {text : Text} (trimmed : trim text = text)
    (noHistory : ¬ history <:+: text) :
    recovered (articleText (.parse parser text)) [] = text ↔
      ¬ ['#', ' '] <+: text ∧ clean parser text = text := by
  have cleaned := trim_clean parser text
  constructor
  · intro same
    have length : text.length ≤ (articleText (.parse parser text)).length := by
      rcases recovered_nil (articleText_trimmed (.parse parser text)) with whole | shorter
      · exact le_of_eq (congrArg List.length (same.symm.trans whole.1))
      · have := shorter.1.le
        rwa [same] at this
    have least := articleText_length cleaned (opensWithHeading (clean parser text))
    have kept : clean parser text = text := by
      rcases clean_shorter marks text with kept | shorter
      · rw [kept, trimmed]
      · rw [trimmed] at shorter
        have := length.trans least.1
        omega
    refine ⟨fun titled => ?_, kept⟩
    have := least.2 (by rwa [kept])
    rw [kept] at this
    simp only [MarkdownPage.parse, kept] at length
    omega
  · rintro ⟨untitled, kept⟩
    have plain := articleText_plain trimmed (opensWithHeading text) untitled
    simp only [MarkdownPage.parse, kept, plain]
    rcases recovered_nil trimmed with whole | shorter
    · exact whole.1
    · exact absurd shorter.2 noHistory

/-- A page gives back its article exactly when nothing is appended to it and none of it looks like
what is taken away. -/
theorem roundTrips_iff {parser : PageParser} (marks : parser.Marks) (raw : Text)
    (ends : HeaderEnds context page attributes links (.parse parser raw))
    (endsAgain : HeaderEnds context page attributes links
      (.parse parser (articleText (.parse parser raw)))) :
    RoundTrips parser context page attributes links raw ↔ Plain parser page raw := by
  have trimmed := articleText_trimmed (.parse parser raw)
  have first := extractBody_page parser raw ends
  have again := extractBody_page parser _ endsAgain
  constructor
  · intro trips
    have body := trips.body
    rw [first] at body
    have unrelated : page.relatedPlaybooks = [] := by
      by_contra related
      have starts : relatedSection context page = relatedHeading ++
          (unlines (page.relatedPlaybooks.map fun path =>
            "- [[".toList ++ context.vault.vaultPath path ++ "]]".toList) ++ ['\n']) := by
        rw [relatedSection, if_neg related, List.append_assoc]
      exact recovered_section trimmed starts body
    have nothing : relatedSection context page = [] := by rw [relatedSection, if_pos unrelated]
    rw [nothing] at body
    have noHistory : ¬ history <:+: articleText (.parse parser raw) := by
      rcases recovered_nil trimmed with whole | shorter
      · exact whole.2
      · rw [body] at shorter
        exact absurd shorter.1 (lt_irrefl _)
    have second := trips.again
    simp only [first, nothing, body, again] at second
    have plain := (recovered_again marks trimmed noHistory).mp second
    exact ⟨unrelated, noHistory, plain.1, plain.2, (parseUid_page _).mp trips.uid⟩
  · intro plain
    have nothing : relatedSection context page = [] := by rw [relatedSection, if_pos plain.unrelated]
    have body : recovered (articleText (.parse parser raw)) [] = articleText (.parse parser raw) := by
      rcases recovered_nil trimmed with whole | shorter
      · exact whole.1
      · exact absurd shorter.2 plain.noHistory
    constructor
    · rw [first, nothing, body]
    · simp only [first, nothing, body, again]
      exact (recovered_again marks trimmed plain.noHistory).mpr ⟨plain.noTitle, plain.unfenced⟩
    · exact (parseUid_page _).mpr plain.uid

end RoundTrip

section Postgres

-- What the parser says of a document that is one paragraph.
def paragraphs : PageParser := fun document => [(.other, 0), (.text document, 0), (.other, 0)]

theorem paragraphs_marks : paragraphs.Marks where
  fence := by simp [paragraphs]
  metadata := by simp [paragraphs]

theorem memory_validated : validateDirectory "Memory".toList = .ok "Memory".toList := by decide

def memoryPages : PageContext where
  vault := ⟨"Memory".toList, [], memory_validated⟩
  displayJoined _ := "frona:Service".toList
  updated := "2024-05-01T00:00:00+00:00".toList

def postgres (relatedPlaybooks : List Text) : Consolidate.KnowledgeEntity where
  id := "page:1".toList
  userId := ['u']
  path := "services/postgres".toList
  category := .concept
  name := "Postgres".toList
  sourceMemoryIds := []
  relatedPlaybooks
  updatedAt := 0

theorem postgres_headerEnds {article : MarkdownPage} (relatedPlaybooks : List Text)
    (whole : ¬ frontmatterEnd <:+:
      unlines (frontmatterLines memoryPages (postgres relatedPlaybooks) (.object []) [])) :
    HeaderEnds memoryPages (postgres relatedPlaybooks) (.object []) [] article where
  frontmatter := whole
  title := .inr (show trim (belowName (postgres [])) = [] by decide)

theorem roundTrips_postgres :
    RoundTrips paragraphs memoryPages (postgres []) (.object []) [] "The database.".toList ↔
      Plain paragraphs (postgres []) "The database.".toList := by
  have whole : ¬ frontmatterEnd <:+:
      unlines (frontmatterLines memoryPages (postgres []) (.object []) []) := by
    unfold memoryPages postgres frontmatterLines
    repeat rw [String.toList_ofList]
    decide +kernel
  exact roundTrips_iff paragraphs_marks _ (postgres_headerEnds [] whole) (postgres_headerEnds [] whole)

theorem playbooks_appended :
    ¬ RoundTrips paragraphs memoryPages (postgres ["playbooks/backup".toList]) (.object []) []
      "The database.".toList := by
  intro trips
  have whole : ¬ frontmatterEnd <:+: unlines
      (frontmatterLines memoryPages (postgres ["playbooks/backup".toList]) (.object []) []) := by
    unfold memoryPages postgres frontmatterLines
    repeat rw [String.toList_ofList]
    decide +kernel
  have body := trips.body
  rw [extractBody_page paragraphs _ (postgres_headerEnds _ whole)] at body
  revert body
  unfold relatedSection relatedHeading postgres memoryPages
  repeat rw [String.toList_ofList]
  decide

end Postgres

end Frona.Pkm
