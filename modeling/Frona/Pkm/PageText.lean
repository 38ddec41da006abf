import Frona.Pkm.PathSpec
import Frona.Consolidate.WorkItem
import Frona.Pkm.Recovery

set_option autoImplicit false

namespace Frona.Pkm

open Utf8 (Text stripPrefix)
open Frona.Text (isWhitespace trim trim_unmarked trim_solid countP_trim isVisible)
open Frona.Chat (Json)
open Frona.Consolidate (attributeFields sortedSet)

section Articles

-- What the parser says of a document; `other` is every event that `clean` passes by.
inductive PageEvent where
  | fencedCode | codeEnd | text (t : Text) | metadata | metadataEnd | other
  deriving DecidableEq

-- Each event has the offset that its range ends at.
abbrev PageParser : Type := Text → List (PageEvent × Nat)

def fenceText (inner : Text) : List (PageEvent × Nat) → Option Text
  | [] => none
  | (.text t, _) :: rest => fenceText (inner ++ t) rest
  | (.codeEnd, _) :: rest => if rest = [] then some (trim inner) else none
  | _ :: rest => fenceText inner rest

-- A slice at an offset that is not between characters fails.
def belowMetadata (document : Text) (events : List (PageEvent × Nat)) : Option Text := do
  let last ← events.find? fun event => event.1 = .metadataEnd
  let below ← Utf8.sliceFrom document last.2
  return below.dropWhile isWhitespace

def clean (parser : PageParser) (raw : Text) : Text :=
  let trimmed := trim raw
  match parser trimmed with
  | (.fencedCode, _) :: rest => (fenceText [] rest).getD trimmed
  | (.metadata, _) :: rest => (belowMetadata trimmed rest).getD trimmed
  | _ => trimmed

/-- A fence has marks of its own, and a range ends between two characters, after the first. -/
structure PageParser.Marks (parser : PageParser) : Prop where
  fence : ∀ document stop rest inner, parser document = (.fencedCode, stop) :: rest →
    fenceText [] rest = some inner → inner.length < document.length
  metadata : ∀ document stop rest last, parser document = (.metadata, stop) :: rest →
    last ∈ rest → last.1 = .metadataEnd →
      ∃ front below, document = front ++ below ∧ front ≠ [] ∧ Utf8.byteLength front = last.2

structure MarkdownPage where
  body : Text
  hasTitle : Bool

def isHeading (line : Text) : Bool :=
  let line := line.dropWhile isWhitespace
  let hashes := (line.takeWhile (· = '#')).length
  decide (1 ≤ hashes ∧ hashes ≤ 6) && (line.drop hashes).head?.any isWhitespace

def opensWithHeading (body : Text) : Bool :=
  ((lines body).find? fun line => trim line ≠ []).any isHeading

def MarkdownPage.parse (parser : PageParser) (raw : Text) : MarkdownPage :=
  ⟨clean parser raw, opensWithHeading (clean parser raw)⟩

end Articles

section Composition

-- `displayJoined` is how the prefixes show the kinds of an entity, and `updated` is the time.
structure PageContext where
  vault : VaultScope
  displayJoined : List Text → Text
  updated : Text

def yamlKey (key : Text) : Text := if ':' ∈ key then '"' :: key ++ ['"'] else key

def categoryName : Consolidate.EntityCategory → Text
  | .concept => "concept".toList
  | .playbook => "playbook".toList

def decimal (n : Int) : Text :=
  (if n < 0 then ['-'] else []) ++ Nat.toDigits 10 n.natAbs

variable (context : PageContext) (page : Consolidate.KnowledgeEntity) (attributes : Json)
  (links : List KnowledgeEntityLink)

def wikilinkLine (path : Text) : Text :=
  "  - \"[[".toList ++ context.vault.vaultPath path ++ "]]\"".toList

def attributeLines : List Text :=
  match attributeFields attributes with
  | [] => []
  | fields =>
      "attributes:".toList ::
        (fields.mergeSort fun a b => decide (a.1 ≤ b.1)).map fun (key, value) =>
          "  ".toList ++ yamlKey key ++ ": ".toList ++ value.render

def linkLines : List Text :=
  (sortedSet (links.map KnowledgeEntityLink.relation)).flatMap fun relation =>
    (yamlKey relation ++ [':']) ::
      (links.filter fun link => link.relation = relation).map fun link =>
        wikilinkLine context link.toEntityPath

def frontmatterLines : List Text :=
  ["uid: ".toList ++ page.id,
    "type: [".toList ++ context.displayJoined page.kinds ++ [']'],
    "title: ".toList ++ page.name,
    "description: ".toList ++ page.description.map fun c => if c = '\n' then ' ' else c,
    "path: ".toList ++ page.path,
    "category: ".toList ++ categoryName page.category,
    "use_count: ".toList ++ decimal page.useCount,
    "updated: ".toList ++ context.updated] ++
  (if page.relatedPlaybooks = [] then [] else
    "related_playbooks:".toList :: page.relatedPlaybooks.map (wikilinkLine context)) ++
  attributeLines attributes ++ linkLines context links

def unlines (lines : List Text) : Text := lines.flatMap fun line => line ++ ['\n']

def relatedHeading : Text := "## Related Playbooks\n\n".toList

def relatedSection : Text :=
  if page.relatedPlaybooks = [] then [] else
    relatedHeading ++ unlines (page.relatedPlaybooks.map fun path =>
      "- [[".toList ++ context.vault.vaultPath path ++ "]]".toList) ++ ['\n']

def composePage (article : MarkdownPage) : Text :=
  frontmatterStart ++ unlines (frontmatterLines context page attributes links) ++
    "---\n\n".toList ++
    (if article.hasTitle then [] else ['#', ' '] ++ page.name ++ ['\n', '\n']) ++
    trim article.body ++ ['\n', '\n'] ++ relatedSection context page

end Composition

section Statements

def articleText (article : MarkdownPage) : Text :=
  let body := trim article.body
  match stripPrefix ['#', ' '] body, splitOnce ['\n'] body with
  | none, _ => body
  | some _, some (_, rest) => trim rest
  | some _, none => []

variable (parser : PageParser) (context : PageContext) (page : Consolidate.KnowledgeEntity)
  (attributes : Json) (links : List KnowledgeEntityLink) (raw : Text)

/-- The page of an article gives back its text, once and again, and the id of the entity. -/
structure RoundTrips : Prop where
  body : extractBody (composePage context page attributes links (.parse parser raw)) =
    articleText (.parse parser raw)
  again :
    let extracted := extractBody (composePage context page attributes links (.parse parser raw))
    extractBody (composePage context page attributes links (.parse parser extracted)) = extracted
  uid : parseUid (composePage context page attributes links (.parse parser raw)) = some page.id

def belowName : Text := ((splitOnce ['\n'] page.name).map Prod.snd).getD []

/-- The frontmatter ends where its last line does, and the title where its line does. -/
structure HeaderEnds (article : MarkdownPage) : Prop where
  frontmatter : ¬ frontmatterEnd <:+: unlines (frontmatterLines context page attributes links)
  title : article.hasTitle = true ∨ trim (belowName page) = []

/-- Nothing is appended to the article, and no part of it looks like the history, a second title, or
a fence or frontmatter around the rest. -/
structure Plain : Prop where
  unrelated : page.relatedPlaybooks = []
  noHistory : ¬ history <:+: articleText (.parse parser raw)
  noTitle : ¬ ['#', ' '] <+: articleText (.parse parser raw)
  unfenced : clean parser (articleText (.parse parser raw)) = articleText (.parse parser raw)
  uid : page.id ≠ [] ∧ trim page.id = page.id ∧ '\n' ∉ page.id

end Statements

section Splitting

theorem splitOnce_eq_some {pattern text before after : Text}
    (found : splitOnce pattern text = some (before, after)) : text = before ++ pattern ++ after := by
  induction text generalizing before with
  | nil =>
      rw [splitOnce] at found
      split at found
      next nothing =>
        simp only [Option.some.injEq, Prod.mk.injEq] at found
        simp [← found.1, ← found.2, nothing]
      next => cases found
  | cons c rest ih =>
      rw [splitOnce] at found
      split at found
      next starts =>
        simp only [Option.some.injEq, Prod.mk.injEq] at found
        obtain ⟨tail, same⟩ := List.isPrefixOf_iff_prefix.mp starts
        rw [← found.1, ← found.2, ← same]
        simp
      next =>
        obtain ⟨parts, deeper, same⟩ := Option.map_eq_some_iff.mp found
        simp only [Prod.mk.injEq] at same
        have inner : splitOnce pattern rest = some (parts.1, after) := by rw [deeper, ← same.2]
        rw [ih inner, ← same.1]
        simp

theorem splitOnce_eq_none (pattern text : Text) :
    splitOnce pattern text = none ↔ ¬ pattern <:+: text := by
  induction text with
  | nil => simp [splitOnce]
  | cons c rest ih =>
      rw [splitOnce, List.infix_cons_iff, ← List.isPrefixOf_iff_prefix]
      by_cases starts : pattern.isPrefixOf (c :: rest)
      · simp [starts]
      · simp [starts, ih]

theorem splitOnce_line (pattern : Text) {line : Text} (free : '\n' ∉ line) (text : Text) :
    splitOnce ('\n' :: pattern) (line ++ text) =
      (splitOnce ('\n' :: pattern) text).map fun found => (line ++ found.1, found.2) := by
  induction line with
  | nil => simp
  | cons c rest ih =>
      simp only [List.mem_cons, not_or] at free
      rw [List.cons_append, splitOnce, if_neg (by simp [free.1]), ih free.2, Option.map_map]
      rfl

theorem splitOnce_newline {line : Text} (free : '\n' ∉ line) (rest : Text) :
    splitOnce ['\n'] (line ++ '\n' :: rest) = some (line, rest) := by
  rw [splitOnce_line [] free, splitOnce]
  simp

theorem splitOnce_newline_free {text before after : Text}
    (found : splitOnce ['\n'] text = some (before, after)) : '\n' ∉ before := by
  induction text generalizing before with
  | nil => simp [splitOnce] at found
  | cons c rest ih =>
      rw [splitOnce] at found
      split at found
      next =>
        simp only [Option.some.injEq, Prod.mk.injEq] at found
        simp [← found.1]
      next other =>
        obtain ⟨parts, deeper, same⟩ := Option.map_eq_some_iff.mp found
        simp only [Prod.mk.injEq] at same
        have inner : splitOnce ['\n'] rest = some (parts.1, after) := by rw [deeper, ← same.2]
        rw [← same.1, List.mem_cons, not_or]
        exact ⟨by simpa using other, ih inner⟩

theorem splitOnce_frontmatter {front : Text} (whole : ¬ frontmatterEnd <:+: front ++ ['\n'])
    (tail : Text) : splitOnce frontmatterEnd (front ++ (frontmatterEnd ++ tail)) = some (front, tail) := by
  induction front with
  | nil =>
      have starts : frontmatterEnd.isPrefixOf (frontmatterEnd ++ tail) = true :=
        List.isPrefixOf_iff_prefix.mpr (List.prefix_append _ _)
      obtain ⟨c, rest, shape⟩ := List.exists_cons_of_ne_nil (by decide : frontmatterEnd ≠ [])
      rw [List.nil_append]
      conv_lhs => rw [shape, List.cons_append, ← shape]
      rw [splitOnce, ← List.cons_append, ← shape, if_pos starts, List.drop_left]
  | cons c rest ih =>
      have later : ¬ frontmatterEnd <:+: rest ++ ['\n'] := fun inside =>
        whole (List.infix_cons_iff.mpr (.inr inside))
      -- Before the line is over the mark would be a part of it.
      have continues : ¬ frontmatterEnd <+: c :: rest ++ (frontmatterEnd ++ tail) := by
        intro starts
        apply whole
        apply List.IsPrefix.isInfix
        have mark : frontmatterEnd = ['\n', '-', '-', '-', '\n'] := by decide
        rw [mark] at starts ⊢
        match rest with
        | [] => simp at starts
        | [_] => simp at starts
        | [_, _] => simp at starts
        | [_, _, _] => simpa using starts
        | _ :: _ :: _ :: _ :: _ => simpa using starts
      rw [List.cons_append, splitOnce, ih later,
        if_neg (by simpa [List.isPrefixOf_iff_prefix] using continues)]
      rfl

end Splitting

section Lines

theorem splitOn_line {line : Text} (free : '\n' ∉ line) : line.splitOn '\n' = [line] := by
  rw [List.splitOn_eq_splitOnP]
  apply List.splitOnP_eq_singleton
  intro c member
  have : c ≠ '\n' := fun same => free (same ▸ member)
  simpa using this

theorem splitOn_cons_line {line : Text} (free : '\n' ∉ line) (rest : Text) :
    (line ++ '\n' :: rest).splitOn '\n' = line :: rest.splitOn '\n' := by
  have whole := splitOn_line free
  rw [List.splitOn_eq_splitOnP] at whole
  rw [List.splitOn_eq_splitOnP, List.splitOnP_append_cons _ _ (by simp), whole]
  rfl

theorem lines_cons {line : Text} (free : '\n' ∉ line) (rest : Text) :
    lines (line ++ '\n' :: rest) = dropReturn line :: lines rest := by
  obtain ⟨last, ended, split⟩ := List.exists_cons_of_ne_nil
    (by simp : (rest.splitOn '\n').reverse ≠ [])
  simp only [lines, splitOn_cons_line free, List.reverse_cons, split, List.cons_append,
    List.reverse_append]
  simp

theorem lines_line {line : Text} (free : '\n' ∉ line) :
    lines line = if line = [] then [] else [line] := by
  simp [lines, splitOn_line free]

theorem find_eq_splitOnce (text pattern : Text) :
    Utf8.find text pattern = (splitOnce pattern text).map fun parts => Utf8.byteLength parts.1 := by
  induction text with
  | nil =>
      unfold Utf8.find splitOnce
      by_cases nothing : pattern = []
      · simp [nothing]
      · simp [nothing]
  | cons c rest ih =>
      unfold Utf8.find splitOnce
      split
      · rfl
      · simp only [ih, Option.map_map]
        rfl

theorem slice_splitOnce {text pattern before after : Text}
    (found : splitOnce pattern text = some (before, after)) :
    Utf8.slice text 0 (Utf8.byteLength before) = some before := by
  rw [Utf8.slice_eq_some]
  exact ⟨[], pattern ++ after, by simp [splitOnce_eq_some found], rfl, by simp⟩

end Lines

section Trimming

theorem length_trim_le (text : Text) : (trim text).length ≤ text.length := by
  have front := (List.dropWhile_suffix isWhitespace (l := text)).length_le
  have back := (List.dropWhile_suffix isWhitespace (l := (text.dropWhile isWhitespace).reverse)).length_le
  simp only [List.length_reverse] at back
  rw [trim, List.length_reverse]
  omega

theorem dropWhile_of_length {A : Type} (drops : A → Bool) (items : List A)
    (same : (items.dropWhile drops).length = items.length) : items.dropWhile drops = items :=
  (List.dropWhile_suffix drops).eq_of_length same

theorem trimmed_iff (text : Text) : trim text = text ↔
    text.dropWhile isWhitespace = text ∧ text.reverse.dropWhile isWhitespace = text.reverse := by
  constructor
  · intro trimmed
    have length := congrArg List.length trimmed
    have front := (List.dropWhile_suffix isWhitespace (l := text)).length_le
    have back := (List.dropWhile_suffix isWhitespace
      (l := (text.dropWhile isWhitespace).reverse)).length_le
    simp only [trim, List.length_reverse] at length back
    have start := dropWhile_of_length isWhitespace text (by omega)
    refine ⟨start, dropWhile_of_length isWhitespace text.reverse ?_⟩
    rw [start] at length
    simpa using length
  · rintro ⟨start, stop⟩
    rw [trim, start, stop, List.reverse_reverse]

theorem trimmed_starts {c : Char} {rest : Text} (trimmed : trim (c :: rest) = c :: rest) :
    isWhitespace c = false := by
  have start := ((trimmed_iff _).mp trimmed).1
  by_contra blank
  rw [List.dropWhile_cons_of_pos (by simpa using blank)] at start
  have := (List.dropWhile_suffix isWhitespace (l := rest)).length_le
  rw [start] at this
  simp at this

theorem trimmed_stops {c : Char} {front : Text} (trimmed : trim (front ++ [c]) = front ++ [c]) :
    isWhitespace c = false := by
  have stop := ((trimmed_iff _).mp trimmed).2
  rw [List.reverse_append] at stop
  by_contra blank
  have shorter := (List.dropWhile_suffix isWhitespace (l := front.reverse)).length_le
  have whole := congrArg List.length stop
  simp only [List.reverse_cons, List.reverse_nil, List.nil_append, List.singleton_append] at whole
  rw [List.dropWhile_cons_of_pos (by simpa using blank)] at whole
  simp at whole shorter
  omega

theorem trim_padded (left : Text) {core : Text} (right : Text) (trimmed : trim core = core)
    (before : ∀ c ∈ left, isWhitespace c = true) (after : ∀ c ∈ right, isWhitespace c = true) :
    trim (left ++ (core ++ right)) = core := by
  have unmarked (blank : Text) (all : ∀ c ∈ blank, isWhitespace c = true) :
      Frona.Text.Unmarked isVisible blank := fun c member => by simp [isVisible, all c member]
  cases core with
  | nil =>
      apply trim_unmarked
      apply unmarked
      intro c member
      exact (List.mem_append.mp (by simpa using member)).elim (before c) (after c)
  | cons first rest =>
      apply trim_solid left _ right (unmarked left before) (unmarked right after)
      obtain ⟨init, last, split⟩ := (List.eq_nil_or_concat (first :: rest)).resolve_left (by simp)
      rw [List.concat_eq_append] at split
      constructor
      · exact ⟨first, rest, rfl, by simp [isVisible, trimmed_starts trimmed]⟩
      · rw [split] at trimmed ⊢
        exact ⟨init, last, rfl, by simp [isVisible, trimmed_stops trimmed]⟩

theorem trim_trim (text : Text) : trim (trim text) = trim text := by
  by_cases blank : text.filter isVisible = []
  · rw [trim_unmarked text ((Frona.Text.unmarked_iff_filter _ _).mpr blank)]
    rfl
  · obtain ⟨before, core, after, rfl, left, right, solid⟩ :=
      Frona.Text.exists_solid isVisible text blank
    rw [trim_solid before core after left right solid]
    simpa using trim_solid [] core [] nofun nofun solid

theorem dropWhile_dropWhile_append {A : Type} (drops : A → Bool) (first second : List A) :
    (first.dropWhile drops ++ second).dropWhile drops = (first ++ second).dropWhile drops := by
  induction first with
  | nil => rfl
  | cons item rest ih =>
      by_cases here : drops item
      · rw [List.dropWhile_cons_of_pos here, ih, List.cons_append, List.dropWhile_cons_of_pos here]
      · rw [List.dropWhile_cons_of_neg here]

theorem trim_suffix {text below : Text} (trimmed : trim text = text) (within : below <:+ text) :
    trim below = below.dropWhile isWhitespace := by
  cases List.eq_nil_or_concat below with
  | inl nothing =>
      rw [nothing]
      rfl
  | inr some_ =>
      obtain ⟨init, last, rfl⟩ := some_
      rw [List.concat_eq_append] at within ⊢
      obtain ⟨front, rfl⟩ := within
      rw [← List.append_assoc] at trimmed
      have shown := trimmed_stops trimmed
      rw [trim, dropWhile_append_stop isWhitespace init [] shown]
      simp [shown]

end Trimming

section Cleaning

theorem fenceText_trimmed {inner fenced : Text} {events : List (PageEvent × Nat)}
    (found : fenceText inner events = some fenced) : trim fenced = fenced := by
  induction events generalizing inner with
  | nil => cases found
  | cons event rest ih =>
      obtain ⟨event, stop⟩ := event
      cases event with
      | text t => exact ih found
      | codeEnd =>
          simp only [fenceText] at found
          split at found
          next =>
            rw [← Option.some.inj found]
            exact trim_trim inner
          next => cases found
      | fencedCode | metadata | metadataEnd | other => exact ih found

theorem belowMetadata_eq_some {document below : Text} {events : List (PageEvent × Nat)}
    (found : belowMetadata document events = some below) :
    ∃ last ∈ events, last.1 = .metadataEnd ∧ ∃ front rest, document = front ++ rest ∧
      Utf8.byteLength front = last.2 ∧ below = rest.dropWhile isWhitespace := by
  simp only [belowMetadata, Option.bind_eq_bind, Option.bind_eq_some_iff, Option.pure_def,
    Option.some.injEq] at found
  obtain ⟨last, ends, rest, sliced, rfl⟩ := found
  obtain ⟨front, same, size⟩ := (Utf8.sliceFrom_eq_some _ _ _).mp sliced
  exact ⟨last, List.mem_of_find?_eq_some ends, by simpa using List.find?_some ends, front, rest, same,
    size, rfl⟩

variable (parser : PageParser)

theorem trim_clean (raw : Text) : trim (clean parser raw) = clean parser raw := by
  have whole := trim_trim raw
  simp only [clean]
  split
  next stop rest _ =>
    cases found : fenceText [] rest with
    | none => exact whole
    | some inner => exact fenceText_trimmed found
  next stop rest _ =>
    cases found : belowMetadata (trim raw) rest with
    | none => exact whole
    | some below =>
        obtain ⟨_, -, -, front, rest, same, -, rfl⟩ := belowMetadata_eq_some found
        have behind := trim_suffix whole ⟨front, same.symm⟩
        rw [Option.getD_some, ← behind]
        exact trim_trim rest
  next => exact whole

variable {parser}

theorem clean_shorter (marks : parser.Marks) (raw : Text) :
    clean parser raw = trim raw ∨ (clean parser raw).length < (trim raw).length := by
  simp only [clean]
  split
  next stop rest parsed =>
    cases found : fenceText [] rest with
    | none => exact .inl rfl
    | some inner => exact .inr (marks.fence _ stop rest inner parsed found)
  next stop rest parsed =>
    cases found : belowMetadata (trim raw) rest with
    | none => exact .inl rfl
    | some below =>
        right
        obtain ⟨last, member, ends, front, tail, same, size, rfl⟩ := belowMetadata_eq_some found
        obtain ⟨first, more, split, some_, other⟩ := marks.metadata _ stop rest last parsed member ends
        have longer : front ≠ [] := by
          rintro rfl
          rw [← other, Utf8.byteLength_nil] at size
          exact some_ ((Utf8.byteLength_eq_zero first).mp size.symm)
        have least := (List.dropWhile_suffix isWhitespace (l := tail)).length_le
        have := List.length_pos_iff.mpr longer
        rw [Option.getD_some, same, List.length_append]
        omega
  next => exact .inl rfl

end Cleaning

end Frona.Pkm
