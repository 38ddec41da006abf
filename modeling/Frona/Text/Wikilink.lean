import Frona.Text.Utf8

set_option autoImplicit false

namespace Wikilink

open Utf8

/-- `str::replace` for a pattern that is not empty: matches are taken from the left and do not overlap. -/
def replaceFrom (pattern replacement : Text) : Nat → Text → Text
  | _, [] => []
  | skip + 1, _ :: rest => replaceFrom pattern replacement skip rest
  | 0, c :: rest =>
      if pattern.isPrefixOf (c :: rest) then
        replacement ++ replaceFrom pattern replacement (pattern.length - 1) rest
      else c :: replaceFrom pattern replacement 0 rest

def replace (text pattern replacement : Text) : Text := replaceFrom pattern replacement 0 text

-- What may stand between the brackets of a link.
def isPlain (c : Char) : Bool := c != '[' && c != ']'

def BracketFree (text : Text) : Prop := ∀ c ∈ text, isPlain c = true

instance (text : Text) : Decidable (BracketFree text) :=
  List.decidableBAll (fun c => isPlain c = true) text

inductive Piece where
  | char (c : Char)
  | link (inner : Text)

def linkText (inner : Text) : Text := '[' :: '[' :: (inner ++ [']', ']'])

def Piece.render : Piece → Text
  | .char c => [c]
  | .link inner => linkText inner

def render (pieces : List Piece) : Text := pieces.flatMap Piece.render

def closes : Text → Bool
  | ']' :: ']' :: _ => true
  | _ => false

def linkAt : Text → Option Text
  | '[' :: '[' :: rest =>
      if closes (rest.dropWhile isPlain) then some (rest.takeWhile isPlain) else none
  | _ => none

def parseFrom : Nat → Text → List Piece
  | _, [] => []
  | skip + 1, _ :: rest => parseFrom skip rest
  | 0, c :: rest =>
      match linkAt (c :: rest) with
      | some inner => .link inner :: parseFrom (inner.length + 3) rest
      | none => .char c :: parseFrom 0 rest

def parse (text : Text) : List Piece := parseFrom 0 text

def Piece.mapLink (f : Text → Text) : Piece → Piece
  | .char c => .char c
  | .link inner => .link (f inner)

def rewrite (f : Text → Text) (text : Text) : Text := render ((parse text).map (·.mapLink f))

def Piece.inner? : Piece → Option Text
  | .char _ => none
  | .link inner => some inner

def links (text : Text) : List Text := (parse text).filterMap Piece.inner?

@[simp] theorem Piece.mapLink_char (f : Text → Text) (c : Char) :
    (Piece.char c).mapLink f = .char c := rfl

@[simp] theorem Piece.mapLink_link (f : Text → Text) (inner : Text) :
    (Piece.link inner).mapLink f = .link (f inner) := rfl

@[simp] theorem render_nil : render [] = [] := rfl

@[simp] theorem render_char (c : Char) (pieces : List Piece) :
    render (.char c :: pieces) = c :: render pieces := rfl

@[simp] theorem render_link (inner : Text) (pieces : List Piece) :
    render (.link inner :: pieces) = linkText inner ++ render pieces := rfl

theorem parseFrom_eq_drop (skip : Nat) (text : Text) :
    parseFrom skip text = parse (text.drop skip) := by
  induction text generalizing skip with
  | nil => cases skip <;> simp [parseFrom, parse]
  | cons c rest ih =>
      cases skip with
      | zero => rfl
      | succ skip => simpa [parseFrom] using ih skip

theorem replaceFrom_eq_drop (pattern replacement : Text) (skip : Nat) (text : Text) :
    replaceFrom pattern replacement skip text = replace (text.drop skip) pattern replacement := by
  induction text generalizing skip with
  | nil => cases skip <;> simp [replaceFrom, replace]
  | cons c rest ih =>
      cases skip with
      | zero => rfl
      | succ skip => simpa [replaceFrom] using ih skip

theorem takeWhile_plain_append (inner rest : Text) (free : BracketFree inner)
    (stops : ∀ c tail, rest = c :: tail → isPlain c = false) :
    (inner ++ rest).takeWhile isPlain = inner ∧ (inner ++ rest).dropWhile isPlain = rest := by
  induction inner with
  | nil =>
      cases rest with
      | nil => simp
      | cons c tail => simp [stops c tail rfl]
  | cons c inner ih =>
      have plain : isPlain c = true := free c (by simp)
      have tail := ih fun d member => free d (by simp [member])
      simp [plain, tail.1, tail.2]

theorem linkAt_eq_some (text inner : Text) :
    linkAt text = some inner ↔ BracketFree inner ∧ ∃ rest, text = linkText inner ++ rest := by
  constructor
  · intro found
    unfold linkAt at found
    split at found
    · rename_i rest
      split at found
      · rename_i closed
        obtain rfl : rest.takeWhile isPlain = inner := by simpa using found
        refine ⟨List.all_eq_true.mp List.all_takeWhile, ?_⟩
        cases tail : rest.dropWhile isPlain with
        | nil => simp [tail, closes] at closed
        | cons c more =>
            cases more with
            | nil => simp [tail, closes] at closed
            | cons d more =>
                have whole := List.takeWhile_append_dropWhile (p := isPlain) (l := rest)
                rw [tail] at closed whole
                unfold closes at closed
                split at closed
                · rename_i same
                  obtain ⟨rfl, rfl, rfl⟩ : c = ']' ∧ d = ']' ∧ _ := by simpa using same
                  exact ⟨more, by simp [linkText, whole]⟩
                · simp at closed
      · simp at found
    · simp at found
  · rintro ⟨free, rest, rfl⟩
    have split := takeWhile_plain_append inner (']' :: ']' :: rest) free
      (by rintro c tail ⟨⟩; rfl)
    simp [linkText, linkAt, split.1, split.2, closes]

theorem linkText_length (inner : Text) : (linkText inner).length = inner.length + 4 := by
  simp [linkText]

theorem render_parse (text : Text) : render (parse text) = text := by
  induction size : text.length using Nat.strong_induction_on generalizing text with
  | _ bound ih =>
      cases text with
      | nil => rfl
      | cons c rest =>
          simp only [parse, parseFrom]
          split
          next inner found =>
            obtain ⟨_, tail, same⟩ := (linkAt_eq_some _ _).mp found
            have dropped : rest.drop (inner.length + 3) = tail := by
              have : (c :: rest).drop (inner.length + 4) = tail := by
                rw [same, ← linkText_length]
                simp
              simpa using this
            have shorter : tail.length < bound := by
              rw [← size, same]
              simp [linkText_length]
            rw [render_link, parseFrom_eq_drop, dropped, ih _ shorter tail rfl, same]
          next =>
            have shorter : rest.length < bound := by rw [← size]; simp
            rw [render_char, ← parse, ih _ shorter rest rfl]

def startsClosing : List Piece → Bool
  | .char d :: _ => d == ']'
  | _ => false

-- Whether the pieces go on with plain characters up to `]]`.
def closesPieces : List Piece → Bool
  | .char c :: pieces =>
      if isPlain c then closesPieces pieces else c == ']' && startsClosing pieces
  | _ => false

theorem closes_render (pieces : List Piece) :
    closes ((render pieces).dropWhile isPlain) = closesPieces pieces := by
  induction pieces with
  | nil => rfl
  | cons piece pieces ih =>
      cases piece with
      | link inner =>
          simp [closesPieces, linkText, isPlain, closes]
      | char c =>
          by_cases plain : isPlain c
          · simp [closesPieces, plain, ih]
          · simp only [render_char, List.dropWhile_cons, plain, closesPieces, startsClosing]
            cases pieces with
            | nil => by_cases same : c = ']' <;> simp [closes]
            | cons piece pieces =>
                cases piece with
                | link inner => simp [linkText, closes]
                | char d =>
                    by_cases first : c = ']' <;> by_cases second : d = ']' <;>
                      simp [closes, first, second]

theorem startsClosing_map (f : Text → Text) (pieces : List Piece) :
    startsClosing (pieces.map (·.mapLink f)) = startsClosing pieces := by
  cases pieces with
  | nil => rfl
  | cons piece pieces => cases piece <;> rfl

@[simp] theorem closesPieces_map (f : Text → Text) (pieces : List Piece) :
    closesPieces (pieces.map (·.mapLink f)) = closesPieces pieces := by
  induction pieces with
  | nil => rfl
  | cons piece pieces ih =>
      cases piece with
      | link inner => rfl
      | char c =>
          simp only [List.map_cons, Piece.mapLink_char, closesPieces, ih, startsClosing_map]

def Normal : List Piece → Prop
  | [] => True
  | .link inner :: pieces => BracketFree inner ∧ Normal pieces
  | .char c :: pieces =>
      (∀ tail, c = '[' → pieces = .char '[' :: tail → closesPieces tail = false) ∧ Normal pieces

theorem Normal.linkAt_char {c : Char} {pieces : List Piece} (normal : Normal (.char c :: pieces)) :
    linkAt (c :: render pieces) = none := by
  unfold linkAt
  split
  next rest same =>
    obtain ⟨rfl, tail⟩ : c = '[' ∧ render pieces = '[' :: rest := by simpa using same
    cases pieces with
    | nil => simp at tail
    | cons piece pieces =>
        cases piece with
        | link inner =>
            obtain rfl : rest = '[' :: (inner ++ [']', ']'] ++ render pieces) := by
              simpa [linkText] using tail.symm
            simp [isPlain, closes]
        | char d =>
            obtain ⟨rfl, rfl⟩ : d = '[' ∧ render pieces = rest := by simpa using tail
            simp [closes_render, normal.1 pieces rfl rfl]
  next => rfl

theorem normal_parse (text : Text) : Normal (parse text) := by
  induction size : text.length using Nat.strong_induction_on generalizing text with
  | _ bound ih =>
      cases text with
      | nil => exact trivial
      | cons c rest =>
          simp only [parse, parseFrom]
          split
          next inner found =>
            have shorter : (rest.drop (inner.length + 3)).length < bound := by
              rw [← size, List.length_drop, List.length_cons]
              omega
            rw [parseFrom_eq_drop]
            exact ⟨((linkAt_eq_some _ _).mp found).1, ih _ shorter _ rfl⟩
          next missing =>
            have shorter : rest.length < bound := by rw [← size]; simp
            refine ⟨?_, ih _ shorter rest rfl⟩
            intro tail first pieces
            have whole : rest = '[' :: render tail := by
              have := render_parse rest
              rw [parse, pieces] at this
              simpa using this.symm
            by_contra closed
            simp [first, whole, linkAt, closes_render, closed] at missing

theorem Normal.map {pieces : List Piece} (normal : Normal pieces) (f : Text → Text)
    (keeps : ∀ inner ∈ pieces.filterMap Piece.inner?, BracketFree (f inner)) :
    Normal (pieces.map (·.mapLink f)) := by
  induction pieces with
  | nil => exact trivial
  | cons piece pieces ih =>
      cases piece with
      | link inner =>
          refine ⟨keeps inner (by simp [Piece.inner?]), ih normal.2 fun other member => ?_⟩
          exact keeps other (by simp [Piece.inner?, member])
      | char c =>
          refine ⟨?_, ih normal.2 fun inner member => keeps inner (by simpa [Piece.inner?] using member)⟩
          intro tail first same
          cases pieces with
          | nil => simp at same
          | cons piece pieces =>
              cases piece with
              | link inner => simp [Piece.mapLink] at same
              | char d =>
                  obtain ⟨rfl, rfl⟩ : d = '[' ∧ pieces.map (·.mapLink f) = tail := by
                    simpa [Piece.mapLink] using same
                  simpa using normal.1 pieces first rfl

theorem parse_render {pieces : List Piece} (normal : Normal pieces) :
    parse (render pieces) = pieces := by
  induction pieces with
  | nil => rfl
  | cons piece pieces ih =>
      cases piece with
      | char c =>
          have missing := normal.linkAt_char
          have tail := ih normal.2
          simp only [render_char, parse, parseFrom, missing]
          rw [← parse, tail]
      | link inner =>
          have found : linkAt (linkText inner ++ render pieces) = some inner :=
            (linkAt_eq_some _ _).mpr ⟨normal.1, render pieces, rfl⟩
          have shape : linkText inner ++ render pieces =
              '[' :: ('[' :: (inner ++ [']', ']']) ++ render pieces) := rfl
          have dropped : ('[' :: (inner ++ [']', ']']) ++ render pieces).drop (inner.length + 3) =
              render pieces := by
            have : ('[' :: (inner ++ [']', ']'])).length = inner.length + 3 := by simp
            rw [← this, List.drop_left]
          rw [render_link, parse, shape, parseFrom, ← shape, found]
          simp only [parseFrom_eq_drop, dropped, ih normal.2]

theorem parse_rewrite (f : Text → Text) (text : Text)
    (keeps : ∀ inner ∈ links text, BracketFree (f inner)) :
    parse (rewrite f text) = (parse text).map (·.mapLink f) :=
  parse_render ((normal_parse text).map f keeps)

theorem rewrite_rewrite (f g : Text → Text) (text : Text)
    (keeps : ∀ inner ∈ links text, BracketFree (f inner)) :
    rewrite g (rewrite f text) = rewrite (g ∘ f) text := by
  rw [rewrite, parse_rewrite f text keeps, rewrite, List.map_map]
  congr 2
  funext piece
  cases piece <;> rfl

theorem rewrite_id (text : Text) : rewrite id text = text := by
  have same : (fun piece : Piece => piece.mapLink id) = id := by
    funext piece
    cases piece <;> rfl
  rw [rewrite, same, List.map_id, render_parse]

theorem links_free (text : Text) (inner : Text) (member : inner ∈ links text) :
    BracketFree inner := by
  have normal := normal_parse text
  unfold links at member
  generalize parse text = pieces at member normal
  induction pieces with
  | nil => simp at member
  | cons piece pieces ih =>
      cases piece with
      | char c => exact ih (by simpa [Piece.inner?] using member) normal.2
      | link other =>
          have here : inner = other ∨ inner ∈ pieces.filterMap Piece.inner? := by
            simpa [Piece.inner?] using member
          cases here with
          | inl same => exact same ▸ normal.1
          | inr deeper => exact ih deeper normal.2

theorem render_mapLink_inj (f g : Text → Text) (pieces : List Piece)
    (same : pieces.map (·.mapLink f) = pieces.map (·.mapLink g)) :
    ∀ inner ∈ pieces.filterMap Piece.inner?, f inner = g inner := by
  intro inner member
  obtain ⟨piece, found, some⟩ := List.mem_filterMap.mp member
  have equal := List.map_inj_left.mp same piece found
  cases piece with
  | char c => simp [Piece.inner?] at some
  | link other =>
      obtain rfl : other = inner := by simpa [Piece.inner?] using some
      simpa [Piece.mapLink] using equal

theorem linkText_infix (text inner : Text) (member : inner ∈ links text) :
    linkText inner <:+: text := by
  obtain ⟨piece, found, some⟩ := List.mem_filterMap.mp member
  have rendered : piece.render <:+: render (parse text) := by
    obtain ⟨before, after, split⟩ := List.append_of_mem found
    exact ⟨render before, render after, by simp [split, render]⟩
  cases piece with
  | char c => simp [Piece.inner?] at some
  | link other =>
      obtain rfl : other = inner := by simpa [Piece.inner?] using some
      rwa [render_parse] at rendered

theorem rewrite_eq_iff (f g : Text → Text) (text : Text)
    (keepsF : ∀ inner ∈ links text, BracketFree (f inner))
    (keepsG : ∀ inner ∈ links text, BracketFree (g inner)) :
    rewrite f text = rewrite g text ↔ ∀ inner ∈ links text, f inner = g inner := by
  constructor
  · intro same
    have pieces := congrArg parse same
    rw [parse_rewrite f text keepsF, parse_rewrite g text keepsG] at pieces
    exact render_mapLink_inj f g _ pieces
  · intro agree
    unfold rewrite
    congr 1
    apply List.map_congr_left
    intro piece member
    cases piece with
    | char c => rfl
    | link inner =>
        have found : inner ∈ links text := List.mem_filterMap.mpr ⟨_, member, rfl⟩
        simp [Piece.mapLink, agree inner found]

theorem replace_skip (pattern replacement chunk rest : Text)
    (unmatched : ∀ before c after, chunk = before ++ c :: after →
      pattern.isPrefixOf (c :: (after ++ rest)) = false) :
    replace (chunk ++ rest) pattern replacement = chunk ++ replace rest pattern replacement := by
  induction chunk with
  | nil => rfl
  | cons c chunk ih =>
      have here : pattern.isPrefixOf (c :: (chunk ++ rest)) = false :=
        unmatched [] c chunk rfl
      have tail := ih fun before d after same => unmatched (c :: before) d after (by simp [same])
      simp only [List.cons_append, replace, replaceFrom, here] at tail ⊢
      simp [tail]

theorem replace_absent (text pattern replacement : Text) (absent : ¬pattern <:+: text) :
    replace text pattern replacement = text := by
  have skipped := replace_skip pattern replacement text [] fun before c after same => by
    rw [Bool.eq_false_iff, ne_eq, List.isPrefixOf_iff_prefix, List.append_nil]
    rintro ⟨rest, here⟩
    exact absent ⟨before, rest, by rw [List.append_assoc, here, same]⟩
  simpa [replace, replaceFrom] using skipped

theorem replace_self (text pattern : Text) (filled : pattern ≠ []) :
    replace text pattern pattern = text := by
  induction size : text.length using Nat.strong_induction_on generalizing text with
  | _ bound ih =>
      cases text with
      | nil => rfl
      | cons c rest =>
          rw [replace, replaceFrom]
          split
          next matched =>
            obtain ⟨tail, whole⟩ := List.isPrefixOf_iff_prefix.mp matched
            obtain ⟨d, more, rfl⟩ := List.exists_cons_of_ne_nil filled
            obtain ⟨rfl, rfl⟩ : d = c ∧ more ++ tail = rest := by simpa using whole
            have shorter : tail.length < bound := by
              rw [← size, List.length_cons, List.length_append]
              omega
            rw [replaceFrom_eq_drop, List.length_cons, Nat.add_sub_cancel, List.drop_left,
              ih tail.length shorter tail rfl, List.cons_append]
          next => rw [← replace, ih rest.length (by simp [← size]) rest rfl]

theorem isPrefixOf_linkText (inner text : Text) (free : BracketFree inner) :
    (linkText inner).isPrefixOf text = true ↔ linkAt text = some inner := by
  rw [List.isPrefixOf_iff_prefix, linkAt_eq_some]
  constructor
  · rintro ⟨rest, rfl⟩
    exact ⟨free, rest, rfl⟩
  · rintro ⟨_, rest, rfl⟩
    exact ⟨rest, rfl⟩

theorem linkAt_plain (c : Char) (text : Text) (other : c ≠ '[') : linkAt (c :: text) = none := by
  unfold linkAt
  split
  next rest same => simp_all
  next => rfl

theorem linkAt_inside (inner rest before : Text) (c : Char) (after : Text)
    (free : BracketFree inner) (place : '[' :: (inner ++ [']', ']']) = before ++ c :: after) :
    linkAt (c :: (after ++ rest)) = none := by
  cases before with
  | nil =>
      obtain ⟨rfl, rfl⟩ : c = '[' ∧ after = inner ++ [']', ']'] := by simpa [eq_comm] using place
      cases inner with
      | nil => rfl
      | cons d inner =>
          have plain : isPlain d = true := free d (by simp)
          unfold linkAt
          split
          next rest same =>
            obtain ⟨rfl, _⟩ : d = '[' ∧ _ := by simpa using same
            simp [isPlain] at plain
          next => rfl
  | cons b before =>
      obtain ⟨_, place⟩ : b = '[' ∧ inner ++ [']', ']'] = before ++ c :: after := by
        simpa [eq_comm] using place
      have member : c ∈ inner ++ [']', ']'] := by simp [place]
      apply linkAt_plain
      cases List.mem_append.mp member with
      | inl inside =>
          have plain := free c inside
          rintro rfl
          simp [isPlain] at plain
      | inr closing =>
          rintro rfl
          simp at closing

theorem replace_linkText (source target : Text) (free : BracketFree source) (text : Text) :
    replace text (linkText source) (linkText target) =
      rewrite (fun inner => if inner = source then target else inner) text := by
  have normal := normal_parse text
  conv_lhs => rw [← render_parse text]
  unfold rewrite
  generalize parse text = pieces at normal ⊢
  induction pieces with
  | nil => rfl
  | cons piece pieces ih =>
      cases piece with
      | char c =>
          have unmatched : (linkText source).isPrefixOf (c :: render pieces) = false := by
            rw [Bool.eq_false_iff, ne_eq, isPrefixOf_linkText _ _ free, normal.linkAt_char]
            simp
          have tail := ih normal.2
          simp only [render_char, List.map_cons, Piece.mapLink_char, ← tail]
          simp [replace, replaceFrom, unmatched]
      | link inner =>
          have tail := ih normal.2
          have found : linkAt (linkText inner ++ render pieces) = some inner :=
            (linkAt_eq_some _ _).mpr ⟨normal.1, render pieces, rfl⟩
          simp only [render_link, List.map_cons, Piece.mapLink_link, ← tail]
          by_cases same : inner = source
          · subst same
            have matched : (linkText inner).isPrefixOf (linkText inner ++ render pieces) = true :=
              (isPrefixOf_linkText _ _ free).mpr found
            have shape : linkText inner ++ render pieces =
                '[' :: ('[' :: (inner ++ [']', ']']) ++ render pieces) := rfl
            have dropped : ('[' :: (inner ++ [']', ']']) ++ render pieces).drop
                ((linkText inner).length - 1) = render pieces := by
              have : (linkText inner).length - 1 = ('[' :: (inner ++ [']', ']'])).length := rfl
              rw [this, List.drop_left]
            rw [replace, shape, replaceFrom, ← shape, if_pos matched, replaceFrom_eq_drop, dropped]
            simp
          · have first : (linkText source).isPrefixOf (linkText inner ++ render pieces) = false := by
              rw [Bool.eq_false_iff, ne_eq, isPrefixOf_linkText _ _ free, found]
              simpa using same
            rw [if_neg same]
            apply replace_skip
            intro before c after place
            cases before with
            | nil =>
                obtain ⟨rfl, rfl⟩ : '[' = c ∧ '[' :: (inner ++ [']', ']']) = after := by
                  simpa [linkText] using place
                exact first
            | cons b before =>
                have inside : '[' :: (inner ++ [']', ']']) = before ++ c :: after := by
                  simpa [linkText] using (List.cons.inj place).2
                rw [Bool.eq_false_iff, ne_eq, isPrefixOf_linkText _ _ free,
                  linkAt_inside inner (render pieces) before c after normal.1 inside]
                simp

end Wikilink
