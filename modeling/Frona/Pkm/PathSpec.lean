import Mathlib.Data.List.TakeWhile
import Frona.Pkm.Path

set_option autoImplicit false

namespace Frona.Pkm

open Utf8 (Text stripPrefix)
open Frona.Text (trim isWhitespace)

section Prefixes

variable {A : Type} (drops : A → Bool)

theorem dropWhile_mono {left right : List A} (first : left <+: right) :
    left.dropWhile drops <+: right.dropWhile drops := by
  obtain ⟨rest, rfl⟩ := first
  induction left with
  | nil => simp
  | cons a left ih =>
      cases dropped : drops a with
      | true => simpa [dropped] using ih
      | false => simp [dropped]

theorem dropWhile_of_begins {left right : List A} (first : left <+: right.dropWhile drops) :
    left.dropWhile drops = left := by
  cases left with
  | nil => rfl
  | cons a left =>
      obtain ⟨rest, same⟩ := first
      have stays := List.head?_dropWhile_not drops right
      rw [← same] at stays
      simp [show drops a = false by simpa using stays]

theorem reverse_dropWhile_begins (text : List A) :
    (text.reverse.dropWhile drops).reverse <+: text := by
  rw [← List.reverse_suffix, List.reverse_reverse]
  exact List.dropWhile_suffix drops

theorem dropWhile_append_stop (text rest : List A) {stop : A} (stays : drops stop = false) :
    (text ++ stop :: rest).dropWhile drops = text.dropWhile drops ++ stop :: rest := by
  induction text with
  | nil => simp [stays]
  | cons a text ih => cases dropped : drops a <;> simp [dropped, ih]

end Prefixes

section Trims

theorem dropReversedMd_suffix (text : Text) : dropReversedMd text <:+ text := by
  fun_induction dropReversedMd text with
  | case1 rest ih => exact ih.trans ⟨['d', 'm', '.'], rfl⟩
  | case2 text => exact List.suffix_rfl

example : dropReversedMd ['d', 'm', '.', 'a'] = ['a'] := by decide +kernel

theorem trimEndMd_begins (text : Text) : trimEndMd text <+: text := by
  rw [← List.reverse_suffix, trimEndMd, List.reverse_reverse]
  exact dropReversedMd_suffix text.reverse

theorem trimEndMd_extension (text : Text) : trimEndMd (text ++ extension) = trimEndMd text := by
  simp [trimEndMd, extension, dropReversedMd]

theorem trimEndMd_cases (text : Text) :
    (∃ stem, text = stem ++ extension) ∨ ∀ front, front <:+ text → trimEndMd front = front := by
  by_cases marked : extension <:+ text
  · obtain ⟨stem, same⟩ := marked
    exact Or.inl ⟨stem, same.symm⟩
  · right
    intro front suffix
    have unmarked : ¬ extension <:+ front := fun within => marked (within.trans suffix)
    rw [trimEndMd]
    generalize back : front.reverse = reversed
    fun_cases dropReversedMd reversed with
    | case1 rest =>
        exact absurd ⟨rest.reverse, by rw [← List.reverse_inj, back]; simp [extension]⟩ unmarked
    | case2 => rw [← back, List.reverse_reverse]

theorem trimEndMd_dropWhile (drops : Char → Bool) (stays : drops '.' = false) (text : Text) :
    trimEndMd (text.dropWhile drops) = (trimEndMd text).dropWhile drops := by
  induction length : text.length using Nat.strong_induction_on generalizing text with
  | _ length ih =>
      cases trimEndMd_cases text with
      | inl marked =>
          obtain ⟨stem, rfl⟩ := marked
          have split := dropWhile_append_stop drops stem ['m', 'd'] stays
          rw [extension] at *
          rw [split]
          have shorter := ih stem.length (by simp at length; omega) stem rfl
          exact ((trimEndMd_extension _).trans shorter).trans
            (congrArg _ (trimEndMd_extension stem).symm)
      | inr unmarked =>
          rw [unmarked _ (List.dropWhile_suffix drops), unmarked text List.suffix_rfl]

def trimEnd (text : Text) : Text := (text.reverse.dropWhile isWhitespace).reverse

theorem trim_eq (text : Text) : trim text = trimEnd (text.dropWhile isWhitespace) := rfl

theorem trimEnd_extension (text : Text) : trimEnd (text ++ extension) = text ++ extension := by
  simp [trimEnd, extension, show isWhitespace 'd' = false by decide]

theorem trimSlashes_begins (text : Text) : trimSlashes text <+: trimStartSlashes text :=
  reverse_dropWhile_begins isSlash (text.dropWhile isSlash)

theorem trimEndMd_trim (path : Text) :
    trimEndMd (trim (trimEndMd path)) <+: trimEndMd (trim path) := by
  cases trimEndMd_cases path with
  | inl marked =>
      obtain ⟨stem, rfl⟩ := marked
      have dropped := dropWhile_append_stop isWhitespace stem ['m', 'd']
        (by decide : isWhitespace '.' = false)
      have whole : trim (stem ++ extension) = stem.dropWhile isWhitespace ++ extension := by
        rw [trim_eq, extension, dropped]
        exact trimEnd_extension _
      rw [whole, trimEndMd_extension, trimEndMd_extension,
        trimEndMd_dropWhile isWhitespace (by decide)]
      exact (trimEndMd_begins _).trans (reverse_dropWhile_begins isWhitespace _)
  | inr unmarked =>
      rw [unmarked path List.suffix_rfl]

theorem cleaned_begins (path : Text) :
    cleaned (trimEndMd path) <+: trimStartSlashes (trimEndMd (trim path)) := by
  have start : cleaned (trimEndMd path) <+:
      trimStartSlashes (trimEndMd (trimStartSlashes (trim (trimEndMd path)))) :=
    trimSlashes_begins _
  have commuted (text : Text) :
      trimStartSlashes (trimEndMd (trimStartSlashes text)) = trimStartSlashes (trimEndMd text) := by
    rw [trimStartSlashes, trimStartSlashes, trimEndMd_dropWhile isSlash (by decide)]
    exact dropWhile_of_begins isSlash List.prefix_rfl
  rw [commuted] at start
  exact start.trans (dropWhile_mono isSlash (trimEndMd_trim path))

theorem cleaned_head (path : Text) : isSlash ((cleaned path).headD 'a') = false := by
  have fixed : (cleaned path).dropWhile isSlash = cleaned path :=
    dropWhile_of_begins isSlash (trimSlashes_begins _)
  cases text : cleaned path with
  | nil => rfl
  | cons c rest =>
      rw [text] at fixed
      by_contra slash
      have slash : isSlash c = true := by simpa using slash
      have shorter := congrArg List.length fixed
      have bound := (List.dropWhile_sublist isSlash (l := rest)).length_le
      rw [List.dropWhile_cons_of_pos slash, List.length_cons] at shorter
      omega

theorem cleaned_last (path : Text) : ∀ c ∈ (cleaned path).getLast?, isSlash c = false := by
  intro c last
  have back : (cleaned path).getLast? =
      (((trimEndMd (trimStartSlashes (trim path))).dropWhile isSlash).reverse.dropWhile
        isSlash).head? := by
    simp [cleaned, trimSlashes]
  rw [back] at last
  have stays := List.head?_dropWhile_not isSlash
    (((trimEndMd (trimStartSlashes (trim path))).dropWhile isSlash).reverse)
  rw [Option.mem_def.mp last] at stays
  simpa using stays

end Trims

section Pieces

theorem splitSlash_append (piece rest : Text) (solid : '/' ∉ piece) :
    splitSlash (piece ++ '/' :: rest) = piece :: splitSlash rest := by
  induction piece with
  | nil => rfl
  | cons c piece ih =>
      have rest' := ih fun member => solid (by simp [member])
      rw [List.cons_append, splitSlash, rest']
      exact fun same => solid (by simp [same])

theorem splitSlash_solid (piece : Text) (solid : '/' ∉ piece) : splitSlash piece = [piece] := by
  induction piece with
  | nil => rfl
  | cons c piece ih =>
      have rest' := ih fun member => solid (by simp [member])
      rw [splitSlash, rest']
      exact fun same => solid (by simp [same])

theorem pieces_cases (text : Text) :
    '/' ∉ text ∨ ∃ piece rest, '/' ∉ piece ∧ text = piece ++ '/' :: rest := by
  by_cases slash : '/' ∈ text
  · obtain ⟨piece, rest, same, solid⟩ := List.eq_append_cons_of_mem slash
    exact Or.inr ⟨piece, rest, solid, same⟩
  · exact Or.inl slash

theorem components_extension (text : Text) : components (text ++ extension) ≠ [] := by
  induction text with
  | nil => decide
  | cons c text ih =>
      by_cases slash : c = '/'
      · subst slash
        exact ih
      · rw [components] at ih ⊢
        rw [List.cons_append, splitSlash]
        · cases pieces : splitSlash (text ++ extension) with
          | nil => simp [pieces] at ih
          | cons piece rest =>
              rw [pieces] at ih
              by_cases here : isComponent piece
              · have longer : isComponent (c :: piece) = true := by
                  cases piece with
                  | nil => simp [isComponent] at here
                  | cons d piece => simp [isComponent]
                simp [longer]
              · rw [List.filter_cons_of_neg here] at ih
                by_cases longer : isComponent (c :: piece) <;> simp [longer, ih]
        · exact slash

end Pieces

namespace VaultScope

variable (vault : VaultScope)

theorem directory_ne_nil : vault.directory ≠ [] := by
  intro empty
  have valid := vault.validated
  rw [empty] at valid
  simp [validateDirectory, trim] at valid

theorem directory_solid : '/' ∉ vault.directory := by
  have valid := vault.validated
  rw [validateDirectory] at valid
  split at valid
  · cases valid
  next clean =>
    have same := Except.ok.inj valid
    exact fun member => clean (Or.inr (Or.inl (by rw [same]; exact member)))

theorem components_directory (plain : vault.directory ≠ ['.']) :
    components vault.directory = [vault.directory] := by
  simp [components, splitSlash_solid _ vault.directory_solid, isComponent,
    vault.directory_ne_nil, plain]

/-- The files below the Memory directory. -/
def holds (key : FileKey) : Prop :=
  ∃ piece rest, key = components vault.directory ++ piece :: rest

theorem pageKey_holds (path : Text) (key : FileKey) (named : vault.pageKey path = .ok key) :
    vault.holds key := by
  rw [pageKey, relMd] at named
  split at named
  · cases named
  · split at named
    · cases named
    · obtain rfl := Except.ok.inj named
      cases pieces : components (cleaned path ++ extension) with
      | nil => exact absurd pieces (components_extension _)
      | cons piece rest => exact ⟨piece, rest, congrArg (components vault.directory ++ ·) pieces⟩

/-- The path starts at the place where it stands, or the Memory directory is that place. -/
def Dotted (path : Text) : Prop :=
  vault.directory = ['.'] ∨ (splitSlash (cleaned path)).head? = some ['.']

instance (path : Text) : Decidable (vault.Dotted path) := inferInstanceAs (Decidable (_ ∨ _))

theorem pageFromAny_isSome (input page : Text)
    (start : vault.directory ++ '/' :: page <+: trimStartSlashes (trimEndMd (trim input)))
    (last : ∃ c ∈ page, isSlash c = false) : (vault.pageFromAny input).isSome = true := by
  obtain ⟨rest, same⟩ := start
  rw [pageFromAny]
  cases vault.stripRoot (trimEndMd (trim input)) with
  | some page => rfl
  | none =>
      have stripped : stripPrefix (vault.vaultPath []) (trimStartSlashes (trimEndMd (trim input))) =
          some (page ++ rest) := by
        rw [← same, stripPrefix, vaultPath, if_pos]
        · simp
        · exact List.isPrefixOf_iff_prefix.mpr ⟨page ++ rest, by simp⟩
      obtain ⟨c, member, solid⟩ := last
      have left : trimSlashes (page ++ rest) ≠ [] := by
        intro blank
        have slashes := List.dropWhile_eq_nil_iff.mp (List.reverse_eq_nil_iff.mp blank)
        have some' : (page ++ rest).dropWhile isSlash ≠ [] := by
          intro blank
          have := List.dropWhile_eq_nil_iff.mp blank c (by simp [member])
          simp [solid] at this
        have head := List.head_dropWhile_not isSlash some'
        rw [slashes _ (by simp)] at head
        cases head
      rw [stripped]
      simp [nonEmpty, left]

theorem noteKey_outside (path : Text) (key : FileKey) (plain : ¬ vault.Dotted (trimEndMd path))
    (routed : vault.pageFromAny path = none) (named : noteKey (trimEndMd path) = .ok key) :
    ¬ vault.holds key := by
  intro ⟨inner, below, within⟩
  have undotted : vault.directory ≠ ['.'] := fun dot => plain (Or.inl dot)
  have rooted : components (cleaned (trimEndMd path) ++ extension) = key := by
    rw [noteKey, relMd] at named
    split at named
    · cases named
    · split at named
      · cases named
      · exact Except.ok.inj named
  rw [within, components_directory vault undotted] at rooted
  cases pieces_cases (cleaned (trimEndMd path)) with
  | inl solid =>
      have single : '/' ∉ cleaned (trimEndMd path) ++ extension := by simp [solid, extension]
      have short := List.length_filter_le isComponent [cleaned (trimEndMd path) ++ extension]
      rw [components, splitSlash_solid _ single] at rooted
      rw [rooted] at short
      simp at short
  | inr split =>
      obtain ⟨piece, rest, solid, same⟩ := split
      have head : piece ≠ [] := by
        intro empty
        have first := cleaned_head (trimEndMd path)
        rw [same, empty] at first
        cases first
      have undotted' : piece ≠ ['.'] := by
        intro dot
        exact plain (Or.inr (by rw [same, splitSlash_append _ _ solid, dot]; rfl))
      have pieces : splitSlash (piece ++ '/' :: rest ++ extension) =
          piece :: splitSlash (rest ++ extension) := by
        rw [List.append_assoc, List.cons_append, splitSlash_append _ _ solid]
      rw [same, components, pieces, List.filter_cons_of_pos (by simp [isComponent, head, undotted'])]
        at rooted
      have here : piece = vault.directory := (List.cons.inj rooted).1
      have start := cleaned_begins path
      rw [same, here] at start
      have last : ∃ c ∈ rest, isSlash c = false := by
        have ends := cleaned_last (trimEndMd path)
        rw [same] at ends
        cases rest using List.reverseRecOn with
        | nil => simp [isSlash] at ends
        | append_singleton rest c =>
            exact ⟨c, by simp, ends c (by
              rw [← List.cons_append, ← List.append_assoc, List.getLast?_concat]
              rfl)⟩
      have found := vault.pageFromAny_isSome path rest start last
      simp [routed] at found

end VaultScope

end Frona.Pkm
