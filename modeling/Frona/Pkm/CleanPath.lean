import Frona.Pkm.PageText
import Frona.Pkm.Store

set_option autoImplicit false

namespace Frona.Pkm

open Utf8 (Text stripPrefix stripPrefix_eq_some)
open Frona.Text (trim isWhitespace)

section Joined

theorem infix_split {A : Type} {pattern left right : List A} {separator : A}
    (free : separator ∉ pattern) (within : pattern <:+: left ++ separator :: right) :
    pattern <:+: left ∨ pattern <:+: right := by
  obtain ⟨before, after, same⟩ := within
  rw [List.append_assoc] at same
  rcases List.append_eq_append_iff.mp same with ⟨rest, here, tail⟩ | ⟨rest, here, tail⟩
  · left
    rcases List.append_eq_append_iff.mp tail with ⟨more, whole, stop⟩ | ⟨more, whole, stop⟩
    · exact ⟨before, more, by rw [here, whole, List.append_assoc]⟩
    · cases more with
      | nil => exact ⟨before, [], by rw [here, whole]; simp⟩
      | cons item more =>
          obtain ⟨rfl, -⟩ := List.cons.inj stop
          exact absurd (by rw [whole]; simp) free
  · right
    cases rest with
    | nil =>
        cases pattern with
        | nil => exact List.nil_infix
        | cons item more =>
            obtain ⟨rfl, -⟩ := List.cons.inj tail
            exact absurd (by simp) free
    | cons item more =>
        obtain ⟨rfl, whole⟩ := List.cons.inj tail
        exact ⟨more, after, by rw [List.append_assoc, whole]; rfl⟩

theorem suffix_split {A : Type} {pattern left right : List A} {separator : A}
    (free : separator ∉ pattern) (within : pattern <:+ left ++ separator :: right) :
    pattern <:+ right := by
  have joined : separator :: right <:+ left ++ separator :: right := List.suffix_append _ _
  rcases List.suffix_or_suffix_of_suffix within joined with short | long
  · rcases List.suffix_cons_iff.mp short with same | deeper
    · exact absurd (by rw [same]; simp) free
    · exact deeper
  · exact absurd (long.subset (by simp)) free

theorem dropWhile_first {A : Type} (drops : A → Bool) {left : List A} (some_ : left ≠ [])
    (right : List A) :
    (left ++ right).dropWhile drops = left ++ right ↔ left.dropWhile drops = left := by
  cases left with
  | nil => exact absurd rfl some_
  | cons first rest =>
      cases dropped : drops first with
      | false => simp [dropped]
      | true =>
          have shorter (tail : List A) : (first :: tail).dropWhile drops ≠ first :: tail := by
            intro same
            have := (List.dropWhile_sublist drops (l := tail)).length_le
            rw [List.dropWhile_cons_of_pos dropped] at same
            rw [same] at this
            simp at this
          exact iff_of_false (shorter (rest ++ right)) (shorter rest)

theorem trim_joined {left right : Text} (leftSome : left ≠ []) (rightSome : right ≠ []) :
    trim (left ++ '/' :: right) = left ++ '/' :: right ↔
      left.dropWhile isWhitespace = left ∧ right.reverse.dropWhile isWhitespace = right.reverse := by
  rw [trimmed_iff, dropWhile_first isWhitespace leftSome]
  have back : (left ++ '/' :: right).reverse = right.reverse ++ '/' :: left.reverse := by simp
  rw [back, dropWhile_first isWhitespace (by simpa using rightSome)]

theorem trimEndMd_unmarked {text : Text} (unmarked : ¬ extension <:+ text) :
    trimEndMd text = text := by
  rcases trimEndMd_cases text with ⟨stem, same⟩ | fixed
  · exact absurd ⟨stem, same.symm⟩ unmarked
  · exact fixed text List.suffix_rfl

end Joined

section Pieces

theorem splitSlash_ne_nil (text : Text) : splitSlash text ≠ [] := by
  fun_induction splitSlash text <;> simp

theorem splitSlash_joined (left right : Text) :
    splitSlash (left ++ '/' :: right) = splitSlash left ++ splitSlash right := by
  fun_induction splitSlash left with
  | case1 => rfl
  | case2 rest ih => rw [List.cons_append, splitSlash, ih, List.cons_append]
  | case3 c rest _ nothing ih => exact absurd nothing (splitSlash_ne_nil rest)
  | case4 c rest other piece pieces split ih =>
      rw [List.cons_append, splitSlash, ih, split]
      · rfl
      · exact other

theorem joinSlash_splitSlash (text : Text) : joinSlash (splitSlash text) = text := by
  fun_induction splitSlash text with
  | case1 => rfl
  | case2 rest ih =>
      cases pieces : splitSlash rest with
      | nil => exact absurd pieces (splitSlash_ne_nil rest)
      | cons piece others =>
          rw [pieces] at ih
          rw [joinSlash, ih, List.nil_append]
  | case3 c rest _ nothing ih => exact absurd nothing (splitSlash_ne_nil rest)
  | case4 c rest other piece pieces split ih =>
      rw [split] at ih
      rw [← ih]
      cases pieces <;> rfl

theorem splitSlash_inj {left right : Text} (same : splitSlash left = splitSlash right) :
    left = right := by
  rw [← joinSlash_splitSlash left, same, joinSlash_splitSlash]

theorem splitSlash_extension (text : Text) :
    ∃ front last, splitSlash text = front ++ [last] ∧
      splitSlash (text ++ extension) = front ++ [last ++ extension] := by
  fun_induction splitSlash text with
  | case1 => exact ⟨[], [], rfl, by decide⟩
  | case2 rest ih =>
      obtain ⟨front, last, pieces, marked⟩ := ih
      exact ⟨[] :: front, last, by rw [pieces, List.cons_append],
        by rw [List.cons_append, splitSlash, marked, List.cons_append]⟩
  | case3 c rest _ nothing ih => exact absurd nothing (splitSlash_ne_nil rest)
  | case4 c rest other piece pieces split ih =>
      obtain ⟨front, last, whole, marked⟩ := ih
      have unfolded := splitSlash.eq_3 c (rest ++ extension) other
      rw [marked] at unfolded
      rw [split] at whole
      rw [List.cons_append, unfolded]
      cases front with
      | nil =>
          obtain ⟨rfl, rfl⟩ := List.cons.inj whole
          exact ⟨[], c :: piece, rfl, rfl⟩
      | cons first front =>
          obtain ⟨rfl, rfl⟩ := List.cons.inj whole
          exact ⟨(c :: piece) :: front, last, rfl, rfl⟩

end Pieces

section Clean

structure Clean (path : Text) : Prop where
  trimmed : trim path = path
  unmarked : ¬ extension <:+ path
  pieces : ∀ piece ∈ splitSlash path, isComponent piece = true
  inside : ¬ dotDot <:+: path
  plain : nul ∉ path

instance (path : Text) : Decidable (Clean path) :=
  decidable_of_iff (trim path = path ∧ ¬ extension <:+ path ∧
    (∀ piece ∈ splitSlash path, isComponent piece = true) ∧ ¬ dotDot <:+: path ∧ nul ∉ path)
    ⟨fun ⟨trimmed, unmarked, pieces, inside, plain⟩ => ⟨trimmed, unmarked, pieces, inside, plain⟩,
      fun clean => ⟨clean.trimmed, clean.unmarked, clean.pieces, clean.inside, clean.plain⟩⟩

theorem pieces_filled {text : Text} (pieces : ∀ piece ∈ splitSlash text, isComponent piece = true) :
    text ≠ [] := by
  rintro rfl
  have := pieces [] (by simp [splitSlash])
  simp [isComponent] at this

namespace Clean

variable {path : Text} (clean : Clean path)

include clean

theorem filled : path ≠ [] := pieces_filled clean.pieces

theorem unslashed : path.dropWhile isSlash = path ∧ path.reverse.dropWhile isSlash = path.reverse := by
  have empty (piece : Text) (member : piece ∈ splitSlash path) : piece ≠ [] := by
    rintro rfl
    have := clean.pieces [] member
    simp [isComponent] at this
  constructor
  · cases text : path with
    | nil => rfl
    | cons c rest =>
        have solid : isSlash c = false := by
          by_contra slash
          obtain rfl : c = '/' := by simpa [isSlash] using slash
          exact empty [] (by rw [text, splitSlash]; simp) rfl
        simp [solid]
  · cases back : path.reverse with
    | nil => rfl
    | cons c rest =>
        have solid : isSlash c = false := by
          by_contra slash
          obtain rfl : c = '/' := by simpa [isSlash] using slash
          have text : path = rest.reverse ++ '/' :: [] := by
            rw [← List.reverse_reverse path, back]
            simp
          exact empty [] (by rw [text, splitSlash_joined]; simp [splitSlash]) rfl
        simp [solid]

theorem trimSlashes_eq : trimSlashes path = path := by
  rw [trimSlashes, clean.unslashed.1, clean.unslashed.2, List.reverse_reverse]

theorem cleaned_eq : cleaned path = path := by
  rw [cleaned, clean.trimmed, trimStartSlashes, clean.unslashed.1,
    trimEndMd_unmarked clean.unmarked, clean.trimSlashes_eq]

theorem relMd_eq : relMd path = .ok (path ++ extension) := by
  have relative : ¬ ['/'].isPrefixOf path = true := by
    intro absolute
    obtain ⟨rest, rfl⟩ := List.isPrefixOf_iff_prefix.mp absolute
    have start := clean.unslashed.1
    have := (List.dropWhile_suffix isSlash (l := rest)).length_le
    rw [List.singleton_append, List.dropWhile_cons_of_pos (by rfl)] at start
    rw [start] at this
    simp at this
  have valid : validateRelativePath path = .ok () := by
    rw [validateRelativePath, if_neg clean.inside, if_neg relative, if_neg clean.plain]
  simp only [relMd, clean.cleaned_eq, clean.filled, if_false, valid]

theorem components_eq : components (path ++ extension) = splitSlash (path ++ extension) := by
  obtain ⟨front, last, whole, marked⟩ := splitSlash_extension path
  rw [components, List.filter_eq_self]
  intro piece member
  rw [marked, List.mem_append, List.mem_singleton] at member
  rcases member with early | rfl
  · exact clean.pieces piece (by rw [whole]; exact List.mem_append_left _ early)
  · have long : 3 ≤ (last ++ extension).length := by simp [extension]
    cases text : last ++ extension with
    | nil => simp [text] at long
    | cons c rest =>
        cases rest with
        | nil => simp [text] at long
        | cons d rest => simp [isComponent]

theorem noteKey_eq : noteKey path = .ok (splitSlash (path ++ extension)) := by
  rw [noteKey, clean.relMd_eq, Except.map, clean.components_eq]

theorem moved {source rest : Text} (below : Clean (source ++ '/' :: rest)) :
    Clean (path ++ '/' :: rest) := by
  have pieces : ∀ piece ∈ splitSlash rest, isComponent piece = true := fun piece member =>
    below.pieces piece (by rw [splitSlash_joined]; exact List.mem_append_right _ member)
  have filled := pieces_filled pieces
  have ends : rest.reverse.dropWhile isWhitespace = rest.reverse := by
    have back := ((trimmed_iff _).mp below.trimmed).2
    rw [List.reverse_append, List.reverse_cons, List.append_assoc,
      dropWhile_first isWhitespace (by simpa using filled)] at back
    exact back
  constructor
  · exact (trim_joined clean.filled filled).mpr ⟨((trimmed_iff _).mp clean.trimmed).1, ends⟩
  · intro marked
    have deeper := suffix_split (by decide) marked
    exact below.unmarked (deeper.trans ⟨source ++ ['/'], by simp⟩)
  · intro piece member
    rw [splitSlash_joined, List.mem_append] at member
    exact member.elim (clean.pieces piece) (pieces piece)
  · intro within
    rcases infix_split (by decide) within with left | right
    · exact clean.inside left
    · exact below.inside (right.trans ⟨source ++ ['/'], [], by simp⟩)
  · intro member
    rcases List.mem_append.mp member with left | right
    · exact clean.plain left
    · rcases List.mem_cons.mp right with slash | right
      · exact absurd slash (by decide)
      · exact below.plain (by simp [right])

end Clean

end Clean

namespace VaultScope

variable (vault : VaultScope)

theorem directory_trimmed : trim vault.directory = vault.directory := by
  have valid := vault.validated
  rw [validateDirectory] at valid
  split at valid
  · cases valid
  · exact Except.ok.inj valid

theorem pageFromAny_vaultPath {path : Text} (clean : Clean path) :
    vault.pageFromAny (vault.vaultPath path) = some path := by
  have whole : trimEndMd (trim (vault.vaultPath path)) = vault.directory ++ '/' :: path := by
    have trimmed : trim (vault.vaultPath path) = vault.directory ++ '/' :: path :=
      (trim_joined vault.directory_ne_nil clean.filled).mpr
        ⟨((trimmed_iff _).mp vault.directory_trimmed).1, ((trimmed_iff _).mp clean.trimmed).2⟩
    rw [trimmed]
    exact trimEndMd_unmarked fun marked => clean.unmarked (suffix_split (by decide) marked)
  obtain ⟨first, rest, text⟩ := List.exists_cons_of_ne_nil vault.directory_ne_nil
  have solid : first ≠ '/' := by
    rintro rfl
    exact vault.directory_solid (by rw [text]; simp)
  have unrooted : vault.stripRoot (vault.directory ++ '/' :: path) = none := by
    rw [text, List.cons_append, stripRoot]
    simpa using solid
  have start : trimStartSlashes (vault.directory ++ '/' :: path) = vault.directory ++ '/' :: path := by
    rw [trimStartSlashes, text, List.cons_append, List.dropWhile_cons_of_neg]
    simpa [isSlash] using solid
  have stripped : stripPrefix (vault.vaultPath []) (vault.directory ++ '/' :: path) = some path := by
    rw [stripPrefix_eq_some]
    simp [vaultPath]
  simp only [pageFromAny, whole, unrooted, start, stripped, clean.trimSlashes_eq]
  rw [nonEmpty, if_neg clean.filled]

theorem pageKey_clean {path : Text} (clean : Clean path) :
    vault.pageKey path =
      .ok (components vault.directory ++ splitSlash (path ++ extension)) := by
  rw [pageKey, clean.relMd_eq, Except.map, clean.components_eq]

def Outside (path : Text) : Prop := ∀ key, noteKey path = .ok key → ¬ vault.holds key

variable {vault} in
theorem outside_of_head {path : Text} (plain : vault.directory ≠ ['.']) (clean : Clean path)
    (away : (splitSlash path).head? ≠ some vault.directory) : vault.Outside path := by
  intro key named ⟨piece, rest, within⟩
  rw [clean.noteKey_eq, Except.ok.injEq] at named
  rw [components_directory vault plain, ← named, List.singleton_append] at within
  obtain ⟨front, last, whole, marked⟩ := splitSlash_extension path
  rw [marked] at within
  cases front with
  | nil =>
      have := (List.cons.inj within).2
      simp at this
  | cons first front =>
      rw [whole, List.cons_append, List.head?_cons] at away
      exact away (congrArg some (List.cons.inj within).1)

variable {vault} in
theorem outside_of_routed {path : Text} (plain : vault.directory ≠ ['.'])
    (clean : Clean (trimEndMd path)) (routed : vault.pageFromAny path = none) :
    vault.Outside (trimEndMd path) := by
  intro key named
  refine vault.noteKey_outside path key ?_ routed named
  rintro (here | dotted)
  · exact plain here
  · rw [clean.cleaned_eq] at dotted
    have := clean.pieces ['.'] (List.mem_of_mem_head? dotted)
    simp [isComponent] at this

def rowKey (row : KnowledgeEntity) : Except AppError FileKey :=
  match row.origin with
  | .internal => vault.pageKey row.path
  | .external => noteKey row.path

/-- Every path is one that the storage takes, routes back to itself, and has a file of its own. -/
structure OneToOne (db : Database) : Prop where
  storable : ∀ row ∈ db.entities, ∃ file, relMd row.path = .ok file
  routed : ∀ row ∈ db.entities, vault.pageFromAny (vault.vaultPath row.path) = some row.path
  apart : ∀ row ∈ db.entities, ∀ other ∈ db.entities, ∀ key, vault.rowKey row = .ok key →
    vault.rowKey other = .ok key → row = other

/-- Every row has a clean path of its own, and a note's leads out of the Memory directory. -/
structure CleanRows (db : Database) : Prop where
  unique : db.paths.Nodup
  clean : ∀ row ∈ db.entities, Clean row.path
  notes : ∀ row ∈ db.entities, row.origin = .external → vault.Outside row.path

theorem CleanRows.oneToOne {db : Database} (rows : vault.CleanRows db) : vault.OneToOne db where
  storable row member := ⟨_, (rows.clean row member).relMd_eq⟩
  routed row member := vault.pageFromAny_vaultPath (rows.clean row member)
  apart := by
    intro row member other member' key named named'
    have same (split : splitSlash (row.path ++ extension) = splitSlash (other.path ++ extension)) :
        row = other :=
      List.inj_on_of_nodup_map rows.unique member member'
        (List.append_cancel_right (splitSlash_inj split))
    unfold rowKey at named named'
    cases origin : row.origin with
    | internal =>
        cases origin' : other.origin with
        | internal =>
            simp only [origin, origin', vault.pageKey_clean (rows.clean row member),
              vault.pageKey_clean (rows.clean other member'), Except.ok.injEq] at named named'
            exact same (List.append_cancel_left (named.trans named'.symm))
        | external =>
            simp only [origin, origin'] at named named'
            exact absurd (vault.pageKey_holds row.path key named)
              (rows.notes other member' origin' key named')
    | external =>
        cases origin' : other.origin with
        | internal =>
            simp only [origin, origin'] at named named'
            exact absurd (vault.pageKey_holds other.path key named')
              (rows.notes row member origin key named)
        | external =>
            simp only [origin, origin', (rows.clean row member).noteKey_eq,
              (rows.clean other member').noteKey_eq, Except.ok.injEq] at named named'
            exact same (named.trans named'.symm)

end VaultScope

end Frona.Pkm
