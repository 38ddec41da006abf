import Frona.Machine.Lists
import Frona.Ontology.Prefixes

set_option autoImplicit false

namespace Frona.Ontology

open Frona.Text (isWhitespace trim)
open Utf8 (Text byteLength stripPrefix stripPrefix_eq_some)

section SplitColon

theorem splitColon_append (before after : Text) (plain : ':' ∉ before) :
    splitColon (before ++ ':' :: after) = some (before, after) := by
  induction before with
  | nil => simp [splitColon]
  | cons c rest ih =>
      simp only [List.mem_cons, not_or] at plain
      simp [splitColon, ih plain.2, Ne.symm plain.1]

theorem splitColon_eq_some (text before after : Text) :
    splitColon text = some (before, after) ↔ text = before ++ ':' :: after ∧ ':' ∉ before := by
  constructor
  · intro found
    induction text generalizing before with
    | nil => simp [splitColon] at found
    | cons c rest ih =>
        unfold splitColon at found
        split at found
        next colon =>
          simp only [Option.some.injEq, Prod.mk.injEq] at found
          simp [← found.1, ← found.2, colon]
        next other =>
          cases split : splitColon rest with
          | none => simp [split] at found
          | some parts =>
              simp only [split, Option.map_some, Option.some.injEq, Prod.mk.injEq] at found
              obtain ⟨same, plain⟩ := ih parts.1 (by rw [split, ← found.2])
              simp [← found.1, same, plain, Ne.symm other]
  · rintro ⟨rfl, plain⟩
    exact splitColon_append before after plain

end SplitColon

section Trimmed

theorem trim_infix (text : Text) : trim text <:+: text := by
  have back := List.dropWhile_suffix isWhitespace (l := (text.dropWhile isWhitespace).reverse)
  have front : trim text <+: text.dropWhile isWhitespace := by
    rw [← List.reverse_suffix, trim, List.reverse_reverse]
    exact back
  exact front.isInfix.trans (List.dropWhile_suffix _).isInfix

theorem trim_of_byteLength (text : Text) (same : byteLength (trim text) = byteLength text) :
    trim text = text := by
  obtain ⟨before, after, parts⟩ := trim_infix text
  have none_left : byteLength before = 0 ∧ byteLength after = 0 := by
    rw [← congrArg byteLength parts] at same
    simp only [Utf8.byteLength_append] at same
    omega
  simp only [Utf8.byteLength_eq_zero] at none_left
  rw [none_left.1, none_left.2] at parts
  simpa using parts

end Trimmed

structure PrefixMap.Separated (m : PrefixMap) : Prop where
  names : (m.prefixes.map Prod.fst).Nodup
  absolute : ¬ m.IsBound ['u', 'r', 'n']
  apart : ∀ entry ∈ m.prefixes, ∀ other ∈ m.prefixes, entry.2 <+: other.2 → entry = other
  entities : ∀ entry ∈ m.prefixes,
    ¬ kbNamespace <+: entry.2 ∧ (entry.2 <+: kbNamespace → ':' ∈ kbNamespace.drop entry.2.length)

-- Each literal is rewritten to its characters: evaluated as a `String`, it would be decoded.
theorem standard_separated : PrefixMap.standard.Separated := by
  constructor
  next =>
    unfold PrefixMap.standard standardPrefixes
    repeat rw [String.toList_ofList]
    decide +kernel
  next =>
    unfold PrefixMap.IsBound PrefixMap.standard standardPrefixes
    repeat rw [String.toList_ofList]
    decide +kernel
  next =>
    unfold PrefixMap.standard standardPrefixes
    repeat rw [String.toList_ofList]
    decide +kernel
  next =>
    unfold PrefixMap.standard standardPrefixes kbNamespace
    repeat rw [String.toList_ofList]
    decide +kernel

structure PrefixMap.Term (m : PrefixMap) (pfx name : Text) : Prop where
  bound : m.IsBound pfx
  prefixed : ':' ∉ pfx
  solid : name ≠ []
  single : ':' ∉ name
  legal : ∀ c ∈ name, isIllegal c = false
  trimmed : trim (pfx ++ ':' :: name) = pfx ++ ':' :: name
  relative : ¬ schemeMark <:+: pfx ++ ':' :: name

theorem validateTerm_ok (m : PrefixMap) (curie : Text) :
    m.validateTerm curie = .ok () ↔
      ∃ pfx name, curie = pfx ++ ':' :: name ∧ m.Term pfx name := by
  constructor
  · intro valid
    simp only [PrefixMap.validateTerm] at valid
    split at valid
    next => simp at valid
    split at valid
    next => simp at valid
    next same =>
    have trimmed := trim_of_byteLength curie (not_not.mp same)
    rw [trimmed] at valid
    split at valid
    next => simp at valid
    next relative =>
    split at valid
    next => simp at valid
    next pfx name found =>
    obtain ⟨rfl, plain⟩ := (splitColon_eq_some _ _ _).mp found
    split at valid
    next => simp at valid
    next bound =>
    split at valid
    next => simp at valid
    next solid =>
    split at valid
    next => simp at valid
    next single =>
    split at valid
    next => simp at valid
    next legal =>
    exact ⟨pfx, name, rfl, not_not.mp bound, plain, solid, single, by simpa using legal, trimmed,
      relative⟩
  · rintro ⟨pfx, name, rfl, term⟩
    have legal : name.find? isIllegal = none := by simpa using term.legal
    simp [PrefixMap.validateTerm, term.trimmed, term.relative,
      splitColon_append pfx name term.prefixed, term.bound, term.solid, term.single, legal]

example : PrefixMap.standard.validateTerm ['s', 'c', 'h', 'e', 'm', 'a', ':', 'a'] = .ok () := by
  decide +kernel

section RoundTrip

variable {m : PrefixMap} {pfx ns name : Text}

theorem PrefixMap.Term.not_urn (separated : m.Separated) (term : m.Term pfx name) :
    ¬ urn <+: pfx ++ ':' :: name := by
  intro starts
  obtain ⟨rest, same⟩ := starts
  have split := splitColon_append pfx name term.prefixed
  rw [← same] at split
  have first : splitColon (urn ++ rest) = some (['u', 'r', 'n'], rest) := rfl
  rw [first] at split
  simp only [Option.some.injEq, Prod.mk.injEq] at split
  exact separated.absolute (split.1 ▸ term.bound)

theorem expand_term (separated : m.Separated) (member : (pfx, ns) ∈ m.prefixes)
    (term : m.Term pfx name) : m.expand (pfx ++ ':' :: name) = ns ++ name := by
  rw [PrefixMap.expand, if_neg (not_or.mpr ⟨term.relative, term.not_urn separated⟩),
    splitColon_append pfx name term.prefixed]
  simp only [Machine.find_key Prod.fst separated.names (pfx, ns) member]

-- A term is no entity, since its name has no colon.
theorem not_entity (separated : m.Separated) (member : (pfx, ns) ∈ m.prefixes)
    (single : ':' ∉ name) : ¬ kbNamespace <+: ns ++ name := by
  intro entity
  obtain ⟨longer, within⟩ := separated.entities _ member
  cases List.prefix_or_prefix_of_prefix entity (List.prefix_append ns name) with
  | inl inside => exact longer inside
  | inr outside =>
      obtain ⟨rest, split⟩ := outside
      have colon := within ⟨rest, split⟩
      rw [← split] at entity colon
      rw [List.prefix_append_right_inj] at entity
      exact single (entity.subset (by simpa using colon))

theorem compact_name (separated : m.Separated) (member : (pfx, ns) ∈ m.prefixes)
    (single : ':' ∉ name) : m.compact (ns ++ name) = some (pfx ++ ':' :: name) := by
  rw [PrefixMap.compact, if_neg (not_entity separated member single)]
  have stripped : stripPrefix ns (ns ++ name) = some name := (stripPrefix_eq_some _ _ _).mpr rfl
  change m.prefixes.findSome? (fun entry =>
    (stripPrefix entry.2 (ns ++ name)).map fun name => entry.1 ++ ':' :: name) = _
  cases found : m.prefixes.findSome? fun entry =>
      (stripPrefix entry.2 (ns ++ name)).map fun name => entry.1 ++ ':' :: name with
  | none =>
      rw [List.findSome?_eq_none_iff] at found
      simpa [stripped] using found _ member
  | some compacted =>
      obtain ⟨entry, listed, matched⟩ := List.exists_of_findSome?_eq_some found
      simp only [Option.map_eq_some_iff, stripPrefix_eq_some] at matched
      obtain ⟨name', same, rfl⟩ := matched
      -- Both namespaces begin the identifier, so one begins the other.
      have begins : entry.2 <+: ns ++ name := ⟨name', same.symm⟩
      obtain rfl : entry = (pfx, ns) := by
        cases List.prefix_or_prefix_of_prefix begins (List.prefix_append ns name) with
        | inl shorter => exact separated.apart _ listed _ member shorter
        | inr longer => exact (separated.apart _ member _ listed longer).symm
      rw [List.append_cancel_left same]

theorem compact_expand (separated : m.Separated) (curie : Text)
    (valid : m.validateTerm curie = .ok ()) : m.compact (m.expand curie) = some curie := by
  obtain ⟨pfx, name, rfl, term⟩ := (validateTerm_ok m curie).mp valid
  obtain ⟨entry, member, rfl⟩ := term.bound
  rw [expand_term separated member term, compact_name separated member term.single]

end RoundTrip

section Repair

variable {m : PrefixMap} (upperCamel lowerCamel : Text → Text) (kind : TermKind)

theorem repairTerm_term (separated : m.Separated) (pfx name : Text) (term : m.Term pfx name)
    (styled : pfx = fronaPrefix → PrefixMap.restyle upperCamel lowerCamel kind name = name) :
    m.repairTerm upperCamel lowerCamel (pfx ++ ':' :: name) kind = .ok (pfx ++ ':' :: name) := by
  have valid : m.validateTerm (pfx ++ ':' :: name) = .ok () :=
    (validateTerm_ok m _).mpr ⟨pfx, name, rfl, term⟩
  have written : ¬ (schemeMark <:+: pfx ++ ':' :: name ∨ urn <+: pfx ++ ':' :: name) :=
    not_or.mpr ⟨term.relative, term.not_urn separated⟩
  have parts := splitColon_append pfx name term.prefixed
  by_cases ours : pfx = fronaPrefix
  · obtain rfl := ours
    have solid := term.solid
    simp [PrefixMap.repairTerm, term.trimmed, PrefixMap.repairIri, written, parts, term.bound,
      styled rfl, solid, valid]
  · simp [PrefixMap.repairTerm, term.trimmed, PrefixMap.repairIri, written, parts, term.bound, ours,
      valid]

-- Either the term was only checked, or its name was restyled and checked then.
theorem repairTerm_ok (raw out : Text)
    (repaired : m.repairTerm upperCamel lowerCamel raw kind = .ok out) :
    m.validateTerm out = .ok () ∧ ∃ pfx name, splitColon out = some (pfx, name) ∧
      (pfx = fronaPrefix → ∃ given, name = PrefixMap.restyle upperCamel lowerCamel kind given) := by
  unfold PrefixMap.repairTerm at repaired
  split at repaired
  next => simp at repaired
  split at repaired
  next => simp at repaired
  next t _ =>
  dsimp only at repaired
  split at repaired
  next => simp at repaired
  split at repaired
  next foreign =>
      split at repaired
      next => simp at repaired
      next valid =>
      obtain rfl : t = out := by simpa using repaired
      obtain ⟨pfx, name, rfl, term⟩ := (validateTerm_ok m t).mp valid
      have parts := splitColon_append pfx name term.prefixed
      rw [parts] at foreign
      exact ⟨valid, pfx, name, parts, fun ours => absurd ours foreign⟩
  next =>
      split at repaired
      next => simp at repaired
      split at repaired
      next => simp at repaired
      next valid =>
      simp only [Except.ok.injEq] at repaired
      rw [← repaired]
      exact ⟨valid, _, _, splitColon_append _ _ (by decide), fun _ => ⟨_, rfl⟩⟩

example : (PrefixMap.standard.repairTerm id id [' ', 's', 'c', 'h', 'e', 'm', 'a', ':', 'a']
    .ofClass).map PrefixMap.standard.validateTerm = .ok (.ok ()) := by
  decide +kernel

variable (upper_again : ∀ text, upperCamel (upperCamel text) = upperCamel text)
  (lower_again : ∀ text, lowerCamel (lowerCamel text) = lowerCamel text)

include upper_again lower_again in
theorem restyle_again (name : Text) :
    PrefixMap.restyle upperCamel lowerCamel kind
        (PrefixMap.restyle upperCamel lowerCamel kind name) =
      PrefixMap.restyle upperCamel lowerCamel kind name := by
  cases kind with
  | ofClass => exact upper_again name
  | ofProperty => exact lower_again name

include upper_again lower_again in
theorem repairTerm_again (separated : m.Separated) (raw out : Text)
    (repaired : m.repairTerm upperCamel lowerCamel raw kind = .ok out) :
    m.repairTerm upperCamel lowerCamel out kind = .ok out := by
  obtain ⟨valid, pfx, name, parts, styled⟩ :=
    repairTerm_ok upperCamel lowerCamel kind raw out repaired
  obtain ⟨pfx', name', rfl, term⟩ := (validateTerm_ok m out).mp valid
  rw [splitColon_append pfx' name' term.prefixed] at parts
  simp only [Option.some.injEq, Prod.mk.injEq] at parts
  obtain ⟨rfl, rfl⟩ := parts
  apply repairTerm_term upperCamel lowerCamel kind separated pfx' name' term
  intro ours
  obtain ⟨given, same⟩ := styled ours
  rw [same]
  exact restyle_again upperCamel lowerCamel kind upper_again lower_again given

end Repair

/-- Valid terms come back from their identifiers; a repaired term is valid and stays as it is. -/
theorem terms_round_trip (upperCamel lowerCamel : Text → Text)
    (upper_again : ∀ text, upperCamel (upperCamel text) = upperCamel text)
    (lower_again : ∀ text, lowerCamel (lowerCamel text) = lowerCamel text) :
    (∀ curie, PrefixMap.standard.validateTerm curie = .ok () →
      PrefixMap.standard.compact (PrefixMap.standard.expand curie) = some curie) ∧
    ∀ raw kind out, PrefixMap.standard.repairTerm upperCamel lowerCamel raw kind = .ok out →
      PrefixMap.standard.validateTerm out = .ok () ∧
        PrefixMap.standard.repairTerm upperCamel lowerCamel out kind = .ok out := by
  constructor
  · exact fun curie valid => compact_expand standard_separated curie valid
  · intro raw kind out repaired
    constructor
    · exact (repairTerm_ok upperCamel lowerCamel kind raw out repaired).1
    · exact repairTerm_again upperCamel lowerCamel kind upper_again lower_again standard_separated
        raw out repaired

section Styles

def camelFrom (starts : Bool) : Text → Text
  | [] => []
  | c :: rest =>
      if c.isAlphanum then (if starts then c.toUpper else c) :: camelFrom false rest
      else camelFrom true rest

def upperWords (text : Text) : Text := camelFrom true text

def lowerWords (text : Text) : Text :=
  match camelFrom true text with
  | [] => []
  | c :: rest => c.toLower :: rest

theorem lt_of_isAlphanum (c : Char) (plain : c.isAlphanum = true) : c.toNat < 128 := by
  delta Char.isAlphanum Char.isAlpha Char.isUpper Char.isLower Char.isDigit at plain
  simp only [Bool.or_eq_true, Bool.and_eq_true, decide_eq_true_eq,
    UInt32.le_iff_toNat_le] at plain
  simp only [Char.reduceVal, UInt32.reduceToNat] at plain
  change c.val.toNat < 128
  omega

theorem of_isAlphanum {P : Char → Prop}
    (ascii : ∀ n < 128, (Char.ofNat n).isAlphanum = true → P (Char.ofNat n)) (c : Char)
    (plain : c.isAlphanum = true) : P c := by
  have here := ascii c.toNat (lt_of_isAlphanum c plain)
  rw [Char.ofNat_toNat] at here
  exact here plain

theorem isAlphanum_toUpper :
    ∀ c : Char, c.isAlphanum = true → c.toUpper.isAlphanum = true ∧ c.toUpper.toUpper = c.toUpper :=
  of_isAlphanum (by decide +kernel)

theorem isAlphanum_toLower :
    ∀ c : Char, c.isAlphanum = true → c.toLower.isAlphanum = true ∧
      c.toLower.toUpper.toLower = c.toLower :=
  of_isAlphanum (by decide +kernel)

theorem camelFrom_isAlphanum (starts : Bool) (text : Text) :
    ∀ c ∈ camelFrom starts text, c.isAlphanum = true := by
  induction text generalizing starts with
  | nil => simp [camelFrom]
  | cons c rest ih =>
      rw [camelFrom]
      split
      next plain =>
          rintro c' (_ | ⟨_, later⟩)
          · cases starts with
            | true => exact (isAlphanum_toUpper c plain).1
            | false => exact plain
          · exact ih false c' later
      next => exact ih true

theorem camelFrom_false (text : Text) (plain : ∀ c ∈ text, c.isAlphanum = true) :
    camelFrom false text = text := by
  induction text with
  | nil => rfl
  | cons c rest ih =>
      simp only [List.forall_mem_cons] at plain
      simp [camelFrom, plain.1, ih plain.2]

theorem camelFrom_true (c : Char) (rest : Text)
    (plain : ∀ c' ∈ c :: rest, c'.isAlphanum = true) :
    camelFrom true (c :: rest) = c.toUpper :: rest := by
  simp only [List.forall_mem_cons] at plain
  simp [camelFrom, plain.1, camelFrom_false rest plain.2]

example : camelFrom true ['a', 'b'] = ['A', 'b'] := by decide +kernel

theorem camelFrom_starts (text : Text) :
    camelFrom true text = [] ∨ ∃ (c : Char) (rest : Text),
      c.isAlphanum = true ∧ camelFrom true text = c.toUpper :: rest := by
  induction text with
  | nil => exact Or.inl rfl
  | cons c rest ih =>
      rw [camelFrom]
      split
      next plain => exact Or.inr ⟨c, _, plain, rfl⟩
      next => exact ih

theorem upperWords_again (text : Text) : upperWords (upperWords text) = upperWords text := by
  have plain := camelFrom_isAlphanum true text
  unfold upperWords
  cases camelFrom_starts text with
  | inl empty => rw [empty]; rfl
  | inr starts =>
      obtain ⟨c, rest, letter, starts⟩ := starts
      rw [starts] at plain ⊢
      rw [camelFrom_true _ rest plain, (isAlphanum_toUpper c letter).2]

example : upperWords (upperWords ['a', ' ', 'b']) = ['A', 'B'] := by decide +kernel

theorem lowerWords_again (text : Text) : lowerWords (lowerWords text) = lowerWords text := by
  have plain := camelFrom_isAlphanum true text
  unfold lowerWords
  cases words : camelFrom true text with
  | nil => rfl
  | cons c rest =>
      rw [words, List.forall_mem_cons] at plain
      dsimp only
      rw [camelFrom_true]
      · simp only [(isAlphanum_toLower c plain.1).2]
      · exact List.forall_mem_cons.mpr ⟨(isAlphanum_toLower c plain.1).1, plain.2⟩

example : lowerWords (lowerWords ['A', ' ', 'b']) = ['a', 'B'] := by decide +kernel

theorem terms_round_trip_words :
    PrefixMap.standard.repairTerm upperWords lowerWords "support_email".toList .ofProperty =
        .ok "frona:supportEmail".toList ∧
      PrefixMap.standard.validateTerm "frona:supportEmail".toList = .ok () ∧
      PrefixMap.standard.repairTerm upperWords lowerWords "frona:supportEmail".toList .ofProperty =
        .ok "frona:supportEmail".toList := by
  have repaired : PrefixMap.standard.repairTerm upperWords lowerWords "support_email".toList
      .ofProperty = .ok "frona:supportEmail".toList := by decide +kernel
  exact ⟨repaired, (terms_round_trip upperWords lowerWords upperWords_again lowerWords_again).2
    _ _ _ repaired⟩

end Styles

end Frona.Ontology
