import Frona.Pkm.Path

set_option autoImplicit false

namespace Frona.Ontology

open Frona.Text (isWhitespace trim)
open Utf8 (Text byteLength stripPrefix)

-- The longer namespaces come first.
def standardPrefixes : List (Text × Text) :=
  [("schema".toList, "https://schema.org/".toList),
    ("foaf".toList, "http://xmlns.com/foaf/0.1/".toList),
    ("skos".toList, "http://www.w3.org/2004/02/skos/core#".toList),
    ("dcterms".toList, "http://purl.org/dc/terms/".toList),
    ("kbpedia".toList, "http://kbpedia.org/kko/rc/".toList),
    ("kko".toList, "http://kbpedia.org/ontologies/kko#".toList),
    ("owl".toList, "http://www.w3.org/2002/07/owl#".toList),
    ("rdfs".toList, "http://www.w3.org/2000/01/rdf-schema#".toList),
    ("rdf".toList, "http://www.w3.org/1999/02/22-rdf-syntax-ns#".toList),
    ("xsd".toList, "http://www.w3.org/2001/XMLSchema#".toList),
    ("frona".toList, "urn:frona:".toList)]

def kbNamespace : Text := "urn:frona:kb:".toList

def defaultPrefixNs : Text := "urn:frona:".toList

def fronaPrefix : Text := "frona".toList

def schemeMark : Text := "://".toList

def urn : Text := "urn:".toList

-- A class is written UpperCamelCase, a property lowerCamelCase.
inductive TermKind where
  | ofClass
  | ofProperty

structure BadTerm where
  term : Text
  reason : Text
  deriving DecidableEq

structure PrefixMap where
  prefixes : List (Text × Text)

def PrefixMap.standard : PrefixMap := ⟨standardPrefixes⟩

/-- `split_once(':')`. -/
def splitColon : Text → Option (Text × Text)
  | [] => none
  | c :: rest =>
      if c = ':' then some ([], rest)
      else (splitColon rest).map fun (before, after) => (c :: before, after)

/-- `char::is_control`. -/
def isControl (c : Char) : Bool :=
  decide (c.toNat < 0x20) || decide (0x7F ≤ c.toNat ∧ c.toNat ≤ 0x9F)

def delimiters : Text := "<>\"\x7b\x7d|^`\\/".toList

def isIllegal (c : Char) : Bool := isWhitespace c || isControl c || decide (c ∈ delimiters)

namespace PrefixMap

variable (m : PrefixMap)

-- An unknown name before the colon is taken as part of a `frona` term.
def expand (curie : Text) : Text :=
  if schemeMark <:+: curie ∨ urn <+: curie then curie
  else match splitColon curie with
  | some (pfx, name) =>
      match m.prefixes.find? fun entry => entry.1 = pfx with
      | some (_, ns) => ns ++ name
      | none => defaultPrefixNs ++ curie
  | none => defaultPrefixNs ++ curie

def compact (iri : Text) : Option Text :=
  if kbNamespace <+: iri then none
  else m.prefixes.findSome? fun (pfx, ns) =>
    (stripPrefix ns iri).map fun name => pfx ++ ':' :: name

def prefixList : Text :=
  ", ".toList.intercalate (m.prefixes.map fun entry => entry.1 ++ [':'])

def IsBound (pfx : Text) : Prop := ∃ entry ∈ m.prefixes, entry.1 = pfx

instance (pfx : Text) : Decidable (m.IsBound pfx) :=
  inferInstanceAs (Decidable (∃ entry ∈ m.prefixes, entry.1 = pfx))

section Reasons

def isEmpty : Text := "it is empty".toList

def isPadded : Text := "it has leading or trailing whitespace".toList

def isFullIri : Text :=
  "it is a full IRI. Use a CURIE against one of the bound prefixes (".toList ++ m.prefixList ++
    (") — a term outside them cannot be abbreviated, so it can never be recognised as " ++
      "the same term as anything else").toList

def isBare : Text :=
  "it has no prefix. Every term is `prefix:LocalName`, with the prefix one of ".toList ++
    m.prefixList ++ " — a bare word is silently treated as a `frona:` mint".toList

def isUnbound (pfx t : Text) : Text :=
  "`".toList ++ pfx ++ ":` is not a bound prefix. Use one of ".toList ++ m.prefixList ++
    (" — an unknown prefix is not an error at expansion time, it silently becomes part of a " ++
      "`frona:` term, so `").toList ++ t ++
    "` would be minted as the bespoke term it looks like a typo for".toList

def hasNoName : Text := "it has a prefix but no local name after the colon".toList

def hasSecondColon : Text :=
  ("its local name contains a second colon. The local name is one word — `frona:kb:` in " ++
    "particular is the namespace for entities, not for terms").toList

def hasIllegal (c : Char) : Text :=
  "its local name contains ".toList ++
    (if isWhitespace c then "a space".toList else ['`', c, '`']) ++
    (". Join the words by capitalising instead (`firmwareVersion`, not `firmware version`) — " ++
      "a term written this way produces an identifier no parser can read back, which takes " ++
      "the whole schema with it").toList

def isForeignIri : Text :=
  ("it is an IRI in no bound namespace, so it has no CURIE. Use a term under one of ").toList ++
    m.prefixList ++ " instead".toList

def isGuess (pfx : Text) : Text :=
  "`".toList ++ pfx ++
    (":` is not a bound prefix, and guessing which one was meant would mint a different term " ++
      "than intended. Use one of ").toList ++ m.prefixList

def hasNoRepair : Text := "it has no local name to repair".toList

end Reasons

def validateTerm (curie : Text) : Except BadTerm Unit :=
  let t := trim curie
  if t = [] then .error ⟨curie, isEmpty⟩
  else if byteLength t ≠ byteLength curie then .error ⟨curie, isPadded⟩
  else if schemeMark <:+: t then .error ⟨curie, m.isFullIri⟩
  else match splitColon t with
  | none => .error ⟨curie, m.isBare⟩
  | some (pfx, name) =>
      if ¬ m.IsBound pfx then .error ⟨curie, m.isUnbound pfx t⟩
      else if name = [] then .error ⟨curie, hasNoName⟩
      else if ':' ∈ name then .error ⟨curie, hasSecondColon⟩
      else match name.find? isIllegal with
      | some c => .error ⟨curie, hasIllegal c⟩
      | none => .ok ()

section Repair

-- `to_upper_camel_case` and `to_lower_camel_case`
variable (upperCamel lowerCamel : Text → Text)

/-- The name of a `frona` term in the style of its kind. -/
def restyle (kind : TermKind) (name : Text) : Text :=
  match kind with
  | .ofClass => upperCamel name
  | .ofProperty => lowerCamel name

def repairIri (raw t : Text) : Except BadTerm Text :=
  if schemeMark <:+: t ∨ urn <+: t then
    match m.compact t with
    | none => .error ⟨raw, m.isForeignIri⟩
    | some compacted => .ok compacted
  else .ok t

-- Only the names of our own namespace are restyled.
def repairTerm (raw : Text) (kind : TermKind) : Except BadTerm Text :=
  if trim raw = [] then .error ⟨raw, isEmpty⟩
  else match m.repairIri raw (trim raw) with
  | .error bad => .error bad
  | .ok t =>
      let (pfx, name) := (splitColon t).getD (fronaPrefix, t)
      if ¬ m.IsBound pfx then .error ⟨raw, m.isGuess pfx⟩
      else if pfx ≠ fronaPrefix then
        match m.validateTerm t with
        | .error bad => .error bad
        | .ok () => .ok t
      else
        let styled := restyle upperCamel lowerCamel kind name
        if styled = [] then .error ⟨raw, hasNoRepair⟩
        else
          let out := fronaPrefix ++ ':' :: styled
          match m.validateTerm out with
          | .error bad => .error bad
          | .ok () => .ok out

end Repair

end PrefixMap

end Frona.Ontology
