import Frona.Config.Document
import Frona.Consolidate.AttributeValues
import Frona.Ontology.Prefixes
import Mathlib.Data.Finset.Sort
import Mathlib.Data.List.Lex
import Mathlib.Data.Char

set_option autoImplicit false

namespace Frona.Resolve.Identity

open Frona.Chat (Json)
open Frona.Config (get)
open Frona.Ontology (PrefixMap)
open Frona.Text (trim)
open Utf8 (Text)

section Entities

/-- The letters and digits of Unicode with their lower case, and how JSON is read. -/
structure Library where
  isAlphanumeric : Char → Bool
  toLowercase : Text → Text
  fromStr : Text → Option Json

structure KnowledgeConsolidationEntity where
  path : Text
  name : Text
  aliases : Finset Text
  kinds : List Text
  searchAssertions : List Text

structure EntityHit where
  path : Text
  name : Text
  aliases : Finset Text
  kinds : List Text
  searchAssertions : List Text

def KnowledgeConsolidationEntity.hit (entity : KnowledgeConsolidationEntity) : EntityHit :=
  ⟨entity.path, entity.name, entity.aliases, entity.kinds, entity.searchAssertions⟩

structure HasKeyMarker where
  className : Text
  properties : List Text

variable (lib : Library)

def normalizeIdentityName (value : Text) : Text :=
  Json.joinWith [' '] (((value.splitOnP fun c => !lib.isAlphanumeric c).filter (· ≠ [])).map
    lib.toLowercase)

def names (name : Text) (aliases : Finset Text) : Finset Text :=
  ((insert name aliases).image (normalizeIdentityName lib)).filter (· ≠ [])

structure AssertionValues where
  attributes : Text → Finset Text := fun _ => ∅
  relations : Text → Finset Text := fun _ => ∅

def asStr : Json → Option Text
  | .string text => some text
  | _ => none

def asArray : Json → Option (List Json)
  | .array items => some items
  | _ => none

def asObject : Json → Option (List (Text × Json))
  | .object fields => some fields
  | _ => none

def insertValue (property value : Text) (values : Text → Finset Text) : Text → Finset Text :=
  Function.update values property (insert value (values property))

def AssertionValues.read (out : AssertionValues) (assertion : Text) : AssertionValues :=
  match lib.fromStr assertion with
  | some (.array parts) =>
      match (parts[0]?).bind asStr, (parts[1]?).bind asStr, parts[2]? with
      | some kind, some property, some value =>
          let value := match value with
            | .string value => normalizeIdentityName lib value
            | value => value.render
          if value = [] then out
          else if kind = "attribute".toList then
            { out with attributes := insertValue property value out.attributes }
          else if kind = "relation".toList then
            { out with relations := insertValue property value out.relations }
          else out
      | _, _, _ => out
  | _ => out

def AssertionValues.fromSerialized (assertions : List Text) : AssertionValues :=
  assertions.foldl (AssertionValues.read lib) {}

def AssertionValues.all (values : AssertionValues) (property : Text) : Finset Text :=
  values.attributes property ∪ values.relations property

def HasKeyMarker.trimmed (key : HasKeyMarker) : List Text :=
  (key.properties.map trim).filter (· ≠ [])

def hasClass (prefixes : PrefixMap) (kinds : List Text) (className : Text) : Bool :=
  kinds.any fun kind => prefixes.expand kind == prefixes.expand className

end Entities

section Matches

inductive IdentityMatch where
  | hasKey (className : Text) (properties : List (Text × List Text))
  | inverseFunctional (property : Text) (targets : List Text)
  deriving DecidableEq

def compareProperty (a b : Text × List Text) : Ordering :=
  (compare a.1 b.1).then (compare a.2 b.2)

def IdentityMatch.compare : IdentityMatch → IdentityMatch → Ordering
  | .hasKey a properties, .hasKey b others =>
      (Ord.compare a b).then (List.compareLex compareProperty properties others)
  | .hasKey _ _, .inverseFunctional _ _ => .lt
  | .inverseFunctional _ _, .hasKey _ _ => .gt
  | .inverseFunctional a targets, .inverseFunctional b others =>
      (Ord.compare a b).then (Ord.compare targets others)

def sortMatches (found : List IdentityMatch) : List IdentityMatch :=
  found.mergeSort fun a b => a.compare b != .gt

def sharedProperties (shared : Text → Finset Text) : List Text → Finset Text → Finset Text
  | [], found => found
  | property :: rest, found =>
      if shared property = ∅ then ∅
      else sharedProperties shared rest (insert property found)

variable (lib : Library) (keys : List HasKeyMarker) (inverse : Finset Text) (prefixes : PrefixMap)

def keyMatch (ourKinds theirKinds : List Text) (ours theirs : AssertionValues)
    (key : HasKeyMarker) : Option IdentityMatch :=
  if !hasClass prefixes ourKinds key.className || !hasClass prefixes theirKinds key.className then
    none
  else
    let shared property := ours.all property ∩ theirs.all property
    let properties := sharedProperties shared key.trimmed ∅
    if properties = ∅ then none
    else some (.hasKey key.className
      (properties.sort.map fun property => (property, (shared property).sort)))

def inverseMatch (ours theirs : AssertionValues) (property : Text) : Option IdentityMatch :=
  let targets := ours.relations property ∩ theirs.relations property
  if targets = ∅ then none else some (.inverseFunctional property targets.sort)

def identityMatches (subject : KnowledgeConsolidationEntity) (candidate : EntityHit) :
    List IdentityMatch :=
  let ours := AssertionValues.fromSerialized lib subject.searchAssertions
  let theirs := AssertionValues.fromSerialized lib candidate.searchAssertions
  (sortMatches
    (keys.filterMap (keyMatch prefixes subject.kinds candidate.kinds ours theirs) ++
      inverse.sort.filterMap (inverseMatch ours theirs))).dedup

end Matches

section Documents

def pathKey : Text := "path".toList
def namesKey : Text := "names".toList
def classesKey : Text := "classes".toList
def hasKeysKey : Text := "has_keys".toList
def inverseKey : Text := "inverse_functional_properties".toList
def entitiesKey : Text := "entities".toList
def matchesKey : Text := "identity_matches".toList
def kindKey : Text := "kind".toList
def classKey : Text := "class".toList
def propertiesKey : Text := "properties".toList
def propertyKey : Text := "property".toList
def targetsKey : Text := "targets".toList
def hasKeyKind : Text := "has_key".toList
def inverseKind : Text := "inverse_functional".toList

def strings (texts : List Text) : Json := .array (texts.map Json.string)

def propertiesDocument (properties : List (Text × List Text)) : Json :=
  .object (properties.map fun entry => (entry.1, strings entry.2))

def entityDocument (path : Text) (names classes : Finset Text) : Json :=
  .object [(pathKey, .string path), (namesKey, strings names.sort),
    (classesKey, strings classes.sort)]

def IdentityMatch.document : IdentityMatch → Json
  | .hasKey className properties =>
      .object [(kindKey, .string hasKeyKind), (classKey, .string className),
        (propertiesKey, propertiesDocument properties)]
  | .inverseFunctional property targets =>
      .object [(kindKey, .string inverseKind), (propertyKey, .string property),
        (targetsKey, strings targets)]

variable (lib : Library)

-- A stable sort of the two by their paths.
def pairEntities (subject : KnowledgeConsolidationEntity) (candidate : EntityHit) : List Json :=
  let first := entityDocument subject.path (names lib subject.name subject.aliases)
    subject.kinds.toFinset
  let second := entityDocument candidate.path (names lib candidate.name candidate.aliases)
    candidate.kinds.toFinset
  if candidate.path < subject.path then [second, first] else [first, second]

def pairDocument (subject : KnowledgeConsolidationEntity) (candidate : EntityHit)
    (found : List IdentityMatch) : Json :=
  .object [(entitiesKey, .array (pairEntities lib subject candidate)),
    (matchesKey, .array ((sortMatches found).map IdentityMatch.document))]

def resolutionPairFingerprint (subject : KnowledgeConsolidationEntity) (candidate : EntityHit)
    (found : List IdentityMatch) : Text :=
  (pairDocument lib subject candidate found).render

def keyDocument (values : AssertionValues) (key : HasKeyMarker) : Json :=
  .object [(classKey, .string key.className),
    (propertiesKey, propertiesDocument
      (key.trimmed.toFinset.sort.map fun property => (property, (values.all property).sort)))]

variable (keys : List HasKeyMarker) (inverse : Finset Text) (prefixes : PrefixMap)

def identityDocument (entity : KnowledgeConsolidationEntity) : Json :=
  let values := AssertionValues.fromSerialized lib entity.searchAssertions
  let keyValues := (keys.filter fun key => hasClass prefixes entity.kinds key.className).map
    (keyDocument values)
  .object [(pathKey, .string entity.path),
    (namesKey, strings (names lib entity.name entity.aliases).sort),
    (classesKey, strings entity.kinds.toFinset.sort),
    (hasKeysKey, .array (keyValues.mergeSort fun a b => decide (a.render ≤ b.render))),
    (inverseKey, propertiesDocument
      (inverse.sort.map fun property => (property, (values.relations property).sort)))]

def resolutionIdentityFingerprint (entity : KnowledgeConsolidationEntity) : Text :=
  (identityDocument lib keys inverse prefixes entity).render

end Documents

section Judgment

def textAt (key : Text) (value : Json) : Text := ((get key value).bind asStr).getD []

def itemsAt (key : Text) (value : Json) : List Json := ((get key value).bind asArray).getD []

def fieldsAt (key : Text) (value : Json) : List (Text × Json) :=
  ((get key value).bind asObject).getD []

def matchAtoms (matched : Json) : List Text :=
  let kind := textAt kindKey matched
  if kind = hasKeyKind then
    (fieldsAt propertiesKey matched).flatMap fun (property, values) =>
      ((asArray values).getD []).map fun value =>
        (Json.array [.string kind, .string (textAt classKey matched), .string property,
          value]).render
  else if kind = inverseKind then
    (itemsAt targetsKey matched).map fun target =>
      (Json.array [.string kind, .string (textAt propertyKey matched), target]).render
  else []

def atoms (value : Json) : Finset Text := ((itemsAt matchesKey value).flatMap matchAtoms).toFinset

def pairChangeRequiresJudgment (lib : Library) (old : Option Text) (new : Text) : Bool :=
  match old with
  | none => true
  | some old =>
      if old = new then false
      else match lib.fromStr old, lib.fromStr new with
      | some old, some new =>
          if get entitiesKey old ≠ get entitiesKey new then true
          else decide ((atoms new \ atoms old).Nonempty)
      | _, _ => true

end Judgment

section Specification

variable (lib : Library) (keys : List HasKeyMarker) (inverse : Finset Text) (prefixes : PrefixMap)

def valuesOf (entity : KnowledgeConsolidationEntity) : AssertionValues :=
  .fromSerialized lib entity.searchAssertions

def pairFingerprint (a b : KnowledgeConsolidationEntity) : Text :=
  resolutionPairFingerprint lib a b.hit (identityMatches lib keys inverse prefixes a b.hit)

/-- What is read from the fingerprint of a pair is what was written. -/
def ReadsBack : Prop :=
  ∀ a b read, lib.fromStr (pairFingerprint lib keys inverse prefixes a b) = some read →
    read = pairDocument lib a b.hit (identityMatches lib keys inverse prefixes a b.hit)

inductive SharedValue where
  | hasKey (className property value : Text)
  | inverseFunctional (property target : Text)

def Shares (a b : KnowledgeConsolidationEntity) : SharedValue → Prop
  | .hasKey className property value =>
      ∃ key ∈ keys, key.className = className ∧ hasClass prefixes a.kinds key.className = true ∧
        hasClass prefixes b.kinds key.className = true ∧ property ∈ key.trimmed ∧
        value ∈ (valuesOf lib a).all property ∩ (valuesOf lib b).all property ∧
        ∀ other ∈ key.trimmed,
          ((valuesOf lib a).all other ∩ (valuesOf lib b).all other).Nonempty
  | .inverseFunctional property target =>
      property ∈ inverse ∧
        target ∈ (valuesOf lib a).relations property ∩ (valuesOf lib b).relations property

def Renamed (old new : KnowledgeConsolidationEntity) : Prop :=
  names lib old.name old.aliases ≠ names lib new.name new.aliases ∨
    old.kinds.toFinset ≠ new.kinds.toFinset

structure Versions (a b a' b' : KnowledgeConsolidationEntity) : Prop where
  subject : a'.path = a.path
  candidate : b'.path = b.path

structure Sufficient : Prop where
  matches_ : ∀ a b a' b', resolutionIdentityFingerprint lib keys inverse prefixes a =
      resolutionIdentityFingerprint lib keys inverse prefixes a' →
    resolutionIdentityFingerprint lib keys inverse prefixes b =
      resolutionIdentityFingerprint lib keys inverse prefixes b' →
    identityMatches lib keys inverse prefixes a b.hit =
        identityMatches lib keys inverse prefixes a' b'.hit ∧
      pairFingerprint lib keys inverse prefixes a b =
        pairFingerprint lib keys inverse prefixes a' b' ∧
      pairChangeRequiresJudgment lib (some (pairFingerprint lib keys inverse prefixes a b))
        (pairFingerprint lib keys inverse prefixes a' b') = false
  symmetric : ∀ a b : KnowledgeConsolidationEntity, a.path ≠ b.path →
    identityMatches lib keys inverse prefixes a b.hit =
        identityMatches lib keys inverse prefixes b a.hit ∧
      pairFingerprint lib keys inverse prefixes a b = pairFingerprint lib keys inverse prefixes b a
  asks : ∀ a b a' b', Versions a b a' b' →
    (Renamed lib a a' ∨ Renamed lib b b' ∨
      ∃ value, Shares lib keys inverse prefixes a' b' value ∧
        ¬ Shares lib keys inverse prefixes a b value) →
    pairChangeRequiresJudgment lib (some (pairFingerprint lib keys inverse prefixes a b))
      (pairFingerprint lib keys inverse prefixes a' b') = true

end Specification

section Writing

def hexValue (c : Char) : Nat := if c.toNat ≤ 57 then c.toNat - 48 else c.toNat - 87

def unescaped (c : Char) : Char :=
  if c = 'n' then '\n' else if c = 'r' then '\r' else if c = 't' then '\t'
  else if c = 'b' then Char.ofNat 8 else if c = 'f' then Char.ofNat 12 else c

def readChar : Text → Option (Char × Text)
  | '\\' :: 'u' :: '0' :: '0' :: high :: low :: rest =>
      some (Char.ofNat (hexValue high * 16 + hexValue low), rest)
  | '\\' :: c :: rest => some (unescaped c, rest)
  | c :: rest => if c = '"' then none else some (c, rest)
  | [] => none

theorem hexValue_digits : ∀ n < 32,
    hexValue (Nat.digitChar (n / 16)) * 16 + hexValue (Nat.digitChar (n % 16)) = n := by
  decide

theorem readChar_escapeChar (c : Char) (rest : Text) :
    readChar (Json.escapeChar c ++ rest) = some (c, rest) := by
  unfold Json.escapeChar
  split
  next same => rw [same]; rfl
  next notQuote =>
    split
    next same => rw [same]; rfl
    next notSlash =>
      split
      next same => rw [same]; rfl
      next =>
        split
        next same => rw [same]; rfl
        next =>
          split
          next same => rw [same]; rfl
          next =>
            split
            next same => rw [← Char.ofNat_toNat c, same]; rfl
            next =>
              split
              next same => rw [← Char.ofNat_toNat c, same]; rfl
              next =>
                split
                next control =>
                  simp only [List.cons_append, List.nil_append, readChar,
                    hexValue_digits c.toNat control, Char.ofNat_toNat]
                next => simp [readChar, notQuote, notSlash]

theorem escape_inj {text other rest rest' : Text}
    (same : text.flatMap Json.escapeChar ++ '"' :: rest =
      other.flatMap Json.escapeChar ++ '"' :: rest') : text = other ∧ rest = rest' := by
  have ends (tail : Text) : readChar ('"' :: tail) = none := rfl
  induction text generalizing other with
  | nil =>
      cases other with
      | nil => exact ⟨rfl, (List.cons.inj same).2⟩
      | cons d others =>
          have read := congrArg readChar same
          rw [List.flatMap_cons, List.append_assoc, readChar_escapeChar] at read
          cases (ends rest).symm.trans read
  | cons c texts ih =>
      have read := congrArg readChar same
      rw [List.flatMap_cons, List.append_assoc, readChar_escapeChar] at read
      cases other with
      | nil => cases read.trans (ends rest')
      | cons d others =>
          rw [List.flatMap_cons, List.append_assoc, readChar_escapeChar, Option.some.injEq,
            Prod.mk.injEq] at read
          obtain ⟨rfl, tails⟩ := ih read.2
          exact ⟨by rw [read.1], tails⟩

theorem quote_inj {text other rest rest' : Text}
    (same : Json.quote text ++ rest = Json.quote other ++ rest') :
    text = other ∧ rest = rest' := by
  refine escape_inj ?_
  simpa [Json.quote] using same

mutual

/-- Strings, arrays and objects of them. -/
def plain : Json → Bool
  | .string _ => true
  | .array items => plainItems items
  | .object fields => plainFields fields
  | _ => false

def plainItems : List Json → Bool
  | [] => true
  | item :: rest => plain item && plainItems rest

def plainFields : List (Text × Json) → Bool
  | [] => true
  | (_, value) :: rest => plain value && plainFields rest

end

def moreItems (items : List Json) : Text := (Json.renderItems items).flatMap (',' :: ·)

def moreFields (fields : List (Text × Json)) : Text :=
  (Json.renderFields fields).flatMap (',' :: ·)

theorem joinWith_cons (text : Text) (rest : List Text) :
    Json.joinWith [','] (text :: rest) = text ++ rest.flatMap (',' :: ·) := by
  induction rest generalizing text with
  | nil => simp [Json.joinWith]
  | cons next rest ih => simp [Json.joinWith, ih next]

def opener : Json → Char
  | .array _ => '['
  | .object _ => Char.ofNat 0x7b
  | _ => '"'

theorem render_opener {doc : Json} (simple : plain doc = true) :
    ∃ more, doc.render = opener doc :: more := by
  cases doc with
  | string text => exact ⟨_, rfl⟩
  | array items => exact ⟨_, by rw [Json.render]; rfl⟩
  | object fields => exact ⟨_, by rw [Json.render]; rfl⟩
  | _ => cases simple

theorem render_array (item : Json) (rest : List Json) (tail : Text) :
    (Json.array (item :: rest)).render ++ tail =
      '[' :: (item.render ++ (moreItems rest ++ ']' :: tail)) := by
  simp [Json.render, Json.renderItems, joinWith_cons, moreItems]

theorem render_object (key : Text) (value : Json) (rest : List (Text × Json)) (tail : Text) :
    (Json.object ((key, value) :: rest)).render ++ tail = Char.ofNat 0x7b ::
      (Json.quote key ++
        (':' :: value.render ++ (moreFields rest ++ Char.ofNat 0x7d :: tail))) := by
  simp [Json.render, Json.renderFields, joinWith_cons, moreFields]

theorem moreItems_cons (item : Json) (rest : List Json) (tail : Text) :
    moreItems (item :: rest) ++ tail = ',' :: (item.render ++ (moreItems rest ++ tail)) := by
  simp [moreItems, Json.renderItems]

theorem moreFields_cons (key : Text) (value : Json) (rest : List (Text × Json)) (tail : Text) :
    moreFields ((key, value) :: rest) ++ tail =
      ',' :: (Json.quote key ++ (':' :: value.render ++ (moreFields rest ++ tail))) := by
  simp [moreFields, Json.renderFields]

theorem opener_eq {doc other : Json} {rest rest' : Text} (simple : plain doc = true)
    (simple' : plain other = true) (same : doc.render ++ rest = other.render ++ rest') :
    opener doc = opener other := by
  obtain ⟨more, shape⟩ := render_opener simple
  obtain ⟨more', shape'⟩ := render_opener simple'
  rw [shape, shape'] at same
  exact (List.cons.inj same).1

theorem render_ne_close {doc : Json} {rest tail : Text} (simple : plain doc = true) (close : Char)
    (closing : close = ']' ∨ close = Char.ofNat 0x7d) : doc.render ++ rest ≠ close :: tail := by
  intro same
  obtain ⟨more, shape⟩ := render_opener simple
  rw [shape] at same
  have first := (List.cons.inj same).1
  rcases closing with rfl | rfl <;> cases doc <;> simp [opener] at first

mutual

theorem render_inj : ∀ (doc other : Json) {rest rest' : Text}, plain doc = true →
    plain other = true → doc.render ++ rest = other.render ++ rest' → doc = other ∧ rest = rest'
  | .string text, other, _, _, simple, simple', same => by
      have kind := opener_eq simple simple' same
      cases other with
      | string text' =>
          obtain ⟨rfl, tails⟩ := quote_inj same
          exact ⟨rfl, tails⟩
      | array items => simp [opener] at kind
      | object fields => simp [opener] at kind
      | _ => cases simple'
  | .array items, other, _, _, simple, simple', same => by
      have kind := opener_eq simple simple' same
      cases other with
      | array others =>
          have inner := items_inj items others simple simple' same
          exact ⟨by rw [inner.1], inner.2⟩
      | string text' => simp [opener] at kind
      | object fields => simp [opener] at kind
      | _ => cases simple'
  | .object fields, other, _, _, simple, simple', same => by
      have kind := opener_eq simple simple' same
      cases other with
      | object others =>
          have inner := fields_inj fields others simple simple' same
          exact ⟨by rw [inner.1], inner.2⟩
      | string text' => simp [opener] at kind
      | array items => simp [opener] at kind
      | _ => cases simple'

theorem items_inj : ∀ (items others : List Json) {rest rest' : Text},
    plainItems items = true → plainItems others = true →
    (Json.array items).render ++ rest = (Json.array others).render ++ rest' →
      items = others ∧ rest = rest'
  | [], [], _, _, _, _, same => ⟨rfl, by simpa [Json.render] using same⟩
  | [], other :: others, _, _, _, simple', same => by
      rw [render_array] at same
      rw [plainItems, Bool.and_eq_true] at simple'
      exact absurd (List.cons.inj same).2.symm (render_ne_close simple'.1 ']' (.inl rfl))
  | item :: items, [], _, _, simple, _, same => by
      rw [render_array] at same
      rw [plainItems, Bool.and_eq_true] at simple
      exact absurd (List.cons.inj same).2 (render_ne_close simple.1 ']' (.inl rfl))
  | item :: items, other :: others, _, _, simple, simple', same => by
      rw [render_array, render_array] at same
      rw [plainItems, Bool.and_eq_true] at simple simple'
      obtain ⟨rfl, tails⟩ := render_inj item other simple.1 simple'.1 (List.cons.inj same).2
      obtain ⟨rfl, rests⟩ := moreItems_inj items others simple.2 simple'.2 tails
      exact ⟨rfl, rests⟩

theorem moreItems_inj : ∀ (items others : List Json) {rest rest' : Text},
    plainItems items = true → plainItems others = true →
    moreItems items ++ ']' :: rest = moreItems others ++ ']' :: rest' →
      items = others ∧ rest = rest'
  | [], [], _, _, _, _, same => ⟨rfl, (List.cons.inj same).2⟩
  | [], other :: others, _, _, _, _, same => by
      rw [moreItems_cons] at same
      simp [moreItems, Json.renderItems] at same
  | item :: items, [], _, _, _, _, same => by
      rw [moreItems_cons] at same
      simp [moreItems, Json.renderItems] at same
  | item :: items, other :: others, _, _, simple, simple', same => by
      rw [moreItems_cons, moreItems_cons] at same
      rw [plainItems, Bool.and_eq_true] at simple simple'
      obtain ⟨rfl, tails⟩ := render_inj item other simple.1 simple'.1 (List.cons.inj same).2
      obtain ⟨rfl, rests⟩ := moreItems_inj items others simple.2 simple'.2 tails
      exact ⟨rfl, rests⟩

theorem fields_inj : ∀ (fields others : List (Text × Json)) {rest rest' : Text},
    plainFields fields = true → plainFields others = true →
    (Json.object fields).render ++ rest = (Json.object others).render ++ rest' →
      fields = others ∧ rest = rest'
  | [], [], _, _, _, _, same => ⟨rfl, by simpa [Json.render] using same⟩
  | [], (key, value) :: others, _, _, _, _, same => by
      rw [render_object] at same
      simp [Json.render, Json.renderFields, Json.joinWith, Json.quote] at same
  | (key, value) :: fields, [], _, _, _, _, same => by
      rw [render_object] at same
      simp [Json.render, Json.renderFields, Json.joinWith, Json.quote] at same
  | (key, value) :: fields, (key', value') :: others, _, _, simple, simple', same => by
      rw [render_object, render_object] at same
      rw [plainFields, Bool.and_eq_true] at simple simple'
      obtain ⟨rfl, afters⟩ := quote_inj (List.cons.inj same).2
      obtain ⟨rfl, tails⟩ := render_inj value value' simple.1 simple'.1 (List.cons.inj afters).2
      obtain ⟨rfl, rests⟩ := moreFields_inj fields others simple.2 simple'.2 tails
      exact ⟨rfl, rests⟩

theorem moreFields_inj : ∀ (fields others : List (Text × Json)) {rest rest' : Text},
    plainFields fields = true → plainFields others = true →
    moreFields fields ++ Char.ofNat 0x7d :: rest = moreFields others ++ Char.ofNat 0x7d :: rest' →
      fields = others ∧ rest = rest'
  | [], [], _, _, _, _, same => ⟨rfl, (List.cons.inj same).2⟩
  | [], (key, value) :: others, _, _, _, _, same => by
      rw [moreFields_cons] at same
      simp [moreFields, Json.renderFields] at same
  | (key, value) :: fields, [], _, _, _, _, same => by
      rw [moreFields_cons] at same
      simp [moreFields, Json.renderFields] at same
  | (key, value) :: fields, (key', value') :: others, _, _, simple, simple', same => by
      rw [moreFields_cons, moreFields_cons] at same
      rw [plainFields, Bool.and_eq_true] at simple simple'
      obtain ⟨rfl, afters⟩ := quote_inj (List.cons.inj same).2
      obtain ⟨rfl, tails⟩ := render_inj value value' simple.1 simple'.1 (List.cons.inj afters).2
      obtain ⟨rfl, rests⟩ := moreFields_inj fields others simple.2 simple'.2 tails
      exact ⟨rfl, rests⟩

end

theorem render_injective {doc other : Json} (simple : plain doc = true)
    (simple' : plain other = true) (same : doc.render = other.render) : doc = other :=
  (@render_inj doc other [] [] simple simple' (by rw [same])).1

theorem plainItems_iff {items : List Json} :
    plainItems items = true ↔ ∀ item ∈ items, plain item = true := by
  induction items with
  | nil => simp [plainItems]
  | cons item rest ih => simp [plainItems, ih]

theorem plainFields_iff {fields : List (Text × Json)} :
    plainFields fields = true ↔ ∀ field ∈ fields, plain field.2 = true := by
  induction fields with
  | nil => simp [plainFields]
  | cons field rest ih => simp [plainFields, ih]

@[simp] theorem plain_strings (texts : List Text) : plain (strings texts) = true := by
  refine plainItems_iff.mpr fun item member => ?_
  obtain ⟨text, -, rfl⟩ := List.mem_map.mp member
  rfl

@[simp] theorem plain_propertiesDocument (properties : List (Text × List Text)) :
    plain (propertiesDocument properties) = true := by
  refine plainFields_iff.mpr fun field member => ?_
  obtain ⟨entry, -, rfl⟩ := List.mem_map.mp member
  exact plain_strings _

@[simp] theorem plain_document (found : IdentityMatch) : plain found.document = true := by
  cases found <;> simp [IdentityMatch.document, plain, plainFields]

theorem plain_pairDocument (lib : Library) (subject : KnowledgeConsolidationEntity)
    (candidate : EntityHit) (found : List IdentityMatch) :
    plain (pairDocument lib subject candidate found) = true := by
  have entities : plainItems (pairEntities lib subject candidate) = true := by
    unfold pairEntities
    split <;> simp [plainItems, plain, plainFields, entityDocument]
  have documents : plainItems ((sortMatches found).map IdentityMatch.document) = true := by
    refine plainItems_iff.mpr fun item member => ?_
    obtain ⟨found, -, rfl⟩ := List.mem_map.mp member
    exact plain_document found
  simp [pairDocument, plain, plainFields, entities, documents]

theorem plain_identityDocument (lib : Library) (keys : List HasKeyMarker) (inverse : Finset Text)
    (prefixes : PrefixMap) (entity : KnowledgeConsolidationEntity) :
    plain (identityDocument lib keys inverse prefixes entity) = true := by
  have keyValues : plainItems
      (((keys.filter fun key => hasClass prefixes entity.kinds key.className).map
        (keyDocument (.fromSerialized lib entity.searchAssertions))).mergeSort
          fun a b => decide (a.render ≤ b.render)) = true := by
    refine plainItems_iff.mpr fun item member => ?_
    obtain ⟨key, -, rfl⟩ := List.mem_map.mp (List.mem_mergeSort.mp member)
    simp [keyDocument, plain, plainFields]
  simp [identityDocument, plain, plainFields, keyValues]

theorem strings_inj {texts others : List Text} (same : strings texts = strings others) :
    texts = others :=
  List.map_injective_iff.mpr (fun _ _ => Json.string.inj) (Json.array.inj same)

theorem sort_inj {set other : Finset Text} (same : set.sort = other.sort) : set = other := by
  rw [← set.sort_toFinset (· ≤ ·), same, other.sort_toFinset]

theorem propertiesDocument_inj {first second : Finset Text} {values others : Text → Finset Text}
    (same : propertiesDocument (first.sort.map fun property => (property, (values property).sort)) =
      propertiesDocument (second.sort.map fun property => (property, (others property).sort))) :
    first = second ∧ ∀ property ∈ first, values property = others property := by
  have fields := Json.object.inj same
  rw [List.map_map, List.map_map] at fields
  have keys := congrArg (List.map Prod.fst) fields
  simp only [List.map_map, Function.comp_def, List.map_id'] at keys
  obtain rfl := sort_inj keys
  refine ⟨rfl, fun property member => ?_⟩
  have entry := List.map_inj_left.mp fields property ((Finset.mem_sort _).mpr member)
  exact sort_inj (strings_inj (Prod.mk.inj entry).2)

end Writing

section Matching

variable {lib : Library} {keys : List HasKeyMarker} {inverse : Finset Text} {prefixes : PrefixMap}

structure SameEvidence (lib : Library) (keys : List HasKeyMarker) (inverse : Finset Text)
    (prefixes : PrefixMap) (a a' : KnowledgeConsolidationEntity) : Prop where
  path : a.path = a'.path
  named : names lib a.name a.aliases = names lib a'.name a'.aliases
  classes : a.kinds.toFinset = a'.kinds.toFinset
  keyed : ∀ key ∈ keys, hasClass prefixes a.kinds key.className = true →
    ∀ property ∈ key.trimmed, (valuesOf lib a).all property = (valuesOf lib a').all property
  inverses : ∀ property ∈ inverse,
    (valuesOf lib a).relations property = (valuesOf lib a').relations property

theorem hasClass_congr {kinds others : List Text} (same : kinds.toFinset = others.toFinset)
    (className : Text) :
    hasClass prefixes kinds className = hasClass prefixes others className := by
  have members (kind : Text) : kind ∈ kinds ↔ kind ∈ others := by
    rw [← List.mem_toFinset, same, List.mem_toFinset]
  rw [Bool.eq_iff_iff]
  simp [hasClass, members]

theorem sameEvidence {a a' : KnowledgeConsolidationEntity}
    (same : resolutionIdentityFingerprint lib keys inverse prefixes a =
      resolutionIdentityFingerprint lib keys inverse prefixes a') :
    SameEvidence lib keys inverse prefixes a a' := by
  have documents := render_injective (plain_identityDocument lib keys inverse prefixes a)
    (plain_identityDocument lib keys inverse prefixes a') same
  simp only [identityDocument, Json.object.injEq, List.cons.injEq, Prod.mk.injEq, true_and,
    and_true, Json.string.injEq, Json.array.injEq] at documents
  obtain ⟨path, named, classes, keyValues, inverses⟩ := documents
  have kinds := sort_inj (strings_inj classes)
  refine ⟨path, sort_inj (strings_inj named), kinds, ?_, (propertiesDocument_inj inverses).2⟩
  intro key member applies
  have written : keyDocument (valuesOf lib a) key ∈
      ((keys.filter fun key => hasClass prefixes a'.kinds key.className).map
        (keyDocument (valuesOf lib a'))).mergeSort fun a b => decide (a.render ≤ b.render) := by
    rw [valuesOf, valuesOf, ← keyValues, List.mem_mergeSort]
    exact List.mem_map_of_mem (List.mem_filter.mpr ⟨member, applies⟩)
  obtain ⟨other, -, document⟩ := List.mem_map.mp (List.mem_mergeSort.mp written)
  simp only [keyDocument, Json.object.injEq, List.cons.injEq, Prod.mk.injEq, true_and,
    and_true, Json.string.injEq] at document
  obtain ⟨properties, values⟩ := propertiesDocument_inj document.2.symm
  exact fun property inside => values property (List.mem_toFinset.mpr inside)

theorem sharedProperties_eq (shared : Text → Finset Text) (properties : List Text)
    (found : Finset Text) : sharedProperties shared properties found =
      if ∀ property ∈ properties, shared property ≠ ∅ then found ∪ properties.toFinset else ∅ := by
  induction properties generalizing found with
  | nil => simp [sharedProperties]
  | cons property rest ih =>
      rw [sharedProperties]
      by_cases empty : shared property = ∅
      · simp [empty]
      · simp [empty, ih]

theorem sharedProperties_subset {shared : Text → Finset Text} {properties : List Text}
    {property : Text} (member : property ∈ sharedProperties shared properties ∅) :
    property ∈ properties := by
  rw [sharedProperties_eq] at member
  split at member
  next => simpa using member
  next => simp at member

theorem keyMatch_congr {ourKinds theirKinds ourKinds' theirKinds' : List Text}
    {ours theirs ours' theirs' : AssertionValues} {key : HasKeyMarker}
    (our : hasClass prefixes ourKinds key.className = hasClass prefixes ourKinds' key.className)
    (their : hasClass prefixes theirKinds key.className =
      hasClass prefixes theirKinds' key.className)
    (shared : hasClass prefixes ourKinds key.className = true →
      hasClass prefixes theirKinds key.className = true → ∀ property ∈ key.trimmed,
        ours.all property ∩ theirs.all property = ours'.all property ∩ theirs'.all property) :
    keyMatch prefixes ourKinds theirKinds ours theirs key =
      keyMatch prefixes ourKinds' theirKinds' ours' theirs' key := by
  unfold keyMatch
  rw [← our, ← their]
  cases ourClass : hasClass prefixes ourKinds key.className with
  | false => rfl
  | true =>
      cases theirClass : hasClass prefixes theirKinds key.className with
      | false => rfl
      | true =>
          have same := shared ourClass theirClass
          have found : sharedProperties (fun property => ours.all property ∩ theirs.all property)
              key.trimmed ∅ = sharedProperties
                (fun property => ours'.all property ∩ theirs'.all property) key.trimmed ∅ := by
            rw [sharedProperties_eq, sharedProperties_eq]
            refine if_congr (forall₂_congr fun property member => ?_) rfl rfl
            rw [same property member]
          have values : (sharedProperties
                (fun property => ours'.all property ∩ theirs'.all property) key.trimmed ∅).sort.map
                (fun property => (property, (ours.all property ∩ theirs.all property).sort)) =
              (sharedProperties (fun property => ours'.all property ∩ theirs'.all property)
                key.trimmed ∅).sort.map
                fun property => (property, (ours'.all property ∩ theirs'.all property).sort) := by
            refine List.map_congr_left fun property member => ?_
            rw [Finset.mem_sort] at member
            rw [same property (sharedProperties_subset member)]
          simp only [found, values]

theorem identityMatches_eq (a b : KnowledgeConsolidationEntity) :
    identityMatches lib keys inverse prefixes a b.hit = (sortMatches
      (keys.filterMap (keyMatch prefixes a.kinds b.kinds (valuesOf lib a) (valuesOf lib b)) ++
        inverse.sort.filterMap (inverseMatch (valuesOf lib a) (valuesOf lib b)))).dedup := rfl

theorem identityMatches_congr {a b a' b' : KnowledgeConsolidationEntity}
    (first : SameEvidence lib keys inverse prefixes a a')
    (second : SameEvidence lib keys inverse prefixes b b') :
    identityMatches lib keys inverse prefixes a b.hit =
      identityMatches lib keys inverse prefixes a' b'.hit := by
  have keyed : keys.filterMap
        (keyMatch prefixes a.kinds b.kinds (valuesOf lib a) (valuesOf lib b)) =
      keys.filterMap
        (keyMatch prefixes a'.kinds b'.kinds (valuesOf lib a') (valuesOf lib b')) := by
    refine List.filterMap_congr fun key member => ?_
    refine keyMatch_congr (hasClass_congr first.classes _) (hasClass_congr second.classes _)
      fun our their property inside => ?_
    rw [first.keyed key member our property inside, second.keyed key member their property inside]
  have inverses : inverse.sort.filterMap (inverseMatch (valuesOf lib a) (valuesOf lib b)) =
      inverse.sort.filterMap (inverseMatch (valuesOf lib a') (valuesOf lib b')) := by
    refine List.filterMap_congr fun property member => ?_
    rw [Finset.mem_sort] at member
    unfold inverseMatch
    rw [first.inverses property member, second.inverses property member]
  rw [identityMatches_eq, identityMatches_eq, keyed, inverses]

theorem identityMatches_comm (a b : KnowledgeConsolidationEntity) :
    identityMatches lib keys inverse prefixes a b.hit =
      identityMatches lib keys inverse prefixes b a.hit := by
  have keyed (key : HasKeyMarker) :
      keyMatch prefixes a.kinds b.kinds (valuesOf lib a) (valuesOf lib b) key =
        keyMatch prefixes b.kinds a.kinds (valuesOf lib b) (valuesOf lib a) key := by
    unfold keyMatch
    simp only [Bool.or_comm, Finset.inter_comm]
  have inverses (property : Text) : inverseMatch (valuesOf lib a) (valuesOf lib b) property =
      inverseMatch (valuesOf lib b) (valuesOf lib a) property := by
    unfold inverseMatch
    simp only [Finset.inter_comm]
  rw [identityMatches_eq, identityMatches_eq, funext keyed, funext inverses]

theorem pairFingerprint_congr {a b a' b' : KnowledgeConsolidationEntity}
    (first : SameEvidence lib keys inverse prefixes a a')
    (second : SameEvidence lib keys inverse prefixes b b') :
    pairFingerprint lib keys inverse prefixes a b =
      pairFingerprint lib keys inverse prefixes a' b' := by
  have entities : pairEntities lib a b.hit = pairEntities lib a' b'.hit := by
    unfold pairEntities KnowledgeConsolidationEntity.hit
    rw [first.path, first.named, first.classes, second.path, second.named, second.classes]
  rw [pairFingerprint, resolutionPairFingerprint, pairDocument, entities,
    identityMatches_congr first second]
  rfl

theorem pairEntities_comm {a b : KnowledgeConsolidationEntity} (apart : a.path ≠ b.path) :
    pairEntities lib a b.hit = pairEntities lib b a.hit := by
  unfold pairEntities KnowledgeConsolidationEntity.hit
  rcases lt_or_gt_of_ne apart with before | after
  · simp only [if_neg (lt_asymm before), if_pos before]
  · simp only [if_neg (lt_asymm after), if_pos after]

theorem pairFingerprint_comm {a b : KnowledgeConsolidationEntity} (apart : a.path ≠ b.path) :
    pairFingerprint lib keys inverse prefixes a b =
      pairFingerprint lib keys inverse prefixes b a := by
  rw [pairFingerprint, resolutionPairFingerprint, pairDocument, pairEntities_comm apart,
    identityMatches_comm]
  rfl

end Matching

section Atoms

def SharedValue.document : SharedValue → Json
  | .hasKey className property value => strings [hasKeyKind, className, property, value]
  | .inverseFunctional property target => strings [inverseKind, property, target]

theorem sharedValue_inj {value other : SharedValue}
    (same : value.document.render = other.document.render) : value = other := by
  have plain_ (value : SharedValue) : plain value.document = true := by
    cases value <;> exact plain_strings _
  have documents := render_injective (plain_ value) (plain_ other) same
  cases value with
  | hasKey className property value =>
      cases other with
      | hasKey _ _ _ => simpa [SharedValue.document, strings] using documents
      | inverseFunctional _ _ => simp [SharedValue.document, strings] at documents
  | inverseFunctional property target =>
      cases other with
      | hasKey _ _ _ => simp [SharedValue.document, strings] at documents
      | inverseFunctional _ _ => simpa [SharedValue.document, strings] using documents

theorem get_here (key : Text) (value : Json) (rest : List (Text × Json)) :
    get key (.object ((key, value) :: rest)) = some value := by
  simp [Config.get]

theorem get_there {key other : Text} (apart : other ≠ key) (value : Json)
    (rest : List (Text × Json)) :
    get key (.object ((other, value) :: rest)) = get key (.object rest) := by
  simp [Config.get, apart]

theorem matchAtoms_hasKey (className : Text) (properties : List (Text × List Text)) :
    matchAtoms (IdentityMatch.hasKey className properties).document =
      properties.flatMap fun entry => entry.2.map fun value =>
        (SharedValue.hasKey className entry.1 value).document.render := by
  have kind : textAt kindKey (IdentityMatch.hasKey className properties).document =
      hasKeyKind := by
    rw [textAt, IdentityMatch.document, get_here]
    rfl
  have owner : textAt classKey (IdentityMatch.hasKey className properties).document =
      className := by
    rw [textAt, IdentityMatch.document, get_there (by decide), get_here]
    rfl
  have fields : fieldsAt propertiesKey (IdentityMatch.hasKey className properties).document =
      properties.map fun entry => (entry.1, strings entry.2) := by
    rw [fieldsAt, IdentityMatch.document, get_there (by decide), get_there (by decide), get_here]
    rfl
  rw [matchAtoms]
  simp only [kind, owner, fields, if_true, List.flatMap_map]
  refine List.flatMap_congr fun entry _ => ?_
  simp [strings, asArray, SharedValue.document]

theorem matchAtoms_inverse (property : Text) (targets : List Text) :
    matchAtoms (IdentityMatch.inverseFunctional property targets).document =
      targets.map fun target =>
        (SharedValue.inverseFunctional property target).document.render := by
  have kind : textAt kindKey (IdentityMatch.inverseFunctional property targets).document =
      inverseKind := by
    rw [textAt, IdentityMatch.document, get_here]
    rfl
  have owner : textAt propertyKey (IdentityMatch.inverseFunctional property targets).document =
      property := by
    rw [textAt, IdentityMatch.document, get_there (by decide), get_here]
    rfl
  have items : itemsAt targetsKey (IdentityMatch.inverseFunctional property targets).document =
      targets.map Json.string := by
    rw [itemsAt, IdentityMatch.document, get_there (by decide), get_there (by decide), get_here]
    rfl
  have other : inverseKind ≠ hasKeyKind := by decide
  rw [matchAtoms]
  simp [kind, owner, items, other, strings, SharedValue.document, Function.comp_def]

variable {lib : Library} {keys : List HasKeyMarker} {inverse : Finset Text} {prefixes : PrefixMap}

theorem mem_sortMatches {found : List IdentityMatch} {matched : IdentityMatch} :
    matched ∈ sortMatches found ↔ matched ∈ found := List.mem_mergeSort

theorem mem_atoms {subject : KnowledgeConsolidationEntity} {candidate : EntityHit}
    {found : List IdentityMatch} {text : Text} :
    text ∈ atoms (pairDocument lib subject candidate found) ↔
      ∃ matched ∈ found, text ∈ matchAtoms matched.document := by
  have items : itemsAt matchesKey (pairDocument lib subject candidate found) =
      (sortMatches found).map IdentityMatch.document := by
    rw [itemsAt, pairDocument, get_there (by decide), get_here]
    rfl
  simp [atoms, items, mem_sortMatches]

theorem keyMatch_eq_some {a b : KnowledgeConsolidationEntity} {key : HasKeyMarker}
    {matched : IdentityMatch} :
    keyMatch prefixes a.kinds b.kinds (valuesOf lib a) (valuesOf lib b) key = some matched ↔
      hasClass prefixes a.kinds key.className = true ∧
        hasClass prefixes b.kinds key.className = true ∧ key.trimmed ≠ [] ∧
        (∀ property ∈ key.trimmed,
          ((valuesOf lib a).all property ∩ (valuesOf lib b).all property).Nonempty) ∧
        matched = .hasKey key.className (key.trimmed.toFinset.sort.map fun property =>
          (property, ((valuesOf lib a).all property ∩ (valuesOf lib b).all property).sort)) := by
  unfold keyMatch
  cases ourClass : hasClass prefixes a.kinds key.className with
  | false => simp
  | true =>
      cases theirClass : hasClass prefixes b.kinds key.className with
      | false => simp
      | true =>
          simp only [Bool.not_true, Bool.or_self, Bool.false_eq_true, if_false, true_and,
            sharedProperties_eq, Finset.nonempty_iff_ne_empty, Finset.empty_union]
          by_cases all : ∀ property ∈ key.trimmed,
              (valuesOf lib a).all property ∩ (valuesOf lib b).all property ≠ ∅
          · rw [if_pos all]
            split
            next empty =>
              rw [List.toFinset_eq_empty_iff] at empty
              exact ⟨nofun, fun held => absurd empty held.1⟩
            next some_ =>
              rw [List.toFinset_eq_empty_iff] at some_
              rw [Option.some.injEq]
              exact ⟨fun same => ⟨some_, all, same.symm⟩, fun held => held.2.2.symm⟩
          · rw [if_neg all, if_pos rfl]
            exact ⟨nofun, fun held => absurd held.2.1 all⟩

theorem inverseMatch_eq_some {ours theirs : AssertionValues} {property : Text}
    {matched : IdentityMatch} : inverseMatch ours theirs property = some matched ↔
      (ours.relations property ∩ theirs.relations property).Nonempty ∧
        matched = .inverseFunctional property
          (ours.relations property ∩ theirs.relations property).sort := by
  unfold inverseMatch
  rw [Finset.nonempty_iff_ne_empty]
  dsimp only
  split
  next empty => exact ⟨nofun, fun held => absurd empty held.1⟩
  next some_ =>
    rw [Option.some.injEq]
    exact ⟨fun same => ⟨some_, same.symm⟩, fun held => held.2.symm⟩

theorem mem_identityMatches {a b : KnowledgeConsolidationEntity} {matched : IdentityMatch} :
    matched ∈ identityMatches lib keys inverse prefixes a b.hit ↔
      (∃ key ∈ keys,
        keyMatch prefixes a.kinds b.kinds (valuesOf lib a) (valuesOf lib b) key = some matched) ∨
      ∃ property ∈ inverse,
        inverseMatch (valuesOf lib a) (valuesOf lib b) property = some matched := by
  rw [identityMatches_eq, List.mem_dedup, mem_sortMatches, List.mem_append, List.mem_filterMap,
    List.mem_filterMap]
  simp only [Finset.mem_sort]

theorem mem_atoms_iff (a b : KnowledgeConsolidationEntity) (value : SharedValue) :
    value.document.render ∈ atoms (pairDocument lib a b.hit
        (identityMatches lib keys inverse prefixes a b.hit)) ↔
      Shares lib keys inverse prefixes a b value := by
  rw [mem_atoms]
  cases value with
  | hasKey className property value =>
      constructor
      · rintro ⟨matched, member, atom⟩
        rcases mem_identityMatches.mp member with ⟨key, listed, found⟩ | ⟨other, -, found⟩
        · obtain ⟨ourClass, theirClass, -, shared, rfl⟩ := keyMatch_eq_some.mp found
          rw [matchAtoms_hasKey] at atom
          obtain ⟨entry, written, texts⟩ := List.mem_flatMap.mp atom
          obtain ⟨own, inside, rfl⟩ := List.mem_map.mp written
          obtain ⟨common, has, same⟩ := List.mem_map.mp texts
          cases sharedValue_inj same
          rw [Finset.mem_sort, List.mem_toFinset] at inside
          exact ⟨key, listed, rfl, ourClass, theirClass, inside, (Finset.mem_sort _).mp has, shared⟩
        · obtain ⟨-, rfl⟩ := inverseMatch_eq_some.mp found
          rw [matchAtoms_inverse] at atom
          obtain ⟨target, -, same⟩ := List.mem_map.mp atom
          cases sharedValue_inj same
      · rintro ⟨key, listed, rfl, ourClass, theirClass, inside, has, shared⟩
        refine ⟨_, mem_identityMatches.mpr (.inl ⟨key, listed, keyMatch_eq_some.mpr
          ⟨ourClass, theirClass, List.ne_nil_of_mem inside, shared, rfl⟩⟩), ?_⟩
        rw [matchAtoms_hasKey, List.mem_flatMap]
        refine ⟨_, List.mem_map_of_mem ((Finset.mem_sort _).mpr (List.mem_toFinset.mpr inside)), ?_⟩
        exact List.mem_map_of_mem ((Finset.mem_sort _).mpr has)
  | inverseFunctional property target =>
      constructor
      · rintro ⟨matched, member, atom⟩
        rcases mem_identityMatches.mp member with ⟨key, -, found⟩ | ⟨own, listed, found⟩
        · obtain ⟨-, -, -, -, rfl⟩ := keyMatch_eq_some.mp found
          rw [matchAtoms_hasKey] at atom
          obtain ⟨entry, -, texts⟩ := List.mem_flatMap.mp atom
          obtain ⟨common, -, same⟩ := List.mem_map.mp texts
          cases sharedValue_inj same
        · obtain ⟨-, rfl⟩ := inverseMatch_eq_some.mp found
          rw [matchAtoms_inverse] at atom
          obtain ⟨common, has, same⟩ := List.mem_map.mp atom
          cases sharedValue_inj same
          exact ⟨listed, (Finset.mem_sort _).mp has⟩
      · rintro ⟨listed, has⟩
        refine ⟨_, mem_identityMatches.mpr (.inr ⟨property, listed,
          inverseMatch_eq_some.mpr ⟨⟨target, has⟩, rfl⟩⟩), ?_⟩
        rw [matchAtoms_inverse]
        exact List.mem_map_of_mem ((Finset.mem_sort _).mpr has)

end Atoms

section Judging

variable {lib : Library} {keys : List HasKeyMarker} {inverse : Finset Text} {prefixes : PrefixMap}

theorem entityDocument_inj {path path' : Text} {names names' classes classes' : Finset Text}
    (same : entityDocument path names classes = entityDocument path' names' classes') :
    names = names' ∧ classes = classes' := by
  simp only [entityDocument, Json.object.injEq, List.cons.injEq, Prod.mk.injEq, true_and,
    and_true] at same
  exact ⟨sort_inj (strings_inj same.2.1), sort_inj (strings_inj same.2.2)⟩

theorem pairEntities_inj {a b a' b' : KnowledgeConsolidationEntity} (versions : Versions a b a' b')
    (same : pairEntities lib a b.hit = pairEntities lib a' b'.hit) :
    ¬ Renamed lib a a' ∧ ¬ Renamed lib b b' := by
  unfold pairEntities KnowledgeConsolidationEntity.hit at same
  rw [versions.subject, versions.candidate] at same
  have kept : entityDocument a.path (names lib a.name a.aliases) a.kinds.toFinset =
        entityDocument a.path (names lib a'.name a'.aliases) a'.kinds.toFinset ∧
      entityDocument b.path (names lib b.name b.aliases) b.kinds.toFinset =
        entityDocument b.path (names lib b'.name b'.aliases) b'.kinds.toFinset := by
    dsimp only at same
    split at same
    next =>
      simp only [List.cons.injEq, and_true] at same
      exact same.symm
    next => simpa only [List.cons.injEq, and_true] using same
  have first := entityDocument_inj kept.1
  have second := entityDocument_inj kept.2
  exact ⟨fun renamed => renamed.elim (absurd first.1) (absurd first.2),
    fun renamed => renamed.elim (absurd second.1) (absurd second.2)⟩

theorem get_entities (subject : KnowledgeConsolidationEntity) (candidate : EntityHit)
    (found : List IdentityMatch) :
    get entitiesKey (pairDocument lib subject candidate found) =
      some (.array (pairEntities lib subject candidate)) := get_here _ _ _

theorem judgment_asked (reads : ReadsBack lib keys inverse prefixes)
    {a b a' b' : KnowledgeConsolidationEntity}
    (differs : pairEntities lib a b.hit ≠ pairEntities lib a' b'.hit ∨
      (atoms (pairDocument lib a' b'.hit (identityMatches lib keys inverse prefixes a' b'.hit)) \
        atoms (pairDocument lib a b.hit
          (identityMatches lib keys inverse prefixes a b.hit))).Nonempty) :
    pairChangeRequiresJudgment lib (some (pairFingerprint lib keys inverse prefixes a b))
      (pairFingerprint lib keys inverse prefixes a' b') = true := by
  have texts : pairFingerprint lib keys inverse prefixes a b ≠
      pairFingerprint lib keys inverse prefixes a' b' := by
    intro same
    have documents := render_injective (plain_pairDocument lib _ _ _)
      (plain_pairDocument lib _ _ _) same
    rcases differs with entities | new
    · refine entities (Json.array.inj (Option.some.inj ?_))
      rw [← get_entities, ← get_entities, documents]
    · rw [documents, Finset.sdiff_self] at new
      exact Finset.not_nonempty_empty new
  rw [pairChangeRequiresJudgment, if_neg texts]
  split
  next old new readOld readNew =>
    rw [reads a b old readOld, reads a' b' new readNew, get_entities, get_entities]
    split
    next => rfl
    next same =>
      rw [ne_eq, not_not, Option.some.injEq, Json.array.injEq] at same
      exact decide_eq_true (differs.resolve_left (not_not.mpr same))
  next => rfl

end Judging

/-- A verdict is kept as long as neither fingerprint changes, and asked for again whenever a name
or a class changes or there is one more value that identifies both. -/
theorem fingerprints_suffice (lib : Library) (keys : List HasKeyMarker) (inverse : Finset Text)
    (prefixes : PrefixMap) (reads : ReadsBack lib keys inverse prefixes) :
    Sufficient lib keys inverse prefixes := by
  constructor
  · intro a b a' b' first second
    have same := pairFingerprint_congr (sameEvidence first) (sameEvidence second)
    refine ⟨identityMatches_congr (sameEvidence first) (sameEvidence second), same, ?_⟩
    rw [pairChangeRequiresJudgment, if_pos same]
  · exact fun a b apart => ⟨identityMatches_comm a b, pairFingerprint_comm apart⟩
  · intro a b a' b' versions changed
    refine judgment_asked reads ?_
    rcases changed with subject | candidate | ⟨value, shared, fresh⟩
    · exact .inl fun same => (pairEntities_inj versions same).1 subject
    · exact .inl fun same => (pairEntities_inj versions same).2 candidate
    · refine .inr ⟨value.document.render, Finset.mem_sdiff.mpr ⟨?_, ?_⟩⟩
      · exact (mem_atoms_iff a' b' value).mpr shared
      · exact fun earlier => fresh ((mem_atoms_iff a b value).mp earlier)

open Classical in
noncomputable def readBack : Library where
  isAlphanumeric := Char.isAlphanum
  toLowercase := List.map Char.toLower
  fromStr text :=
    if written : ∃ doc : Json, plain doc = true ∧ doc.render = text then some written.choose
    else none

theorem readBack_reads (keys : List HasKeyMarker) (inverse : Finset Text) (prefixes : PrefixMap) :
    ReadsBack readBack keys inverse prefixes := by
  intro a b read found
  have written : ∃ doc : Json, plain doc = true ∧
      doc.render = pairFingerprint readBack keys inverse prefixes a b :=
    ⟨_, plain_pairDocument _ _ _ _, rfl⟩
  have same : some written.choose = some read := (dif_pos written).symm.trans found
  rw [← Option.some.inj same]
  exact render_injective written.choose_spec.1 (plain_pairDocument _ _ _ _) written.choose_spec.2

def ann : KnowledgeConsolidationEntity := ⟨['a'], ['A', 'n', 'n'], ∅, [], []⟩

def bob : KnowledgeConsolidationEntity := ⟨['b'], ['B', 'o', 'b'], ∅, [], []⟩

def anna : KnowledgeConsolidationEntity := { ann with name := ['A', 'n', 'n', 'a'] }

theorem fingerprints_suffice_renamed : ReadsBack readBack [] ∅ ⟨[]⟩ ∧
    pairChangeRequiresJudgment readBack (some (pairFingerprint readBack [] ∅ ⟨[]⟩ ann bob))
      (pairFingerprint readBack [] ∅ ⟨[]⟩ anna bob) = true := by
  have suffice := fingerprints_suffice readBack [] ∅ ⟨[]⟩ (readBack_reads [] ∅ ⟨[]⟩)
  refine ⟨readBack_reads [] ∅ ⟨[]⟩, suffice.asks ann bob anna bob ⟨rfl, rfl⟩ (.inl (.inl ?_))⟩
  decide

def plainC : KnowledgeConsolidationEntity := { ann with name := ['C'] }

def sharpC : KnowledgeConsolidationEntity := { ann with name := ['C', '#'] }

theorem signs_unasked : Versions plainC bob sharpC bob ∧
    insert plainC.name plainC.aliases ≠ insert sharpC.name sharpC.aliases ∧
    pairChangeRequiresJudgment readBack (some (pairFingerprint readBack [] ∅ ⟨[]⟩ plainC bob))
      (pairFingerprint readBack [] ∅ ⟨[]⟩ sharpC bob) = false := by
  have names : names readBack plainC.name plainC.aliases =
      names readBack sharpC.name sharpC.aliases := by decide
  have same : pairFingerprint readBack [] ∅ ⟨[]⟩ plainC bob =
      pairFingerprint readBack [] ∅ ⟨[]⟩ sharpC bob := by
    simp only [pairFingerprint, resolutionPairFingerprint, pairDocument, pairEntities, names]
    rfl
  refine ⟨⟨rfl, rfl⟩, by decide, ?_⟩
  rw [pairChangeRequiresJudgment, if_pos same]

end Frona.Resolve.Identity
