import Frona.Machine.Lists
import Frona.Pkm.Path
import Mathlib.Data.List.MinMax

set_option autoImplicit false

namespace Frona.Catalog

open Utf8 (Text byteLength stripPrefix stripPrefix_eq_some)

structure ModelCatalogSnapshot (Entry : Type) where
  entries : List (Text × Entry)
  distinct : (entries.map Prod.fst).Nodup

def composite (provider modelId : Text) : Text := provider ++ '/' :: modelId

/-- `split_once('/')`. -/
def splitSlash : Text → Option (Text × Text)
  | [] => none
  | c :: rest =>
      if c = '/' then some ([], rest)
      else (splitSlash rest).map fun (before, after) => (c :: before, after)

def normalized (provider key : Text) : Option Text :=
  match stripPrefix (composite provider []) key with
  | some stripped => some stripped
  | none => if '/' ∈ key then none else some key

def candidate (provider modelId key : Text) : Option (Nat × Text) :=
  (normalized provider key).bind fun normal =>
    if normal ≠ [] ∧ normal <+: modelId then some (byteLength normal, key) else none

def keepLonger (best : Option (Nat × Text)) (found : Nat × Text) : Option (Nat × Text) :=
  if best.all (fun held => decide (held.1 < found.1)) then some found else best

namespace ModelCatalogSnapshot

variable {Entry : Type} (self : ModelCatalogSnapshot Entry)

def get (key : Text) : Option (Text × Entry) := self.entries.find? fun entry => entry.1 = key

def lookupForProvider (provider modelId : Text) : Option (Text × Entry) :=
  match self.get (composite provider modelId) with
  | some entry => some entry
  | none => self.get modelId

def prefixWalk (provider modelId : Text) : Option (Text × Entry) :=
  let best := (self.entries.map Prod.fst).foldl (fun best key =>
    match candidate provider modelId key with
    | some found => keepLonger best found
    | none => best) none
  best.bind fun (_, key) => self.get key

def lookupPrefix (provider modelId : Text) : Option (Text × Entry) :=
  match self.lookupForProvider provider modelId with
  | some entry => some entry
  | none =>
      match splitSlash modelId with
      | some (vendor, rest) =>
          match self.lookupForProvider vendor rest with
          | some entry => some entry
          | none => self.prefixWalk vendor rest
      | none => self.prefixWalk provider modelId

end ModelCatalogSnapshot

section Specification

variable {Entry : Type} (snapshot : ModelCatalogSnapshot Entry) (provider modelId : Text)

def scope : Text × Text := (splitSlash modelId).getD (provider, modelId)

def exactKeys : List Text :=
  [composite provider modelId, modelId] ++
    match splitSlash modelId with
    | some (vendor, rest) => [composite vendor rest, rest]
    | none => []

def Matches (key normal : Text) : Prop :=
  normalized (scope provider modelId).1 key = some normal ∧ normal ≠ [] ∧
    normal <+: (scope provider modelId).2

def Permitted (key : Text) : Prop :=
  '/' ∉ key ∨ composite provider [] <+: key ∨ composite (scope provider modelId).1 [] <+: key

def Longest (normal : Text) : Prop :=
  ∀ entry ∈ snapshot.entries, ∀ other, Matches provider modelId entry.1 other →
    byteLength other ≤ byteLength normal

def NoExact : Prop := ∀ key ∈ exactKeys provider modelId, snapshot.get key = none

structure WellDefined : Prop where
  sameEntry : ∀ other : ModelCatalogSnapshot Entry, other.entries.Perm snapshot.entries →
    other.lookupPrefix provider modelId = snapshot.lookupPrefix provider modelId
  exactWins : ∀ key ∈ exactKeys provider modelId, (snapshot.get key).isSome = true →
    ∃ entry, snapshot.lookupPrefix provider modelId = some entry ∧
      entry.1 ∈ exactKeys provider modelId
  longest : NoExact snapshot provider modelId →
    ∀ entry, snapshot.lookupPrefix provider modelId = some entry → entry ∈ snapshot.entries ∧
      ∃ normal, Matches provider modelId entry.1 normal ∧ Longest snapshot provider modelId normal ∧
        (entry.1 = composite (scope provider modelId).1 normal ∨
          snapshot.get (composite (scope provider modelId).1 normal) = none)
  missed : NoExact snapshot provider modelId → snapshot.lookupPrefix provider modelId = none →
    ∀ entry ∈ snapshot.entries, ∀ normal, ¬ Matches provider modelId entry.1 normal
  permitted : ∀ entry, snapshot.lookupPrefix provider modelId = some entry →
    Permitted provider modelId entry.1

/-- The longest match is there with the provider and without it. -/
def Tied : Prop :=
  NoExact snapshot provider modelId ∧ ∃ normal, normal ≠ [] ∧ '/' ∉ normal ∧
    normal <+: (scope provider modelId).2 ∧ (snapshot.get normal).isSome = true ∧
    (snapshot.get (composite (scope provider modelId).1 normal)).isSome = true ∧
    Longest snapshot provider modelId normal

/-- What the id has behind the vendor is the key of an entry of somebody else. -/
def Foreign : Prop :=
  ∃ vendor rest, splitSlash modelId = some (vendor, rest) ∧
    snapshot.get (composite provider modelId) = none ∧ snapshot.get modelId = none ∧
    (snapshot.get rest).isSome = true ∧ ¬ Permitted provider modelId rest

end Specification

section Keys

theorem composite_append (provider model : Text) :
    composite provider model = composite provider [] ++ model := by
  simp [composite]

theorem splitSlash_some {text before after : Text}
    (found : splitSlash text = some (before, after)) :
    text = composite before after ∧ '/' ∉ before := by
  induction text generalizing before with
  | nil => cases found
  | cons c rest ih =>
      rw [splitSlash] at found
      split at found
      next slash =>
        simp only [Option.some.injEq, Prod.mk.injEq] at found
        rw [← found.1, ← found.2, slash]
        exact ⟨rfl, List.not_mem_nil⟩
      next other =>
        obtain ⟨⟨inner, _⟩, deeper, same⟩ := Option.map_eq_some_iff.mp found
        simp only [Prod.mk.injEq] at same
        obtain ⟨rfl, rfl⟩ := same
        obtain ⟨rfl, free⟩ := ih deeper
        refine ⟨rfl, fun member => ?_⟩
        rcases List.mem_cons.mp member with same | member
        · exact other same.symm
        · exact free member

theorem splitSlash_none {text : Text} (missing : splitSlash text = none) : '/' ∉ text := by
  induction text with
  | nil => exact List.not_mem_nil
  | cons c rest ih =>
      rw [splitSlash] at missing
      split at missing
      next => cases missing
      next other =>
        intro member
        rcases List.mem_cons.mp member with same | member
        · exact other same.symm
        · exact ih (Option.map_eq_none_iff.mp missing) member

theorem normalized_eq_some (provider key normal : Text) :
    normalized provider key = some normal ↔
      key = composite provider normal ∨ (key = normal ∧ '/' ∉ normal) := by
  unfold normalized
  cases stripped : stripPrefix (composite provider []) key with
  | some rest =>
      have whole := (stripPrefix_eq_some _ _ _).mp stripped
      rw [Option.some.injEq]
      constructor
      · rintro rfl
        exact .inl (whole.trans (composite_append provider rest).symm)
      · rintro (same | ⟨rfl, bare⟩)
        · rw [same, composite_append] at whole
          exact (List.append_cancel_left whole).symm
        · refine absurd ?_ bare
          rw [whole]
          simp [composite]
  | none =>
      have unscoped : key ≠ composite provider normal := by
        intro same
        rw [(stripPrefix_eq_some _ _ normal).mpr (same.trans (composite_append _ _))] at stripped
        cases stripped
      by_cases slash : '/' ∈ key
      · simp only [slash, if_true, unscoped, false_or, reduceCtorEq, false_iff, not_and, not_not]
        rintro rfl
        exact slash
      · simp only [slash, if_false, Option.some.injEq, unscoped, false_or]
        constructor
        · rintro rfl
          exact ⟨rfl, slash⟩
        · exact fun same => same.1

theorem candidate_eq_some (provider modelId key : Text) (found : Nat × Text) :
    candidate provider modelId key = some found ↔
      ∃ normal, normalized provider key = some normal ∧ normal ≠ [] ∧ normal <+: modelId ∧
        found = (byteLength normal, key) := by
  unfold candidate
  cases normalized provider key with
  | none => simp
  | some normal =>
      simp only [Option.bind_some, Option.some.injEq, exists_eq_left']
      split
      next starts => simp [starts, eq_comm]
      next other =>
        simp only [reduceCtorEq, false_iff]
        exact fun starts => other ⟨starts.1, starts.2.1⟩

theorem prefix_eq {text left right : Text} (first : left <+: text) (second : right <+: text)
    (lengths : byteLength left = byteLength right) : left = right := by
  have same {short long : Text} (inside : short <+: long)
      (lengths : byteLength short = byteLength long) : short = long := by
    obtain ⟨more, rfl⟩ := inside
    rw [Utf8.byteLength_append] at lengths
    have empty := (Utf8.byteLength_eq_zero more).mp (by omega)
    rw [empty, List.append_nil]
  rcases List.prefix_or_prefix_of_prefix first second with inside | inside
  · exact same inside lengths
  · exact (same inside lengths.symm).symm

end Keys

section Walk

variable {Entry : Type} (snapshot : ModelCatalogSnapshot Entry) (provider modelId : Text)

theorem get_eq_some (key : Text) (entry : Text × Entry) :
    snapshot.get key = some entry ↔ entry ∈ snapshot.entries ∧ entry.1 = key :=
  Machine.find_key_eq_some Prod.fst snapshot.distinct key entry

theorem get_mem {entry : Text × Entry} (member : entry ∈ snapshot.entries) :
    snapshot.get entry.1 = some entry :=
  (get_eq_some snapshot entry.1 entry).mpr ⟨member, rfl⟩

theorem prefixWalk_eq :
    snapshot.prefixWalk provider modelId =
      (((snapshot.entries.map Prod.fst).filterMap
        (candidate provider modelId)).argmax Prod.fst).bind fun best => snapshot.get best.2 := by
  have walk : ∀ best found, keepLonger best found =
      List.argAux (fun b c : Nat × Text => c.1 < b.1) best found := by
    intro best found
    cases best <;> simp [keepLonger, List.argAux]
  unfold ModelCatalogSnapshot.prefixWalk List.argmax
  rw [List.foldl_filterMap]
  refine congrArg (fun best : Option (Nat × Text) => best.bind fun found => snapshot.get found.2) ?_
  refine List.foldl_ext _ _ _ fun best key _ => ?_
  cases candidate provider modelId key with
  | none => rfl
  | some found => exact walk best found

theorem mem_candidates (best : Nat × Text) :
    best ∈ (snapshot.entries.map Prod.fst).filterMap (candidate provider modelId) ↔
      ∃ entry ∈ snapshot.entries, ∃ normal, normalized provider entry.1 = some normal ∧
        normal ≠ [] ∧ normal <+: modelId ∧ best = (byteLength normal, entry.1) := by
  simp only [List.mem_filterMap, List.mem_map, exists_exists_and_eq_and, candidate_eq_some]

theorem prefixWalk_some {entry : Text × Entry}
    (found : snapshot.prefixWalk provider modelId = some entry) :
    entry ∈ snapshot.entries ∧ ∃ normal, normalized provider entry.1 = some normal ∧ normal ≠ [] ∧
      normal <+: modelId ∧
      ∀ other ∈ snapshot.entries, ∀ more, normalized provider other.1 = some more → more ≠ [] →
        more <+: modelId → byteLength more ≤ byteLength normal := by
  rw [prefixWalk_eq] at found
  obtain ⟨best, longest, held⟩ := Option.bind_eq_some_iff.mp found
  obtain ⟨member, same⟩ := (get_eq_some snapshot _ _).mp held
  obtain ⟨other, -, normal, compared, some_, starts, rfl⟩ :=
    (mem_candidates snapshot provider modelId best).mp (List.argmax_mem longest)
  refine ⟨member, normal, ?_, some_, starts, fun rival inside more compared' some' starts' => ?_⟩
  · rw [same]
    exact compared
  · have listed := (mem_candidates snapshot provider modelId (byteLength more, rival.1)).mpr
      ⟨rival, inside, more, compared', some', starts', rfl⟩
    exact List.le_of_mem_argmax (f := Prod.fst) listed longest

theorem prefixWalk_none :
    snapshot.prefixWalk provider modelId = none ↔
      ∀ entry ∈ snapshot.entries, ∀ normal, normalized provider entry.1 = some normal →
        normal ≠ [] → ¬ normal <+: modelId := by
  rw [prefixWalk_eq]
  constructor
  · intro missing entry member normal compared some_ starts
    cases longest : ((snapshot.entries.map Prod.fst).filterMap
        (candidate provider modelId)).argmax Prod.fst with
    | none =>
        have empty := List.argmax_eq_none.mp longest
        have there := (mem_candidates snapshot provider modelId _).mpr
          ⟨entry, member, normal, compared, some_, starts, rfl⟩
        rw [empty] at there
        cases there
    | some best =>
        obtain ⟨other, inside, _, _, _, _, rfl⟩ :=
          (mem_candidates snapshot provider modelId best).mp (List.argmax_mem longest)
        rw [longest, Option.bind_some, get_mem snapshot inside] at missing
        cases missing
  · intro unmatched
    have empty : (snapshot.entries.map Prod.fst).filterMap (candidate provider modelId) = [] := by
      refine List.eq_nil_iff_forall_not_mem.mpr fun best there => ?_
      obtain ⟨entry, member, normal, compared, some_, starts, -⟩ :=
        (mem_candidates snapshot provider modelId best).mp there
      exact unmatched entry member normal compared some_ starts
    rw [empty]
    rfl

theorem prefixWalk_first {first : Text × Entry} {rest : List (Text × Entry)}
    (starts : snapshot.entries = first :: rest) {normal : Text}
    (compared : normalized provider first.1 = some normal) (some_ : normal ≠ [])
    (inside : normal <+: modelId)
    (longest : ∀ other ∈ snapshot.entries, ∀ more, normalized provider other.1 = some more →
      more ≠ [] → more <+: modelId → byteLength more ≤ byteLength normal) :
    snapshot.prefixWalk provider modelId = some first := by
  have own : candidate provider modelId first.1 = some (byteLength normal, first.1) :=
    (candidate_eq_some _ _ _ _).mpr ⟨normal, compared, some_, inside, rfl⟩
  have best : ((snapshot.entries.map Prod.fst).filterMap
      (candidate provider modelId)).argmax Prod.fst = some (byteLength normal, first.1) := by
    rw [starts, List.map_cons, List.filterMap_cons, own, List.argmax_cons]
    cases later : ((rest.map Prod.fst).filterMap (candidate provider modelId)).argmax Prod.fst with
    | none => rfl
    | some other =>
        have member := List.argmax_mem later
        simp only [List.mem_filterMap, List.mem_map, exists_exists_and_eq_and,
          candidate_eq_some] at member
        obtain ⟨entry, there, more, compared', some', inside', rfl⟩ := member
        refine if_neg (not_lt.mpr (longest entry ?_ more compared' some' inside'))
        rw [starts]
        exact List.mem_cons_of_mem _ there
  rw [prefixWalk_eq, best, Option.bind_some]
  exact get_mem snapshot (by rw [starts]; exact List.mem_cons_self)

theorem lookupPrefix_eq :
    snapshot.lookupPrefix provider modelId =
      ((exactKeys provider modelId).findSome? snapshot.get).or
        (snapshot.prefixWalk (scope provider modelId).1 (scope provider modelId).2) := by
  unfold ModelCatalogSnapshot.lookupPrefix ModelCatalogSnapshot.lookupForProvider exactKeys scope
  cases splitSlash modelId with
  | none =>
      simp only [List.append_nil, List.findSome?_cons, List.findSome?_nil, Option.getD_none]
      cases snapshot.get (composite provider modelId) with
      | some entry => rfl
      | none => cases snapshot.get modelId <;> rfl
  | some parts =>
      simp only [List.cons_append, List.nil_append, List.findSome?_cons, List.findSome?_nil,
        Option.getD_some]
      cases snapshot.get (composite provider modelId) with
      | some entry => rfl
      | none =>
          cases snapshot.get modelId with
          | some entry => rfl
          | none =>
              cases snapshot.get (composite parts.1 parts.2) with
              | some entry => rfl
              | none => cases snapshot.get parts.2 <;> rfl

end Walk

section Orders

variable {Entry : Type} {snapshot other : ModelCatalogSnapshot Entry} {provider modelId : Text}

theorem get_perm (same : other.entries.Perm snapshot.entries) : other.get = snapshot.get := by
  funext key
  refine Option.ext fun entry => ?_
  rw [get_eq_some, get_eq_some, same.mem_iff]

theorem findSome_none :
    (exactKeys provider modelId).findSome? snapshot.get = none ↔
      NoExact snapshot provider modelId := by
  simp [NoExact, List.findSome?_eq_none_iff]

theorem lookupPrefix_noExact (missing : NoExact snapshot provider modelId) :
    snapshot.lookupPrefix provider modelId =
      snapshot.prefixWalk (scope provider modelId).1 (scope provider modelId).2 := by
  rw [lookupPrefix_eq, findSome_none.mpr missing, Option.none_or]

theorem lookupPrefix_exact (present : ¬ NoExact snapshot provider modelId) :
    ∃ entry, (exactKeys provider modelId).findSome? snapshot.get = some entry ∧
      snapshot.lookupPrefix provider modelId = some entry ∧
      entry.1 ∈ exactKeys provider modelId := by
  cases found : (exactKeys provider modelId).findSome? snapshot.get with
  | none => exact absurd (findSome_none.mp found) present
  | some entry =>
      refine ⟨entry, rfl, by rw [lookupPrefix_eq, found, Option.some_or], ?_⟩
      obtain ⟨key, member, held⟩ := List.exists_of_findSome?_eq_some found
      rw [((get_eq_some snapshot key entry).mp held).2]
      exact member

theorem walk_longest (missing : NoExact snapshot provider modelId) {entry : Text × Entry}
    (found : snapshot.lookupPrefix provider modelId = some entry) :
    entry ∈ snapshot.entries ∧ ∃ normal, Matches provider modelId entry.1 normal ∧
      Longest snapshot provider modelId normal := by
  rw [lookupPrefix_noExact missing] at found
  obtain ⟨member, normal, compared, some_, starts, longest⟩ := prefixWalk_some snapshot _ _ found
  exact ⟨member, normal, ⟨compared, some_, starts⟩, fun entry inside other match_ =>
    longest entry inside other match_.1 match_.2.1 match_.2.2⟩

theorem walk_missed (missing : NoExact snapshot provider modelId) :
    snapshot.lookupPrefix provider modelId = none ↔
      ∀ entry ∈ snapshot.entries, ∀ normal, ¬ Matches provider modelId entry.1 normal := by
  rw [lookupPrefix_noExact missing, prefixWalk_none]
  simp [Matches]

theorem longest_unique (missing : NoExact snapshot provider modelId)
    (untied : ¬ Tied snapshot provider modelId) {first second : Text × Entry} {left right : Text}
    (inside : first ∈ snapshot.entries) (inside' : second ∈ snapshot.entries)
    (match_ : Matches provider modelId first.1 left)
    (match_' : Matches provider modelId second.1 right)
    (longest : Longest snapshot provider modelId left)
    (longest' : Longest snapshot provider modelId right) : first = second := by
  obtain rfl : left = right := prefix_eq match_.2.2 match_'.2.2
    (le_antisymm (longest' first inside left match_) (longest second inside' right match_'))
  have apart (bare : '/' ∉ left) (plain : (snapshot.get left).isSome = true)
      (owned : (snapshot.get (composite (scope provider modelId).1 left)).isSome = true) : False :=
    untied ⟨missing, left, match_.2.1, bare, match_.2.2, plain, owned, longest⟩
  have found {entry : Text × Entry} (there : entry ∈ snapshot.entries) {key : Text}
      (same : entry.1 = key) : (snapshot.get key).isSome = true := by
    rw [← same, get_mem snapshot there]
    rfl
  have same : first.1 = second.1 := by
    rcases (normalized_eq_some _ _ _).mp match_.1 with owned | ⟨plain, bare⟩ <;>
      rcases (normalized_eq_some _ _ _).mp match_'.1 with owned' | ⟨plain', bare'⟩
    · exact owned.trans owned'.symm
    · exact (apart bare' (found inside' plain') (found inside owned)).elim
    · exact (apart bare (found inside plain) (found inside' owned')).elim
    · exact plain.trans plain'.symm
  have held := get_mem snapshot inside
  rw [same, get_mem snapshot inside', Option.some.injEq] at held
  exact held.symm

theorem sameEntry_of_untied (untied : ¬ Tied snapshot provider modelId)
    (same : other.entries.Perm snapshot.entries) :
    other.lookupPrefix provider modelId = snapshot.lookupPrefix provider modelId := by
  by_cases missing : NoExact snapshot provider modelId
  next =>
    have missing' : NoExact other provider modelId := by
      intro key member
      rw [get_perm same]
      exact missing key member
    cases found : snapshot.lookupPrefix provider modelId with
    | none =>
        refine (walk_missed missing').mpr fun entry inside => ?_
        exact (walk_missed missing).mp found entry (same.mem_iff.mp inside)
    | some entry =>
        obtain ⟨inside, normal, match_, longest⟩ := walk_longest missing found
        cases found' : other.lookupPrefix provider modelId with
        | none =>
            have unmatched := (walk_missed missing').mp found' entry (same.mem_iff.mpr inside)
            exact absurd match_ (unmatched normal)
        | some entry' =>
            obtain ⟨inside', normal', match_', longest'⟩ := walk_longest missing' found'
            refine congrArg some (longest_unique missing untied (same.mem_iff.mp inside') inside
              match_' match_ (fun rival there => longest' rival (same.mem_iff.mpr there)) longest)
  next =>
    obtain ⟨entry, first, found, -⟩ := lookupPrefix_exact missing
    rw [found, lookupPrefix_eq, get_perm same, first, Option.some_or]

theorem tied_bare (tied : Tied snapshot provider modelId) :
    ∃ other : ModelCatalogSnapshot Entry, other.entries.Perm snapshot.entries ∧
      ∃ entry normal, other.lookupPrefix provider modelId = some entry ∧ entry.1 = normal ∧
        '/' ∉ normal ∧
        (snapshot.get (composite (scope provider modelId).1 normal)).isSome = true := by
  obtain ⟨missing, normal, some_, bare, starts, plain, owned, longest⟩ := tied
  obtain ⟨entry, held⟩ := Option.isSome_iff_exists.mp plain
  obtain ⟨member, rfl⟩ := (get_eq_some snapshot _ _).mp held
  obtain ⟨before, after, split⟩ := List.append_of_mem member
  have moved : (entry :: (before ++ after)).Perm snapshot.entries := by
    rw [split]
    exact List.perm_middle.symm
  let other : ModelCatalogSnapshot Entry :=
    ⟨entry :: (before ++ after), (moved.map Prod.fst).nodup_iff.mpr snapshot.distinct⟩
  have same : other.entries.Perm snapshot.entries := moved
  refine ⟨other, same, entry, entry.1, ?_, rfl, bare, owned⟩
  have missing' : NoExact other provider modelId := by
    intro key member
    rw [get_perm same]
    exact missing key member
  rw [lookupPrefix_noExact missing']
  refine prefixWalk_first other _ _ rfl ((normalized_eq_some _ _ _).mpr (.inr ⟨rfl, bare⟩)) some_
    starts fun rival inside more compared some' starts' => ?_
  exact longest rival (same.mem_iff.mp inside) more ⟨compared, some', starts'⟩

end Orders

section Permission

variable {Entry : Type} {snapshot : ModelCatalogSnapshot Entry} {provider modelId : Text}

theorem matches_permitted {key normal : Text} (match_ : Matches provider modelId key normal) :
    Permitted provider modelId key := by
  rcases (normalized_eq_some _ _ _).mp match_.1 with owned | ⟨plain, bare⟩
  · refine .inr (.inr ⟨normal, ?_⟩)
    rw [owned, ← composite_append]
  · rw [plain]
    exact .inl bare

theorem modelId_permitted : Permitted provider modelId modelId := by
  cases split : splitSlash modelId with
  | none => exact .inl (splitSlash_none split)
  | some parts =>
      obtain ⟨whole, -⟩ := splitSlash_some split
      refine .inr (.inr ⟨parts.2, ?_⟩)
      rw [scope, split, Option.getD_some, ← composite_append]
      exact whole.symm

theorem exact_permitted_iff (present : ¬ NoExact snapshot provider modelId) :
    (∀ entry, snapshot.lookupPrefix provider modelId = some entry →
      Permitted provider modelId entry.1) ↔ ¬ Foreign snapshot provider modelId := by
  obtain ⟨entry, first, found, -⟩ := lookupPrefix_exact present
  have here : (∀ entry, snapshot.lookupPrefix provider modelId = some entry →
      Permitted provider modelId entry.1) ↔ Permitted provider modelId entry.1 := by
    rw [found]
    simp
  rw [here]
  have certain (permitted : Permitted provider modelId entry.1)
      (own : ¬ Foreign snapshot provider modelId) :
      Permitted provider modelId entry.1 ↔ ¬ Foreign snapshot provider modelId :=
    iff_of_true permitted own
  have key_of {key : Text} (held : snapshot.get key = some entry) : entry.1 = key :=
    ((get_eq_some snapshot key entry).mp held).2
  cases exact_ : snapshot.get (composite provider modelId) with
  | some other =>
      obtain rfl : other = entry := by
        simpa [exactKeys, List.findSome?_cons, exact_] using first
      refine certain (.inr (.inl ⟨modelId, ?_⟩)) ?_
      · rw [key_of exact_, ← composite_append]
      · rintro ⟨_, _, -, missing, -⟩
        rw [exact_] at missing
        cases missing
  | none =>
      cases bare : snapshot.get modelId with
      | some other =>
          obtain rfl : other = entry := by
            simpa [exactKeys, List.findSome?_cons, exact_, bare] using first
          refine certain ?_ ?_
          · rw [key_of bare]
            exact modelId_permitted
          · rintro ⟨_, _, -, -, missing, -⟩
            rw [bare] at missing
            cases missing
      | none =>
          cases split : splitSlash modelId with
          | none => simp [exactKeys, exact_, bare, split] at first
          | some parts =>
              obtain ⟨vendor, rest⟩ := parts
              obtain ⟨whole, -⟩ := splitSlash_some split
              have behind : snapshot.get rest = some entry := by
                simp only [exactKeys, split, List.cons_append, List.nil_append,
                  List.findSome?_cons, List.findSome?_nil, exact_, bare, ← whole] at first
                cases held : snapshot.get rest with
                | none => simp [held] at first
                | some other => simpa [held] using first
              rw [key_of behind]
              constructor
              · rintro permitted ⟨_, other, split', -, -, -, foreign⟩
                rw [split, Option.some.injEq, Prod.mk.injEq] at split'
                rw [← split'.2] at foreign
                exact foreign permitted
              · intro own
                by_contra foreign
                exact own ⟨vendor, rest, split, exact_, bare, by rw [behind]; rfl, foreign⟩

end Permission

/-- A lookup is well defined just where no two entries tie and no other one's entry is exact. -/
theorem wellDefined_iff {Entry : Type} (snapshot : ModelCatalogSnapshot Entry)
    (provider modelId : Text) :
    WellDefined snapshot provider modelId ↔
      ¬ Tied snapshot provider modelId ∧ ¬ Foreign snapshot provider modelId := by
  constructor
  · refine fun defined => ⟨fun tied => ?_, fun foreign => ?_⟩
    · obtain ⟨other, same, entry, normal, found, rfl, bare, owned⟩ := tied_bare tied
      rw [defined.sameEntry other same] at found
      obtain ⟨-, normal, match_, -, preferred⟩ := defined.longest tied.1 entry found
      rcases (normalized_eq_some _ _ _).mp match_.1 with key | ⟨key, -⟩
      · rw [key] at bare
        simp [composite] at bare
      · rw [← key] at preferred
        rcases preferred with key | absent
        · rw [key] at bare
          simp [composite] at bare
        · rw [absent] at owned
          cases owned
    · have present : ¬ NoExact snapshot provider modelId := by
        obtain ⟨vendor, rest, split, -, -, behind, -⟩ := foreign
        intro missing
        rw [missing rest (by simp [exactKeys, split])] at behind
        cases behind
      exact (exact_permitted_iff present).mp defined.permitted foreign
  · rintro ⟨untied, own⟩
    refine ⟨fun other same => sameEntry_of_untied untied same, ?_, ?_, ?_, ?_⟩
    · intro key member held
      have present : ¬ NoExact snapshot provider modelId := by
        intro missing
        rw [missing key member] at held
        cases held
      obtain ⟨entry, -, found, listed⟩ := lookupPrefix_exact present
      exact ⟨entry, found, listed⟩
    · intro missing entry found
      obtain ⟨inside, normal, match_, longest⟩ := walk_longest missing found
      refine ⟨inside, normal, match_, longest, ?_⟩
      by_contra bare
      obtain ⟨other, absent⟩ := not_or.mp bare
      obtain ⟨key, free⟩ := ((normalized_eq_some _ _ _).mp match_.1).resolve_left other
      refine untied ⟨missing, normal, match_.2.1, free, match_.2.2, ?_,
        Option.isSome_iff_ne_none.mpr absent, longest⟩
      rw [← key, get_mem snapshot inside]
      rfl
    · exact fun missing found => (walk_missed missing).mp found
    · by_cases missing : NoExact snapshot provider modelId
      next =>
        intro entry found
        obtain ⟨-, normal, match_, -⟩ := walk_longest missing found
        exact matches_permitted match_
      next => exact (exact_permitted_iff missing).mpr own

def oneModelTwice : ModelCatalogSnapshot Nat :=
  ⟨[(['g'], 1), (['p', '/', 'g'], 2)], by decide⟩

theorem order_decides : ¬ ∀ (snapshot : ModelCatalogSnapshot Nat) (provider modelId : Text),
    WellDefined snapshot provider modelId := by
  intro claimed
  have swapped : (⟨[(['p', '/', 'g'], 2), (['g'], 1)], by decide⟩ :
      ModelCatalogSnapshot Nat).lookupPrefix ['p'] ['g', '4'] = some (['p', '/', 'g'], 2) := by
    decide
  rw [(claimed oneModelTwice ['p'] ['g', '4']).sameEntry _ (List.Perm.swap _ _ _)] at swapped
  exact absurd swapped (by decide)

end Frona.Catalog
