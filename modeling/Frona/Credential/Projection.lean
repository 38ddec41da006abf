import Frona.Credential.Vault
import Mathlib.Data.List.Perm.Basic

set_option autoImplicit false

namespace Frona.Vault

open Utf8 (Text)
open Frona.Text (trim)

section Entries

variable (toUppercase : Text → Text) (secret : VaultSecret)

def VaultSecret.fieldNames : List Text :=
  secret.username.toList.map (fun _ => "USERNAME".toList) ++
    secret.password.toList.map (fun _ => "PASSWORD".toList) ++
    secret.fields.map fun field => envSuffix toUppercase field.1

def VaultSecret.entries : List (Text × Text) :=
  secret.username.toList.map (fun value => ("USERNAME".toList, value)) ++
    secret.password.toList.map (fun value => ("PASSWORD".toList, value)) ++
    secret.fields.map fun field => (envSuffix toUppercase field.1, field.2)

def prefixedName (envVarPrefix suffix : Text) : Text :=
  envVarPrefix ++ (if envVarPrefix.isEmpty then [] else ['_']) ++ suffix

theorem prefixedName_inj {envVarPrefix left right : Text}
    (same : prefixedName envVarPrefix left = prefixedName envVarPrefix right) : left = right :=
  List.append_cancel_left same

theorem toEnvVars_eq (envVarPrefix : Text) :
    secret.toEnvVars toUppercase envVarPrefix = (secret.entries toUppercase).map fun entry =>
      (prefixedName envVarPrefix entry.1, trim entry.2) := by
  simp [VaultSecret.toEnvVars, VaultSecret.entries, prefixedName, Function.comp_def]

theorem mem_entries (suffix value : Text) :
    (suffix, value) ∈ secret.entries toUppercase ↔
      (secret.username = some value ∧ suffix = "USERNAME".toList) ∨
      (secret.password = some value ∧ suffix = "PASSWORD".toList) ∨
      ∃ key, (key, value) ∈ secret.fields ∧ suffix = envSuffix toUppercase key := by
  unfold VaultSecret.entries
  simp only [List.mem_append, List.mem_map, Option.mem_toList, Prod.mk.injEq, Prod.exists]
  constructor
  · rintro ((⟨_, own, rfl, rfl⟩ | ⟨_, own, rfl, rfl⟩) | ⟨key, _, member, rfl, rfl⟩)
    · exact .inl ⟨own, rfl⟩
    · exact .inr (.inl ⟨own, rfl⟩)
    · exact .inr (.inr ⟨key, member, rfl⟩)
  · rintro (⟨own, rfl⟩ | ⟨own, rfl⟩ | ⟨key, member, rfl⟩)
    · exact .inl (.inl ⟨_, own, rfl, rfl⟩)
    · exact .inl (.inr ⟨_, own, rfl, rfl⟩)
    · exact .inr ⟨key, _, member, rfl, rfl⟩

theorem entries_names : (secret.entries toUppercase).map Prod.fst =
    secret.fieldNames toUppercase := by
  simp [VaultSecret.entries, VaultSecret.fieldNames, Function.comp_def]

theorem entries_perm {fields : List (Text × Text)} (perm : fields.Perm secret.fields) :
    (VaultSecret.entries toUppercase { secret with fields := fields }).Perm
      (secret.entries toUppercase) :=
  (perm.map _).append_left _

def VaultSecret.single (secret : VaultSecret) : VaultField → Option Text
  | .password => secret.password.or (secret.custom toUppercase "PASSWORD".toList)
  | .username => secret.username.or (secret.custom toUppercase "USERNAME".toList)
  | .custom name => secret.custom toUppercase name

theorem projectTarget_single (envVar : Text) (field : VaultField) :
    projectTarget toUppercase secret (.single envVar field) =
      match secret.single toUppercase field with
      | some value => .ok [(envVar, value)]
      | none => .error (.validation
          ("required field is missing from vault item ".toList ++ secret.id)) := by
  cases field <;> rfl

def VaultField.suffix : VaultField → Text
  | .password => "PASSWORD".toList
  | .username => "USERNAME".toList
  | .custom name => envSuffix toUppercase name

theorem envSuffix_no_space (key : Text) : ' ' ∉ envSuffix toUppercase key := by
  intro member
  obtain ⟨c, -, same⟩ := List.mem_map.mp member
  split at same
  · simp at same
  · contradiction

variable {toUppercase} in
theorem envSuffix_eq {key name : Text} (same : envSuffix toUppercase key = toUppercase name) :
    envSuffix toUppercase name = envSuffix toUppercase key := by
  have solid := envSuffix_no_space toUppercase key
  rw [same] at solid ⊢
  unfold envSuffix
  conv_rhs => rw [← List.map_id (toUppercase name)]
  refine List.map_congr_left fun c member => ?_
  have other : c ≠ ' ' := by
    rintro rfl
    exact solid member
  simp [other]

end Entries

section Consistent

variable (toUppercase : Text → Text)

/-- `str::to_uppercase` leaves capitals as they are. -/
def KeepsCapitals : Prop :=
  ∀ text : Text, (∀ c ∈ text, 'A' ≤ c ∧ c ≤ 'Z') → toUppercase text = text

def environment (vars : List (Text × Text)) (name : Text) : Option Text :=
  vars.reverse.lookup name

structure Consistent (secret : VaultSecret) : Prop where
  distinct : ∀ target vars, projectTarget toUppercase secret target = .ok vars →
    ∀ name left right, (name, left) ∈ vars → (name, right) ∈ vars → left = right
  named : ∀ envVarPrefix vars,
    projectTarget toUppercase secret (.prefixed envVarPrefix) = .ok vars →
      vars.map Prod.fst = (secret.fieldNames toUppercase).map (prefixedName envVarPrefix)
  single : ∀ envVar field value,
    projectTarget toUppercase secret (.single envVar field) = .ok [(envVar, value)] →
      ∀ envVarPrefix, (prefixedName envVarPrefix (field.suffix toUppercase), value) ∈
        secret.toEnvVars toUppercase envVarPrefix

/-- In whichever order the fields are walked, the environment is consistent and the same. -/
def Unambiguous (secret : VaultSecret) : Prop :=
  ∀ fields, fields.Perm secret.fields →
    Consistent toUppercase { secret with fields := fields } ∧
    ∀ target, (projectTarget toUppercase { secret with fields := fields } target).map environment =
      (projectTarget toUppercase secret target).map environment

/-- No value has blanks around it, and fields with one name have one value. -/
structure Plain (secret : VaultSecret) : Prop where
  trimmed : ∀ entry ∈ secret.entries toUppercase, trim entry.2 = entry.2
  agree : ∀ left ∈ secret.entries toUppercase, ∀ right ∈ secret.entries toUppercase,
    left.1 = right.1 → left.2 = right.2

variable {toUppercase} {secret : VaultSecret}

theorem Plain.perm (plain : Plain toUppercase secret) {fields : List (Text × Text)}
    (perm : fields.Perm secret.fields) : Plain toUppercase { secret with fields := fields } where
  trimmed entry member :=
    plain.trimmed entry ((entries_perm toUppercase secret perm).mem_iff.mp member)
  agree left inLeft right inRight :=
    plain.agree left ((entries_perm toUppercase secret perm).mem_iff.mp inLeft) right
      ((entries_perm toUppercase secret perm).mem_iff.mp inRight)

theorem mem_toEnvVars {envVarPrefix suffix value : Text} :
    (prefixedName envVarPrefix suffix, value) ∈ secret.toEnvVars toUppercase envVarPrefix ↔
      ∃ raw, (suffix, raw) ∈ secret.entries toUppercase ∧ trim raw = value := by
  rw [toEnvVars_eq, List.mem_map]
  constructor
  · rintro ⟨entry, member, same⟩
    simp only [Prod.mk.injEq] at same
    obtain ⟨name, rfl⟩ := same
    obtain rfl := prefixedName_inj name
    exact ⟨entry.2, member, rfl⟩
  · rintro ⟨raw, member, rfl⟩
    exact ⟨_, member, rfl⟩

section Single

variable (capitals : KeepsCapitals toUppercase)
include capitals

theorem suffix_custom (name : Text) (upper : ∀ c ∈ name, 'A' ≤ c ∧ c ≤ 'Z') :
    envSuffix toUppercase name = name := by
  rw [envSuffix, capitals name upper]
  conv_rhs => rw [← List.map_id name]
  refine List.map_congr_left fun c member => ?_
  have other : c ≠ ' ' := by
    rintro rfl
    exact absurd (upper ' ' member).1 (by decide)
  simp [other]

omit capitals in
theorem custom_entry {name value : Text} (found : secret.custom toUppercase name = some value) :
    (envSuffix toUppercase name, value) ∈ secret.entries toUppercase := by
  obtain ⟨field, first, rfl⟩ := Option.map_eq_some_iff.mp found
  rw [mem_entries]
  right
  right
  rcases Option.or_eq_some_iff.mp first with exactly | ⟨-, close⟩
  · have named : field.1 = name := by simpa using List.find?_some exactly
    exact ⟨field.1, List.mem_of_find?_eq_some exactly, by rw [named]⟩
  · have named : envSuffix toUppercase field.1 = toUppercase name := by
      simpa using List.find?_some close
    exact ⟨field.1, List.mem_of_find?_eq_some close, envSuffix_eq named⟩

theorem single_entry {field : VaultField} {value : Text}
    (projected : secret.single toUppercase field = some value) :
    (field.suffix toUppercase, value) ∈ secret.entries toUppercase := by
  have letters (name : Text) (upper : ∀ c ∈ name, 'A' ≤ c ∧ c ≤ 'Z')
      (found : secret.custom toUppercase name = some value) :
      (name, value) ∈ secret.entries toUppercase := by
    have entry := custom_entry found
    rwa [suffix_custom capitals name upper] at entry
  cases field with
  | password =>
      rcases Option.or_eq_some_iff.mp projected with own | ⟨-, other⟩
      · exact (mem_entries _ _ _ _).mpr (.inr (.inl ⟨own, rfl⟩))
      · refine letters "PASSWORD".toList ?_ other
        rw [String.toList_ofList]
        simp
  | username =>
      rcases Option.or_eq_some_iff.mp projected with own | ⟨-, other⟩
      · exact (mem_entries _ _ _ _).mpr (.inl ⟨own, rfl⟩)
      · refine letters "USERNAME".toList ?_ other
        rw [String.toList_ofList]
        simp
  | custom name => exact custom_entry projected

end Single

theorem environment_eq_some {vars : List (Text × Text)} {name : Text}
    (distinct : ∀ left right, (name, left) ∈ vars → (name, right) ∈ vars → left = right)
    (value : Text) : environment vars name = some value ↔ (name, value) ∈ vars := by
  unfold environment
  have last (other : Text) (found : vars.reverse.lookup name = some other) :
      (name, other) ∈ vars := by
    obtain ⟨before, after, split, -⟩ := List.lookup_eq_some_iff.mp found
    rw [← List.mem_reverse, split]
    simp
  constructor
  · exact last value
  · intro member
    cases found : vars.reverse.lookup name with
    | none =>
        rw [List.lookup_eq_none_iff] at found
        have := found (name, value) (List.mem_reverse.mpr member)
        simp at this
    | some other => rw [distinct other value (last other found) member]

theorem environment_perm {left right : List (Text × Text)} (perm : left.Perm right)
    (distinct : ∀ name first second, (name, first) ∈ left → (name, second) ∈ left →
      first = second) : environment left = environment right := by
  funext name
  apply Option.ext
  intro value
  rw [environment_eq_some (distinct name), environment_eq_some, perm.mem_iff]
  intro first second here there
  exact distinct name first second (perm.mem_iff.mpr here) (perm.mem_iff.mpr there)

section Exact

theorem Plain.distinct (plain : Plain toUppercase secret) {target : CredentialTarget}
    {vars : List (Text × Text)} (projected : projectTarget toUppercase secret target = .ok vars)
    {name left right : Text} (here : (name, left) ∈ vars) (there : (name, right) ∈ vars) :
    left = right := by
  cases target with
  | prefixed envVarPrefix =>
      obtain rfl := Except.ok.inj projected
      rw [toEnvVars_eq] at here there
      obtain ⟨first, inFirst, sameFirst⟩ := List.mem_map.mp here
      obtain ⟨second, inSecond, sameSecond⟩ := List.mem_map.mp there
      simp only [Prod.mk.injEq] at sameFirst sameSecond
      have suffix := prefixedName_inj (sameFirst.1.trans sameSecond.1.symm)
      rw [← sameFirst.2, ← sameSecond.2, plain.agree first inFirst second inSecond suffix]
  | single envVar field =>
      rw [projectTarget_single] at projected
      split at projected
      · obtain rfl := Except.ok.inj projected
        simp only [List.mem_singleton, Prod.mk.injEq] at here there
        exact here.2.trans there.2.symm
      · cases projected

theorem named_fields (envVarPrefix : Text) :
    (secret.toEnvVars toUppercase envVarPrefix).map Prod.fst =
      (secret.fieldNames toUppercase).map (prefixedName envVarPrefix) := by
  rw [toEnvVars_eq, ← entries_names, List.map_map, List.map_map]
  rfl

variable (toUppercase) in
theorem single_isSome_perm {fields : List (Text × Text)} (perm : fields.Perm secret.fields)
    (field : VaultField) :
    (VaultSecret.single toUppercase { secret with fields := fields } field).isSome =
      (secret.single toUppercase field).isSome := by
  have found (keep : Text × Text → Bool) :
      (fields.find? keep).isSome = (secret.fields.find? keep).isSome := by
    rw [List.isSome_find?, List.isSome_find?, perm.any_eq]
  have custom (name : Text) :
      (VaultSecret.custom toUppercase { secret with fields := fields } name).isSome =
        (secret.custom toUppercase name).isSome := by
    simp only [VaultSecret.custom, Option.isSome_map, Option.isSome_or, found]
  cases field with
  | password => simp only [VaultSecret.single, Option.isSome_or, custom]
  | username => simp only [VaultSecret.single, Option.isSome_or, custom]
  | custom name => exact custom name

variable (capitals : KeepsCapitals toUppercase)
include capitals

theorem Plain.consistent (plain : Plain toUppercase secret) :
    Consistent toUppercase secret where
  distinct _ _ projected _ _ _ here there := plain.distinct projected here there
  named envVarPrefix vars projected := by
    obtain rfl := Except.ok.inj projected
    exact named_fields envVarPrefix
  single envVar field value projected envVarPrefix := by
    rw [projectTarget_single] at projected
    split at projected
    next other found =>
      obtain rfl : other = value := by simpa using Except.ok.inj projected
      have entry := single_entry capitals found
      exact mem_toEnvVars.mpr ⟨other, entry, plain.trimmed _ entry⟩
    next => cases projected

theorem Plain.single_perm (plain : Plain toUppercase secret) {fields : List (Text × Text)}
    (perm : fields.Perm secret.fields) (field : VaultField) :
    VaultSecret.single toUppercase { secret with fields := fields } field =
      secret.single toUppercase field := by
  have filled := single_isSome_perm toUppercase perm field
  cases here : secret.single toUppercase field with
  | none =>
      rw [here] at filled
      exact Option.not_isSome_iff_eq_none.mp (by simp [filled])
  | some value =>
      rw [here] at filled
      obtain ⟨other, there⟩ := Option.isSome_iff_exists.mp filled
      have listed := (entries_perm toUppercase secret perm).mem_iff.mp (single_entry capitals there)
      rw [there]
      exact congrArg some (plain.agree _ listed _ (single_entry capitals here) rfl)

theorem Plain.unambiguous (plain : Plain toUppercase secret) :
    Unambiguous toUppercase secret := by
  intro fields perm
  refine ⟨(plain.perm perm).consistent capitals, fun target => ?_⟩
  cases target with
  | prefixed envVarPrefix =>
      have vars : (VaultSecret.toEnvVars toUppercase { secret with fields := fields }
          envVarPrefix).Perm (secret.toEnvVars toUppercase envVarPrefix) := by
        rw [toEnvVars_eq, toEnvVars_eq]
        exact (entries_perm toUppercase secret perm).map _
      refine congrArg Except.ok (environment_perm vars fun name first second here there => ?_)
      have projected : projectTarget toUppercase { secret with fields := fields }
          (.prefixed envVarPrefix) = .ok _ := rfl
      exact (plain.perm perm).distinct projected here there
  | single envVar field =>
      rw [projectTarget_single, projectTarget_single, plain.single_perm capitals perm]

omit capitals in
theorem Consistent.trimmed (consistent : Consistent toUppercase secret) (field : VaultField)
    {value : Text} (entry : (field.suffix toUppercase, value) ∈ secret.entries toUppercase)
    (taken : secret.single toUppercase field = some value) : trim value = value := by
  have single := consistent.single [] field value (by rw [projectTarget_single, taken]) []
  have own : (prefixedName [] (field.suffix toUppercase), trim value) ∈
      secret.toEnvVars toUppercase [] := mem_toEnvVars.mpr ⟨value, entry, rfl⟩
  exact consistent.distinct (.prefixed []) _ rfl _ _ _ own single

/-- A secret is projected without ambiguity exactly when no value has blanks around it, and
fields whose names come to the same have the same value. -/
theorem unambiguous_iff (secret : VaultSecret) :
    Unambiguous toUppercase secret ↔ Plain toUppercase secret := by
  refine ⟨fun unambiguous => ?_, fun plain => plain.unambiguous capitals⟩
  have trimmed (entry : Text × Text) (member : entry ∈ secret.entries toUppercase) :
      trim entry.2 = entry.2 := by
    obtain ⟨suffix, value⟩ := entry
    have here := (unambiguous secret.fields (List.Perm.refl _)).1
    rcases (mem_entries _ _ _ _).mp member with ⟨own, rfl⟩ | ⟨own, rfl⟩ | ⟨key, listed, rfl⟩
    · exact here.trimmed .username member (by simp [VaultSecret.single, own])
    · exact here.trimmed .password member (by simp [VaultSecret.single, own])
    · -- The field is found by its own name where it comes first.
      have perm : ((key, value) :: secret.fields.erase (key, value)).Perm secret.fields :=
        (List.perm_cons_erase listed).symm
      have first := (unambiguous _ perm).1
      refine first.trimmed (.custom key) ?_ ?_
      · exact (entries_perm toUppercase secret perm).mem_iff.mpr member
      · simp [VaultSecret.single, VaultSecret.custom]
  refine ⟨trimmed, fun left inLeft right inRight same => ?_⟩
  have here := (unambiguous secret.fields (List.Perm.refl _)).1
  have values := here.distinct (.prefixed []) _ rfl (prefixedName [] left.1) (trim left.2)
    (trim right.2) (mem_toEnvVars.mpr ⟨left.2, inLeft, rfl⟩)
    (mem_toEnvVars.mpr ⟨right.2, by rw [same]; exact inRight, rfl⟩)
  rwa [trimmed left inLeft, trimmed right inRight] at values

end Exact

section TwoKeys

-- Two fields whose names differ in case and in a blank
def twoKeys : VaultSecret where
  id := "item".toList
  username := none
  password := none
  fields := [("api key".toList, "old".toList), ("API_KEY".toList, "new".toList)]

def asciiUppercase (text : Text) : Text := text.map Char.toUpper

theorem asciiUppercase_keeps : KeepsCapitals asciiUppercase := by
  intro text upper
  unfold asciiUppercase
  conv_rhs => rw [← List.map_id text]
  refine List.map_congr_left fun c member => ?_
  have small : ¬ 'a'.val ≤ c.val := by
    intro lower
    have reaches : 'a'.val ≤ 'Z'.val := UInt32.le_trans lower (upper c member).2
    exact absurd reaches (by decide)
  exact dif_neg fun range => small range.1

theorem unambiguous_iff_twoKeys :
    Unambiguous asciiUppercase twoKeys ↔ Plain asciiUppercase twoKeys :=
  unambiguous_iff asciiUppercase_keeps twoKeys

theorem two_keys_clash : ¬ ∀ secret, Unambiguous asciiUppercase secret := by
  intro always
  have here := (always twoKeys twoKeys.fields (List.Perm.refl _)).1
  have same := here.distinct (.prefixed []) _ rfl "API_KEY".toList "old".toList "new".toList
    (by decide) (by decide)
  exact absurd same (by decide)

end TwoKeys

end Consistent

end Frona.Vault
