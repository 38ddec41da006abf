import Frona.Auth.Sso
import Frona.Text.Words
import Mathlib.Data.List.Nodup

set_option autoImplicit false

namespace Frona.Sso

open Utf8 (Text byteLength)
open Frona.Text (trim trim_solid Solid isVisible isWhitespace)

section Claims

def baseHandle (lowercase : Text → Text) (email : Option Text) (subject : Text) : Text :=
  match email with
  | some email => deriveHandleFromEmail lowercase email
  | none => "sso-".toList ++ subject

theorem newUser_handle (lowercase : Text → Text) (store : Store) (login : ExternalLogin)
    (userinfo : Option ExternalUserinfo) (userId : Text) :
    (OAuthService.newUser lowercase store login userinfo userId).map User.handle =
      generateUniqueHandle store.hasHandle (baseHandle lowercase
        ((OAuthService.emails login userinfo).head?.map ProviderEmail.address) login.subject) := by
  simp only [OAuthService.newUser, Option.map_map, Function.comp_def, Option.map_id']
  rfl

/-- A handle comes out that no account has. -/
def GetsHandle (store : Store) (base : Text) : Prop :=
  ∃ handle, generateUniqueHandle store.hasHandle base = some handle ∧
    ∀ user ∈ store.users, user.handle ≠ handle

def withLetter (base : Text) : Text :=
  if base.head?.any isAsciiLowercase then base else "u-".toList ++ base

def numbered (kept : Text) (number : Nat) : Text := kept ++ '-' :: Nat.toDigits 10 number

def Free (taken : Handle → Bool) (candidate : Text) : Prop :=
  ∃ handle, Handle.tryNew candidate = some handle ∧ taken handle = false

def HandleChars (text : Text) : Prop := ∀ c ∈ text, isHandleChar c.toLower = true

/-- The text that is kept of a base is a free handle, or becomes one with a number behind it. For
a number of three digits there is only room behind 28 bytes. -/
def Nameable (taken : Handle → Bool) (base : Text) : Prop :=
  ∃ kept rest, withLetter base = kept ++ rest ∧
    (byteLength kept = 29 ∨ byteLength kept < 29 ∧ rest = []) ∧
    (Free taken kept ∨
      HandleChars kept ∧
        (byteLength kept < 29 ∨
          ∃ number, 2 ≤ number ∧ number < 100 ∧ Free taken (numbered kept number)))

end Claims

section Grammar

theorem lower_visible {c : Char} (lower : isAsciiLowercase c = true) : isVisible c = true := by
  simp only [isAsciiLowercase, decide_eq_true_eq, Char.le_def, UInt32.le_iff_toNat_le] at lower
  have first : 97 ≤ c.toNat := lower.1
  have last : c.toNat ≤ 122 := lower.2
  simp only [isVisible, isWhitespace, Bool.not_eq_true', Bool.or_eq_false_iff,
    decide_eq_false_iff_not]
  omega

theorem digit_visible {c : Char} (digit : c.isDigit = true) : isVisible c = true := by
  have bounds : 48 ≤ c.toNat ∧ c.toNat ≤ 57 := by
    simpa [Char.isDigit, UInt32.le_iff_toNat_le] using digit
  simp only [isVisible, isWhitespace, Bool.not_eq_true', Bool.or_eq_false_iff,
    decide_eq_false_iff_not]
  omega

theorem digit_handleChar {c : Char} (digit : c.isDigit = true) : isHandleChar c = true := by
  have bounds : '0' ≤ c ∧ c ≤ '9' := by
    simpa [Char.isDigit, Char.le_def] using digit
  simp [isHandleChar, isAsciiDigit, bounds]

theorem toLower_upper {c : Char} (upper : 65 ≤ c.toNat ∧ c.toNat ≤ 90) :
    c.toLower.toNat = c.toNat + 32 := by
  have bounds : c.val ≥ 'A'.val ∧ c.val ≤ 'Z'.val := by
    simpa [UInt32.le_iff_toNat_le] using upper
  unfold Char.toLower
  rw [dif_pos bounds]
  simp only [Char.toNat, UInt32.toNat_add] at upper ⊢
  have : ('a'.val - 'A'.val).toNat = 32 := by decide
  omega

theorem toLower_other {c : Char} (other : ¬(65 ≤ c.toNat ∧ c.toNat ≤ 90)) : c.toLower = c := by
  unfold Char.toLower
  rw [dif_neg]
  simpa [UInt32.le_iff_toNat_le] using other

theorem size_of_ascii {c : Char} (ascii : c.toNat < 128) : c.utf8Size = 1 := by
  unfold Char.utf8Size
  rw [if_pos]
  rw [UInt32.le_iff_toNat_le]
  exact Nat.le_of_lt_succ ascii

theorem toLower_size (c : Char) : c.toLower.utf8Size = c.utf8Size := by
  by_cases upper : 65 ≤ c.toNat ∧ c.toNat ≤ 90
  · have := toLower_upper upper
    rw [size_of_ascii (by omega), size_of_ascii (by omega)]
  · rw [toLower_other upper]

theorem handleChar_bounds {c : Char} (valid : isHandleChar c = true) :
    c.toNat < 128 ∧ ¬(65 ≤ c.toNat ∧ c.toNat ≤ 90) := by
  simp only [isHandleChar, isAsciiLowercase, isAsciiDigit, Bool.or_eq_true, decide_eq_true_eq,
    beq_iff_eq, Char.le_def, UInt32.le_iff_toNat_le] at valid
  rcases valid with ((⟨first, last⟩ | ⟨first, last⟩) | rfl) | rfl
  · have : 97 ≤ c.toNat := first
    have : c.toNat ≤ 122 := last
    omega
  · have : c.toNat ≤ 57 := last
    omega
  · decide
  · decide

theorem handleChar_size {c : Char} (valid : isHandleChar c.toLower = true) : c.utf8Size = 1 := by
  rw [← toLower_size, size_of_ascii (handleChar_bounds valid).1]

theorem toLower_handleChar {c : Char} (valid : isHandleChar c = true) : c.toLower = c :=
  toLower_other (handleChar_bounds valid).2

theorem byteLength_toLower (text : Text) :
    byteLength (text.map Char.toLower) = byteLength text := by
  induction text with
  | nil => rfl
  | cons c rest ih => simp [toLower_size, ih]

theorem byteLength_ascii {text : Text} (ascii : ∀ c ∈ text, c.utf8Size = 1) :
    byteLength text = text.length := by
  induction text with
  | nil => rfl
  | cons c rest ih =>
      rw [Utf8.byteLength_cons, ascii c (by simp), ih fun d member => ascii d (by simp [member])]
      simp [Nat.add_comm]

theorem tryNew_eq_some {raw : Text} {handle : Handle} :
    Handle.tryNew raw = some handle ↔ handle.text = (trim raw).map Char.toLower := by
  unfold Handle.tryNew
  dsimp only
  split
  next valid =>
    rw [Option.some.injEq]
    constructor
    · rintro rfl
      rfl
    · intro same
      cases handle
      simp_all
  next invalid =>
    constructor
    · intro none
      cases none
    · intro same
      exact absurd (same ▸ handle.valid) invalid

theorem tryNew_isSome {raw : Text} :
    (∃ handle, Handle.tryNew raw = some handle) ↔
      isValidHandle ((trim raw).map Char.toLower) = true := by
  simp only [tryNew_eq_some]
  constructor
  · rintro ⟨handle, same⟩
    exact same ▸ handle.valid
  · intro valid
    exact ⟨⟨_, valid⟩, rfl⟩

end Grammar

section Numbers

variable {kept : Text} {number : Nat}

theorem digits_digit {c : Char} (member : c ∈ Nat.toDigits 10 number) : c.isDigit = true :=
  Nat.isDigit_of_mem_toDigits (by decide) (by decide) member

theorem byteLength_numbered :
    byteLength (numbered kept number) = byteLength kept + 1 + (Nat.toDigits 10 number).length := by
  have digits : byteLength (Nat.toDigits 10 number) = (Nat.toDigits 10 number).length := by
    refine byteLength_ascii fun c member => handleChar_size ?_
    have valid := digit_handleChar (digits_digit member)
    rwa [toLower_handleChar valid]
  have dash : '-'.utf8Size = 1 := rfl
  simp only [numbered, Utf8.byteLength_append, Utf8.byteLength_cons, digits, dash]
  omega

theorem trim_numbered (starts : kept.head?.any isAsciiLowercase = true) :
    trim (numbered kept number) = numbered kept number := by
  have solid : Solid isVisible (numbered kept number) := by
    constructor
    · cases kept with
      | nil => simp at starts
      | cons c rest => exact ⟨c, _, rfl, lower_visible (by simpa using starts)⟩
    · have some_ := Nat.toDigits_ne_nil (n := number) (b := 10)
      refine ⟨kept ++ '-' :: (Nat.toDigits 10 number).dropLast, _, ?_,
        digit_visible (digits_digit (List.getLast_mem some_))⟩
      conv_lhs => rw [numbered, ← List.dropLast_append_getLast some_]
      simp
  simpa using trim_solid [] (numbered kept number) [] (by simp [Frona.Text.Unmarked])
    (by simp [Frona.Text.Unmarked]) solid

theorem lower_numbered :
    (numbered kept number).map Char.toLower = numbered (kept.map Char.toLower) number := by
  have digits : (Nat.toDigits 10 number).map Char.toLower = Nat.toDigits 10 number := by
    refine (List.map_congr_left fun c member => ?_).trans (List.map_id _)
    exact toLower_handleChar (digit_handleChar (digits_digit member))
  simp [numbered, digits]

theorem numbered_inj {other : Nat} (same : numbered kept number = numbered kept other) :
    number = other :=
  Text.toDigits_inj (List.cons.inj (List.append_cancel_left same)).2

theorem numbered_handle (starts : kept.head?.any isAsciiLowercase = true) :
    (∃ handle, Handle.tryNew (numbered kept number) = some handle) ↔
      HandleChars kept ∧ byteLength (numbered kept number) ≤ 32 := by
  have length : 2 ≤ byteLength (numbered kept number) := by
    have some_ := List.length_pos_of_ne_nil (Nat.toDigits_ne_nil (n := number) (b := 10))
    rw [byteLength_numbered]
    omega
  have letter : ((numbered kept number).map Char.toLower).head?.any isAsciiLowercase = true := by
    cases kept with
    | nil => simp at starts
    | cons c rest =>
        have lower : isAsciiLowercase c = true := by simpa using starts
        have same := toLower_handleChar (c := c) (by simp [isHandleChar, lower])
        simpa [numbered, same] using lower
  have chars : ((numbered kept number).map Char.toLower).all isHandleChar = true ↔
      HandleChars kept := by
    have digits : ∀ c ∈ Nat.toDigits 10 number, isHandleChar c = true :=
      fun c member => digit_handleChar (digits_digit member)
    rw [lower_numbered]
    simp only [numbered, List.all_append, List.all_cons, List.all_eq_true.mpr digits, HandleChars]
    simp [isHandleChar]
  rw [tryNew_isSome, trim_numbered starts, isValidHandle]
  simp only [byteLength_toLower, letter, length, decide_true, Bool.true_and, Bool.and_true,
    Bool.and_eq_true, decide_eq_true_eq, chars]
  exact and_comm

end Numbers

section Search

variable {taken : Handle → Bool} {base kept : Text}

theorem freeHandle_isSome {candidate : Text} :
    (∃ handle, freeHandle taken candidate = some handle) ↔ Free taken candidate := by
  simp [freeHandle, Free, Option.filter_eq_some_iff]

theorem search_isSome :
    (∃ handle, searchHandle taken kept = some handle) ↔
      Free taken kept ∨ ∃ number, 2 ≤ number ∧ number < 1000 ∧
        byteLength (numbered kept number) ≤ 32 ∧ Free taken (numbered kept number) := by
  rw [searchHandle, ← Option.isSome_iff_exists, List.findSome?_isSome_iff]
  simp only [List.mem_cons, Option.isSome_iff_exists, freeHandle_isSome, exists_eq_or_imp,
    candidates, List.mem_filter, List.mem_map, List.mem_range'_1, decide_eq_true_eq]
  refine or_congr Iff.rfl ?_
  constructor
  · rintro ⟨_, ⟨⟨number, ⟨low, high⟩, rfl⟩, room⟩, free⟩
    exact ⟨number, low, by omega, room, free⟩
  · rintro ⟨number, low, high, room, free⟩
    exact ⟨_, ⟨⟨number, ⟨low, by omega⟩, rfl⟩, room⟩, free⟩

theorem truncate_eq_some :
    truncate base = some kept ↔ ∃ rest, withLetter base = kept ++ rest ∧
      (byteLength kept = 29 ∨ byteLength kept < 29 ∧ rest = []) := by
  unfold truncate
  change (if 29 < byteLength (withLetter base) then
    (Utf8.splitAt (withLetter base) 29).map Prod.fst else some (withLetter base)) = some kept ↔ _
  split
  next long =>
    simp only [Option.map_eq_some_iff, Prod.exists, Utf8.splitAt_eq_some]
    constructor
    · rintro ⟨_, rest, ⟨same, length⟩, rfl⟩
      exact ⟨rest, same, .inl length⟩
    · rintro ⟨rest, same, length | ⟨short, rfl⟩⟩
      · exact ⟨_, rest, ⟨same, length⟩, rfl⟩
      · rw [same, List.append_nil] at long
        omega
  next short =>
    rw [Option.some.injEq]
    constructor
    · rintro rfl
      exact ⟨[], by simp, by simp; omega⟩
    · rintro ⟨rest, same, length⟩
      have none_ : rest = [] := by
        rcases length with length | ⟨-, none_⟩
        · rw [same, Utf8.byteLength_append] at short
          exact (Utf8.byteLength_eq_zero rest).mp (by omega)
        · exact none_
      rw [same, none_, List.append_nil]

theorem withLetter_starts (base : Text) : (withLetter base).head?.any isAsciiLowercase = true := by
  unfold withLetter
  split
  next starts => exact starts
  next => rfl

theorem kept_starts {rest : Text} (same : withLetter base = kept ++ rest)
    (length : byteLength kept = 29 ∨ byteLength kept < 29 ∧ rest = []) :
    kept.head?.any isAsciiLowercase = true := by
  have starts := withLetter_starts base
  rw [same] at starts
  cases kept with
  | nil =>
      rcases length with length | ⟨-, rfl⟩
      · simp at length
      · simp at starts
  | cons c others => simpa using starts

end Search

section Room

variable {store : Store} {kept : Text}

theorem hasHandle_false {handle : Handle} :
    store.hasHandle handle = false ↔ ∀ user ∈ store.users, user.handle ≠ handle := by
  simp [Store.hasHandle]

theorem exists_number (few : store.users.length < 900)
    (starts : kept.head?.any isAsciiLowercase = true) (chars : HandleChars kept)
    (short : byteLength kept < 29) :
    ∃ number, 2 ≤ number ∧ number < 1000 ∧ byteLength (numbered kept number) ≤ 32 ∧
      Free store.hasHandle (numbered kept number) := by
  have room {number : Nat} (high : number < 1000) : byteLength (numbered kept number) ≤ 32 := by
    have digits : (Nat.toDigits 10 number).length ≤ 3 := by
      rw [Nat.length_toDigits_le_iff (by decide) (by decide)]
      exact high
    rw [byteLength_numbered]
    omega
  by_contra none_
  -- Then the handles with the numbers from 2 to 999 would all belong to accounts.
  have subset : (List.range' 2 998).map (fun number => numbered (kept.map Char.toLower) number) ⊆
      store.users.map fun user => user.handle.text := by
    intro text member
    obtain ⟨number, inside, rfl⟩ := List.mem_map.mp member
    obtain ⟨low, high⟩ := List.mem_range'_1.mp inside
    obtain ⟨handle, named⟩ := (numbered_handle starts).mpr ⟨chars, @room number (by omega)⟩
    have taken : store.hasHandle handle = true := by
      by_contra free
      exact none_ ⟨number, low, by omega, room (by omega), handle, named, by simpa using free⟩
    obtain ⟨user, stored, same⟩ := List.any_eq_true.mp taken
    obtain rfl : user.handle = handle := by simpa using same
    have spelled := tryNew_eq_some.mp named
    rw [trim_numbered starts, lower_numbered] at spelled
    exact List.mem_map.mpr ⟨user, stored, spelled⟩
  have distinct : ((List.range' 2 998).map
      fun number => numbered (kept.map Char.toLower) number).Nodup :=
    List.Nodup.map (fun _ _ same => numbered_inj same) List.nodup_range'
  have count := distinct.length_le_of_subset subset
  simp only [List.length_map, List.length_range'] at count
  omega

theorem getsHandle_iff_search {base : Text} :
    GetsHandle store base ↔ ∃ kept, truncate base = some kept ∧
      ∃ handle, searchHandle store.hasHandle kept = some handle := by
  constructor
  · rintro ⟨handle, generated, -⟩
    obtain ⟨kept, cut, found⟩ := Option.bind_eq_some_iff.mp generated
    exact ⟨kept, cut, handle, found⟩
  · rintro ⟨kept, cut, handle, found⟩
    have generated : generateUniqueHandle store.hasHandle base = some handle :=
      Option.bind_eq_some_iff.mpr ⟨kept, cut, found⟩
    exact ⟨handle, generated, hasHandle_false.mp (generateUniqueHandle_free generated)⟩

theorem nameable_iff (few : store.users.length < 900) (base : Text) :
    GetsHandle store base ↔ Nameable store.hasHandle base := by
  simp only [getsHandle_iff_search, truncate_eq_some, search_isSome]
  constructor
  · rintro ⟨kept, ⟨rest, same, length⟩, free | ⟨number, low, -, room, free⟩⟩
    · exact ⟨kept, rest, same, length, .inl free⟩
    · have chars := ((numbered_handle (kept_starts same length)).mp (free.imp fun _ => And.left)).1
      refine ⟨kept, rest, same, length, .inr ⟨chars, ?_⟩⟩
      rcases length with length | ⟨short, -⟩
      · rw [byteLength_numbered, length] at room
        have digits : (Nat.toDigits 10 number).length ≤ 2 := by omega
        rw [Nat.length_toDigits_le_iff (by decide) (by decide)] at digits
        exact .inr ⟨number, low, digits, free⟩
      · exact .inl short
  · rintro ⟨kept, rest, same, length, free | ⟨chars, short | ⟨number, low, high, free⟩⟩⟩
    · exact ⟨kept, ⟨rest, same, length⟩, .inl free⟩
    · exact ⟨kept, ⟨rest, same, length⟩,
        .inr (exists_number few (kept_starts same length) chars short)⟩
    · have room := ((numbered_handle (kept_starts same length)).mp (free.imp fun _ => And.left)).2
      exact ⟨kept, ⟨rest, same, length⟩, .inr ⟨number, low, by omega, room, free⟩⟩

/-- Every account gets a handle exactly when what its handle is made from can be made one. -/
theorem getsHandle_iff (lowercase : Text → Text) (few : store.users.length < 900)
    (email : Option Text) (subject : Text) :
    GetsHandle store (baseHandle lowercase email subject) ↔
      Nameable store.hasHandle (baseHandle lowercase email subject) :=
  nameable_iff few _

theorem getsHandle_iff_address :
    ([] : List User).length < 900 ∧
      GetsHandle ⟨[], [], []⟩
        (baseHandle (fun text => text.map Char.toLower) (some "Ada@example.org".toList) []) := by
  refine ⟨by decide, (getsHandle_iff _ (by decide) _ _).mpr ?_⟩
  exact ⟨"ada".toList, [], by decide, .inr (by decide),
    .inl ⟨⟨"ada".toList, by decide⟩, by decide, rfl⟩⟩

theorem subject_unnamed :
    ¬GetsHandle ⟨[], [], []⟩ (baseHandle id none "google|1".toList) ∧
      truncate (baseHandle id none (List.replicate 24 'a' ++ ['é'])) = none := by
  refine ⟨fun gets => ?_, by decide⟩
  obtain ⟨kept, cut, found⟩ := getsHandle_iff_search.mp gets
  obtain rfl : "sso-google|1".toList = kept :=
    Option.some.inj ((show truncate _ = _ by decide).symm.trans cut)
  -- Without a number or with one, the bar is in the way.
  rcases search_isSome.mp found with ⟨handle, named, -⟩ | ⟨number, -, -, -, free⟩
  · have none_ : Handle.tryNew "sso-google|1".toList = none := by decide
    rw [none_] at named
    cases named
  · obtain ⟨chars, -⟩ := (numbered_handle (by decide)).mp (free.imp fun _ => And.left)
    exact absurd (chars '|' (by decide)) (by decide)

section Addresses

variable (lowercase : Text → Text) (email : Text)

theorem derived_handleChars :
    ∀ c ∈ withLetter (deriveHandleFromEmail lowercase email), isHandleChar c = true := by
  have derived : ∀ c ∈ deriveHandleFromEmail lowercase email, isHandleChar c = true := by
    intro c member
    obtain ⟨d, -, rfl⟩ := List.mem_map.mp ((List.dropWhile_sublist _).subset member)
    split
    next valid => exact valid
    next => rfl
  unfold withLetter
  split
  next => exact derived
  next =>
    intro c member
    have letters : ∀ c ∈ "u-".toList, isHandleChar c = true := by
      rw [String.toList_ofList]
      simp [isHandleChar, isAsciiLowercase]
    exact (List.mem_append.mp member).elim (letters c) (derived c)

theorem address_getsHandle (few : store.users.length < 900) :
    let name := withLetter (deriveHandleFromEmail lowercase email)
    GetsHandle store (deriveHandleFromEmail lowercase email) ↔
      byteLength name < 29 ∨ Free store.hasHandle (name.take 29) ∨
        ∃ number, 2 ≤ number ∧ number < 100 ∧
          Free store.hasHandle (numbered (name.take 29) number) := by
  intro name
  have valid : ∀ c ∈ name, isHandleChar c = true := derived_handleChars lowercase email
  have ascii : ∀ c ∈ name, c.utf8Size = 1 := fun c member =>
    handleChar_size (by rw [toLower_handleChar (valid c member)]; exact valid c member)
  have length : byteLength name = name.length := byteLength_ascii ascii
  have front : byteLength (name.take 29) = min 29 name.length :=
    (byteLength_ascii fun c member => ascii c (List.mem_of_mem_take member)).trans List.length_take
  have chars : HandleChars (name.take 29) := by
    intro c member
    have inside := valid c (List.mem_of_mem_take member)
    rwa [toLower_handleChar inside]
  have split : name = name.take 29 ++ name.drop 29 := (List.take_append_drop 29 name).symm
  have parts : byteLength (name.take 29) = 29 ∨
      byteLength (name.take 29) < 29 ∧ name.drop 29 = [] := by
    rw [front, List.drop_eq_nil_iff]
    omega
  rw [nameable_iff few]
  constructor
  · rintro ⟨kept, rest, same, cut, named⟩
    obtain rfl : kept = name.take 29 := by
      have : truncate (deriveHandleFromEmail lowercase email) = some kept :=
        truncate_eq_some.mpr ⟨rest, same, cut⟩
      rw [truncate_eq_some.mpr ⟨_, split, parts⟩] at this
      exact (Option.some.inj this).symm
    rcases named with free | ⟨-, short | numbers⟩
    · exact .inr (.inl free)
    · rw [front] at short
      exact .inl (by omega)
    · exact .inr (.inr numbers)
  · rintro (short | free | numbers)
    · refine ⟨_, _, split, parts, .inr ⟨chars, .inl ?_⟩⟩
      rw [front]
      omega
    · exact ⟨_, _, split, parts, .inl free⟩
    · exact ⟨_, _, split, parts, .inr ⟨chars, .inr numbers⟩⟩

end Addresses

end Room

end Frona.Sso
