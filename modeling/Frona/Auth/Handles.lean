import Frona.Text.Visible

set_option autoImplicit false

namespace Frona.Sso

open Utf8 (Text)
open Frona.Text (trim)

section Characters

def isAsciiLowercase (c : Char) : Bool := decide ('a' ≤ c ∧ c ≤ 'z')

def isAsciiDigit (c : Char) : Bool := decide ('0' ≤ c ∧ c ≤ '9')

def isHandleChar (c : Char) : Bool :=
  isAsciiLowercase c || isAsciiDigit c || c == '-' || c == '_'

end Characters

/-- `is_valid_handle_bytes`: a character of more than one byte is never valid. -/
def isValidHandle (text : Text) : Bool :=
  decide (2 ≤ Utf8.byteLength text) && decide (Utf8.byteLength text ≤ 32) &&
    text.head?.any isAsciiLowercase && text.all isHandleChar

structure Handle where
  text : Text
  valid : isValidHandle text = true
  deriving DecidableEq

def Handle.tryNew (raw : Text) : Option Handle :=
  let cleaned := (trim raw).map Char.toLower
  if valid : isValidHandle cleaned = true then some ⟨cleaned, valid⟩ else none

def deriveHandleFromEmail (lowercase : Text → Text) (email : Text) : Text :=
  let name := email.takeWhile fun c => c != '@'
  let mapped := (lowercase name).map fun c => if isHandleChar c then c else '-'
  mapped.dropWhile fun c => !isAsciiLowercase c

section Unique

variable (taken : Handle → Bool)

def freeHandle (candidate : Text) : Option Handle :=
  (Handle.tryNew candidate).filter fun handle => !taken handle

def candidates (truncated : Text) : List Text :=
  let numbered := (List.range' 2 998).map fun number => truncated ++ '-' :: Nat.toDigits 10 number
  numbered.filter fun candidate => Utf8.byteLength candidate ≤ 32

def searchHandle (truncated : Text) : Option Handle :=
  (truncated :: candidates truncated).findSome? (freeHandle taken)

def truncate (name : Text) : Option Text :=
  let start := if name.head?.any isAsciiLowercase then name else "u-".toList ++ name
  if 29 < Utf8.byteLength start then (Utf8.splitAt start 29).map Prod.fst else some start

def generateUniqueHandle (name : Text) : Option Handle :=
  (truncate name).bind (searchHandle taken)

variable {taken}

theorem searchHandle_free {truncated : Text} {handle : Handle}
    (found : searchHandle taken truncated = some handle) : taken handle = false := by
  obtain ⟨candidate, _, free⟩ := List.exists_of_findSome?_eq_some found
  simpa using (Option.filter_eq_some_iff.mp free).2

theorem generateUniqueHandle_free {name : Text} {handle : Handle}
    (generated : generateUniqueHandle taken name = some handle) : taken handle = false := by
  obtain ⟨_, _, found⟩ := Option.bind_eq_some_iff.mp generated
  exact searchHandle_free found

end Unique

end Frona.Sso
