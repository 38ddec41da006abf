import Frona.Chat.Message

set_option autoImplicit false

namespace Frona.Config

open Utf8 (Text)
open Frona.Chat (Json)

abbrev Fields := List (Text × Json)

section Objects

def get (key : Text) : Json → Option Json
  | .object fields => (fields.find? fun entry => entry.1 == key).map Prod.snd
  | _ => none

def at? : List Text → Json → Option Json
  | [], value => some value
  | key :: rest, value => (get key value).bind (at? rest)

/-- `get_mut` and an assignment; nothing where the key is not there. -/
def update (key : Text) (change : Json → Json) (fields : Fields) : Fields :=
  fields.map fun entry => if entry.1 = key then (entry.1, change entry.2) else entry

def hasKey (key : Text) (fields : Fields) : Bool := fields.any fun entry => entry.1 == key

/-- `entry(key).or_insert(null)`, and the change made there. -/
def upsert (key : Text) (change : Json → Json) (fields : Fields) : Fields :=
  if hasKey key fields then update key change fields else fields ++ [(key, change .null)]

def removeKey (key : Text) (fields : Fields) : Fields :=
  fields.filter fun entry => entry.1 ≠ key

def isNull : Json → Bool
  | .null => true
  | _ => false

def isObject : Json → Bool
  | .object _ => true
  | _ => false

end Objects

section Paths

def sensitivePaths : List (List Text) :=
  [["auth".toList, "encryption_secret".toList],
    ["sso".toList, "client_secret".toList],
    ["voice".toList, "twilio_account_sid".toList],
    ["voice".toList, "twilio_auth_token".toList],
    ["vault".toList, "onepassword_service_account_token".toList],
    ["vault".toList, "bitwarden_client_secret".toList],
    ["vault".toList, "bitwarden_master_password".toList],
    ["vault".toList, "hashicorp_token".toList],
    ["vault".toList, "keepass_password".toList],
    ["mail".toList, "smtp_password".toList],
    ["push".toList, "vapid_private_key".toList]]

def sensitiveProviderFields : List Text := ["api_key".toList]

def providersKey : Text := "providers".toList

def modelsKey : Text := "models".toList

def isSensitiveConfigPath (path : List Text) : Bool :=
  sensitivePaths.contains path ||
    match path with
    | [root, _, field] => root == providersKey && sensitiveProviderFields.contains field
    | _ => false

/-- `parse::<usize>` succeeds. -/
def parsesUsize (text : Text) : Bool :=
  let digits := match text with
    | '+' :: rest => rest
    | _ => text
  !digits.isEmpty && digits.all Char.isDigit &&
    decide (digits.foldl (fun value c => 10 * value + (c.toNat - '0'.toNat)) 0 < 2 ^ 64)

def fallbackSteps : List Text → Bool
  | [] => true
  | [_] => false
  | key :: index :: rest =>
      key == "fallbacks".toList && parsesUsize index && fallbackSteps rest

def isExtraParamsPath : List Text → Bool
  | root :: _ :: rest =>
      root == modelsKey && rest.getLast? == some "extra_params".toList &&
        fallbackSteps rest.dropLast
  | _ => false

end Paths

section Redaction

def marker (isSet : Bool) : Json := .object [("is_set".toList, .bool isSet)]

/-- A redaction marker: `is_set` with a boolean, and nothing else. -/
def isMarker : Json → Bool
  | .object [(key, .bool _)] => key == "is_set".toList
  | _ => false

def isSet : Json → Bool
  | .null => false
  | .string text => !text.isEmpty
  | _ => true

def redactAsIsSet : List Text → Json → Json
  | [], value => value
  | [key], .object fields => .object (update key (fun value => marker (isSet value)) fields)
  | key :: next :: rest, .object fields =>
      .object (update key (redactAsIsSet (next :: rest)) fields)
  | _, value => value

def defaultEncryptionSecret : Text := "dev-secret-change-in-production".toList

def redactProviders : Json → Json
  | .object providers =>
      .object (providers.map fun provider =>
        (provider.1, sensitiveProviderFields.foldl
          (fun value field => redactAsIsSet [field] value) provider.2))
  | value => value

def hasDefaultSecret (value : Json) : Bool :=
  match at? ["auth".toList, "encryption_secret".toList] value with
  | some (.string text) => text == defaultEncryptionSecret
  | _ => false

def insertUnset : Json → Json
  | .object auth => .object (upsert "encryption_secret".toList (fun _ => marker false) auth)
  | value => value

def within (key : Text) (change : Json → Json) : Json → Json
  | .object fields => .object (update key change fields)
  | value => value

def redactConfigForApi (value : Json) : Json :=
  let listed := sensitivePaths.foldl (fun value path => redactAsIsSet path value) value
  let provided := within providersKey redactProviders listed
  if hasDefaultSecret value then within "auth".toList insertUnset provided else provided

end Redaction

section Merge

mutual

/-- `merge` at a path of the document. -/
def merge (path : List Text) (base : Json) : Json → Json
  | .object values =>
      if isExtraParamsPath path then .object values
      else
        .object (mergeFields path (match base with
          | .object fields => fields
          | _ => []) values)
  | .null => .null
  | .bool value => .bool value
  | .number digits => .number digits
  | .string text => .string text
  | .array items => .array items

def mergeFields (path : List Text) (base : Fields) : Fields → Fields
  | [] => base
  | (key, value) :: rest =>
      let here := path ++ [key]
      mergeFields path
        -- A marker retains the secret that is there.
        (if isMarker value && isSensitiveConfigPath here then base
        else if isNull value then removeKey key base
        else upsert key (fun old => merge here old value) base) rest

end

def deepMerge (base patch : Json) : Json := merge [] base patch

end Merge

mutual

def WellKeyed : Json → Prop
  | .object fields => (fields.map Prod.fst).Nodup ∧ WellKeyedFields fields
  | .array items => WellKeyedItems items
  | _ => True

def WellKeyedFields : Fields → Prop
  | [] => True
  | (_, value) :: rest => WellKeyed value ∧ WellKeyedFields rest

def WellKeyedItems : List Json → Prop
  | [] => True
  | item :: rest => WellKeyed item ∧ WellKeyedItems rest

end

/-- A document as `serde_json` holds it. -/
structure Document where
  value : Json
  wellKeyed : WellKeyed value

end Frona.Config
