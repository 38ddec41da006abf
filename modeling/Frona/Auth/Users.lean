import Frona.Machine.Run
import Frona.Text.Visible

set_option autoImplicit false

namespace Frona.Users

open Utf8 (Text byteLength)
open Frona.Text (trim)

structure User where
  id : Text
  handle : Text
  email : Text
  name : Text
  passwordHash : Text
  timezone : Option Text
  phone : Option Text
  groups : List Text
  deactivatedAt : Option Int
  createdAt : Int
  updatedAt : Int
  deriving DecidableEq

inductive Field where
  | handle
  | email
  | name
  | passwordHash
  | timezone
  | phone
  | groups
  | deactivatedAt
  | updatedAt
  deriving DecidableEq

def Field.Value : Field → Type
  | .handle | .email | .name | .passwordHash => Text
  | .timezone | .phone => Option Text
  | .groups => List Text
  | .deactivatedAt => Option Int
  | .updatedAt => Int

def User.get (user : User) : (field : Field) → field.Value
  | .handle => user.handle
  | .email => user.email
  | .name => user.name
  | .passwordHash => user.passwordHash
  | .timezone => user.timezone
  | .phone => user.phone
  | .groups => user.groups
  | .deactivatedAt => user.deactivatedAt
  | .updatedAt => user.updatedAt

/-- A full row about to be written: the copy that was read, with some fields set. -/
structure Edit where
  read : User
  user : User
  sets : Field → Bool
  kept : ∀ field, sets field = false → user.get field = read.get field

def adminsGroup : Text := "admins".toList

def minPassword : Nat := 8

structure UpdateProfileRequest where
  timezone : Option Text
  phone : Option Text
  email : Option Text
  name : Option Text

section Edits

variable (now : Int) (user : User)

def setPassword (hashed : Text) : Edit where
  read := user
  user := { user with passwordHash := hashed, updatedAt := now }
  sets
    | .passwordHash | .updatedAt => true
    | _ => false
  kept field unset := by cases field <;> first | rfl | simp at unset

def changeHandle (handle : Text) : Edit where
  read := user
  user := { user with handle := handle, updatedAt := now }
  sets
    | .handle | .updatedAt => true
    | _ => false
  kept field unset := by cases field <;> first | rfl | simp at unset

def patchGroups (groups : List Text) : Edit where
  read := user
  user := { user with groups := groups, updatedAt := now }
  sets
    | .groups | .updatedAt => true
    | _ => false
  kept field unset := by cases field <;> first | rfl | simp at unset

def setDeactivated (deactivatedAt : Option Int) : Edit where
  read := user
  user := { user with deactivatedAt := deactivatedAt, updatedAt := now }
  sets
    | .deactivatedAt | .updatedAt => true
    | _ => false
  kept field unset := by cases field <;> first | rfl | simp at unset

/-- The row that `ensure_admin_invariant` writes. -/
def promote : Edit :=
  if adminsGroup ∈ user.groups then
    { read := user
      user := { user with updatedAt := now }
      sets := fun
        | .updatedAt => true
        | _ => false
      kept := fun field unset => by cases field <;> first | rfl | simp at unset }
  else patchGroups now user (user.groups ++ [adminsGroup])

def UpdateProfileRequest.newName (request : UpdateProfileRequest) : Option Text :=
  (request.name.map trim).filter fun name => !name.isEmpty

def UpdateProfileRequest.newEmail (request : UpdateProfileRequest) : Option Text :=
  (request.email.map trim).filter fun email => !email.isEmpty && email != user.email

def updateProfile (request : UpdateProfileRequest) (email : Option Text) : Edit where
  read := user
  user := { user with
    email := email.getD user.email
    name := request.newName.getD user.name
    timezone := request.timezone.filter fun text => !text.isEmpty
    phone := request.phone.filter fun text => !text.isEmpty
    updatedAt := now }
  sets
    | .email => email.isSome
    | .name => request.newName.isSome
    | .timezone | .phone | .updatedAt => true
    | _ => false
  kept field unset := by
    cases field with
    | email =>
        have none : email = none := by simpa using unset
        change email.getD user.email = user.email
        simp [none]
    | name =>
        have none : request.newName = none := by simpa using unset
        change request.newName.getD user.name = user.name
        simp [none]
    | timezone | phone | updatedAt => simp at unset
    | _ => rfl

end Edits

section Requests

inductive Purpose where
  | find
  | setPassword (hashed : Text)
  | updateProfile (request : UpdateProfileRequest)
  | changeHandle (handle : Text)
  | patchGroups (groups : List Text)
  | deactivate
  | reactivate

structure Copy where
  user : User
  version : Nat

inductive Request where
  | idle
  | checkingHandle (handle : Text)
  -- The lookup of `find_by_id`, its read of the row, its insert.
  | looking (purpose : Purpose) (floor : Nat)
  | reading (purpose : Purpose) (floor : Nat)
  | inserting (purpose : Purpose) (floor : Nat) (copy : Copy)
  | checkingEmail (request : UpdateProfileRequest) (email : Text) (user : User)
  -- `update`: the row first
  | writing (edit : Edit)
  | invalidating (version : Nat)
  -- `deactivate`, `reactivate` and `ensure_admin_invariant`: the cache first
  | uncaching (edit : Edit)
  | updating (edit : Edit)
  | repairing
  | electing
  -- `delete`: the cache first
  | dropping
  | deleting

/-- A `find_by_id` that returned, with the latest write that had returned when it began. -/
structure Find where
  floor : Nat
  result : Option User

structure World where
  -- The row after each of the writes so far; only the latest is stored.
  rows : Nat → Option User
  version : Nat
  cached : Option Copy
  requests : Nat → Request
  -- No step reads the rest: the latest write that has returned, the finds that have,
  returned : Nat
  finds : List Find
  -- what was last written to each field, and whether the user was last deactivated.
  last : (field : Field) → field.Value
  off : Bool

inductive Start where
  | find
  | setPassword (new hashed : Text)
  | updateProfile (request : UpdateProfileRequest)
  | changeHandle (handle : Text)
  | patchGroups (groups : List Text)
  | deactivate
  | reactivate
  | ensureAdminInvariant
  | delete

inductive Event where
  | start (call : Nat) (start : Start)
  /-- A call goes on. `taken` is what the rows of the other users answer: the handle or the
  address is in use, another is admin, another is the oldest. -/
  | go (call : Nat) (now : Int) (taken : Bool)
  | fail (call : Nat)
  | evict
  -- The sweeps over `groups` when a group is deleted or renamed.
  | deleteGroup (name : Text)
  | renameGroup (old new : Text)

-- `is_valid_email`, and whether a text is the name of a timezone
variable (isValidEmail validTimezone : Text → Bool)

def Purpose.next (now : Int) (user : User) : Purpose → Request
  | find => .idle
  | setPassword hashed => .writing (Users.setPassword now user hashed)
  | updateProfile request =>
      if request.timezone.any fun text => !text.isEmpty && !validTimezone text then .idle
      else
        match request.newEmail user with
        | none => .writing (Users.updateProfile now user request none)
        | some email => if isValidEmail email then .checkingEmail request email user else .idle
  | changeHandle handle =>
      if user.handle = handle then .idle else .writing (Users.changeHandle now user handle)
  | patchGroups groups => .writing (Users.patchGroups now user groups)
  | deactivate =>
      if user.deactivatedAt.isNone then .uncaching (setDeactivated now user (some now)) else .idle
  | reactivate =>
      if user.deactivatedAt.isSome then .uncaching (setDeactivated now user none) else .idle

/-- The state that a request returns with when it has nothing to write. -/
def Purpose.settled (user : User) : Purpose → Option Bool
  | deactivate => if user.deactivatedAt.isNone then none else some true
  | reactivate => if user.deactivatedAt.isSome then none else some false
  | _ => none

namespace World

variable (world : World)

def row : Option User := world.rows world.version

def put (call : Nat) (request : Request) : World :=
  { world with requests := Function.update world.requests call request }

def store (row : Option User) : World :=
  { world with
    rows := Function.update world.rows (world.version + 1) row
    version := world.version + 1 }

/-- `update` of the repository: there is no row to write after a delete. -/
def update (edit : Edit) : World :=
  match world.row with
  | none => world
  | some _ =>
      { world.store (some edit.user) with
        last := fun field => if edit.sets field then edit.user.get field else world.last field
        off := if edit.sets .deactivatedAt then edit.user.deactivatedAt.isSome else world.off }

def returns (version : Nat) : World := { world with returned := max world.returned version }

/-- `find_by_id` returns with a user, and the request goes on. -/
def resume (call : Nat) (purpose : Purpose) (floor : Nat) (now : Int) (user : User) : World :=
  { world with
    finds := ⟨floor, some user⟩ :: world.finds
    off := (purpose.settled user).getD world.off }.put call
      (purpose.next isValidEmail validTimezone now user)

def start (call : Nat) : Start → World
  | .find => world.put call (.looking .find world.returned)
  | .setPassword new hashed =>
      if byteLength new < minPassword then world
      else world.put call (.looking (.setPassword hashed) world.returned)
  | .updateProfile request => world.put call (.looking (.updateProfile request) world.returned)
  | .changeHandle handle => world.put call (.checkingHandle handle)
  | .patchGroups groups => world.put call (.looking (.patchGroups groups) world.returned)
  | .deactivate => world.put call (.looking .deactivate world.returned)
  | .reactivate => world.put call (.looking .reactivate world.returned)
  | .ensureAdminInvariant => world.put call .repairing
  | .delete => world.put call .dropping

def isActiveAdmin (user : User) : Bool :=
  user.deactivatedAt.isNone && user.groups.contains adminsGroup

def advance (call : Nat) (now : Int) (taken : Bool) : Option World :=
  match world.requests call with
  | .idle => none
  | .checkingHandle handle =>
      if taken || world.row.any (fun user => user.handle == handle) then some (world.put call .idle)
      else some (world.put call (.looking (.changeHandle handle) world.returned))
  | .looking purpose floor =>
      match world.cached with
      | some copy =>
          some (world.resume isValidEmail validTimezone call purpose floor now copy.user)
      | none => some (world.put call (.reading purpose floor))
  | .reading purpose floor =>
      match world.row with
      | none => some ({ world with finds := ⟨floor, none⟩ :: world.finds }.put call .idle)
      | some user => some (world.put call (.inserting purpose floor ⟨user, world.version⟩))
  | .inserting purpose floor copy =>
      some ({ world with cached := some copy }.resume isValidEmail validTimezone call purpose floor
        now copy.user)
  | .checkingEmail request email user =>
      if taken then some (world.put call .idle)
      else some (world.put call (.writing (updateProfile now user request (some email))))
  | .writing edit =>
      some ((world.update edit).put call (.invalidating (world.update edit).version))
  | .invalidating version =>
      some (({ world with cached := none }.returns version).put call .idle)
  | .uncaching edit => some ({ world with cached := none }.put call (.updating edit))
  | .updating edit =>
      some (((world.update edit).returns (world.update edit).version).put call .idle)
  | .repairing =>
      if taken || world.row.any isActiveAdmin then some (world.put call .idle)
      else some (world.put call .electing)
  | .electing =>
      match world.row with
      | none => some (world.put call .idle)
      | some user =>
          if taken || user.deactivatedAt.isSome then some (world.put call .idle)
          else some (world.put call (.uncaching (promote now user)))
  | .dropping => some ({ world with cached := none }.put call .deleting)
  | .deleting => some (((world.store none).returns (world.version + 1)).put call .idle)

def sweep (change : List Text → List Text) : World :=
  match world.row with
  | none => world
  | some user =>
      { world.store (some { user with groups := change user.groups }) with
        last := Function.update world.last .groups (change user.groups) }

end World

def step : Event → World → Option World
  | .start call start, world =>
      match world.requests call with
      | .idle => some (world.start call start)
      | _ => none
  | .go call now taken, world => world.advance isValidEmail validTimezone call now taken
  | .fail call, world => some (world.put call .idle)
  | .evict, world => some { world with cached := none }
  | .deleteGroup name, world => some (world.sweep fun groups => groups.filter fun g => g ≠ name)
  | .renameGroup old new, world =>
      some (world.sweep fun groups => groups.map fun g => if g = old then new else g)

def World.begin (user : User) : World where
  rows _ := some user
  version := 0
  cached := none
  requests _ := .idle
  returned := 0
  finds := []
  last := user.get
  off := user.deactivatedAt.isSome

end Requests

end Frona.Users
