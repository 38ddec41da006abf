import Frona.Auth.Doors
import Frona.Auth.Handles

set_option autoImplicit false

namespace Frona.Auth

open Utf8 (Text)
open Frona.Sso (Handle)

abbrev Directories := Text → Option (List Text)

structure Server where
  users : List User
  -- Both are named by handles.
  roots : Directories
  profiles : Directories
  tokens : TokenService

structure Faults where
  lookup : Bool := false
  find : Bool := false
  update : Bool := false
  renameRoot : Option Text := none
  renameProfiles : Option Text := none
  findTokens : Bool := false
  deleteToken : Text → Bool := fun _ => false
  access : Bool := false
  refresh : Bool := false
  userInfo : Bool := false
  -- Of a rename onto a directory that is not empty
  notEmpty : Text := "Directory not empty".toList

structure Drawn where
  pairId : Text
  accessId : Text
  accessJwt : Text
  refreshId : Text
  refreshJwt : Text

inductive ChangeError where
  | validation (message : Text)
  | notFound (message : Text)
  | internal (message : Text)
  -- The rest of this text is the database's own.
  | database

section Calls

variable (faults : Faults)

/-- `exists` and `rename`. A directory may be renamed onto an empty one. -/
def renameDirectory (fault : Option Text) (notEmpty old new : Text) (directories : Directories) :
    Except Text Directories :=
  match directories old with
  | none => .ok directories
  | some content =>
      match fault with
      | some error => .error error
      | none =>
          if directories new = none ∨ directories new = some [] then
            .ok (Function.update (Function.update directories new (some content)) old none)
          else .error notEmpty

def deleteTokens (userId : Text) (tokens : TokenService) : TokenService :=
  (tokens.rows.filter fun row => row.userId = userId).foldl
    (fun tokens row => if faults.deleteToken row.id then tokens else tokens.delete row.id) tokens

def createSessionPair (config : TokenConfig) (drawn : Drawn) (user : User) (tokens : TokenService) :
    Option (Text × Text) × TokenService :=
  if faults.access then (none, tokens)
  else
    let tokens := tokens.createToken config user (.sessionAccess drawn.pairId) drawn.accessId
      drawn.accessJwt
    if faults.refresh then (none, tokens)
    else (some (drawn.accessJwt, drawn.refreshJwt),
      tokens.createToken config user (.sessionRefresh drawn.pairId) drawn.refreshId
        drawn.refreshJwt)

namespace Server

variable (server : Server) (userId : Text)

def handleOf : Option Text :=
  (server.users.find? fun user => user.id = userId).map User.handle

def invalidHandle (raw : Text) : Text :=
  "handle '".toList ++ (Text.trim raw).map Char.toLower ++
    "' is invalid: must be 2-32 chars, start with a lowercase letter, ".toList ++
    "and contain only a-z, 0-9, hyphens, underscores".toList

def checkHandle (raw : Text) : Except ChangeError (User × Text) :=
  match Handle.tryNew raw with
  | none => .error (.validation (invalidHandle raw))
  | some handle =>
      if faults.lookup then .error .database
      else if server.users.any fun user => user.handle = handle.text then
        .error (.validation "Username already taken".toList)
      else if faults.find then .error .database
      else match server.users.find? fun user => user.id = userId with
      | none => .error (.notFound "User not found".toList)
      | some user =>
          if user.handle = handle.text then .error (.validation "Username is the same".toList)
          else .ok (user, handle.text)

def setHandle (handle : Text) : Server :=
  { server with users := server.users.map fun user =>
      if user.id = userId then { user with handle := handle } else user }

def renewTokens (config : TokenConfig) (drawn : Drawn) (user : User) :
    Except ChangeError (Text × Text) × Server :=
  if faults.findTokens then (.error .database, server)
  else
    let tokens := deleteTokens faults userId server.tokens
    match createSessionPair faults config drawn user tokens with
    | (none, tokens) => (.error .database, { server with tokens := tokens })
    | (some pair, tokens) =>
        if faults.userInfo then (.error .database, { server with tokens := tokens })
        else (.ok pair, { server with tokens := tokens })

def moveUser (browser : Bool) (config : TokenConfig) (drawn : Drawn) (old : Text) (user : User) :
    Except ChangeError (Text × Text) × Server :=
  match renameDirectory faults.renameRoot faults.notEmpty old user.handle server.roots with
  | .error error =>
      (.error (.internal ("Failed to rename user data directory: ".toList ++ error)), server)
  | .ok roots =>
      let server := { server with roots := roots }
      match if browser then
          renameDirectory faults.renameProfiles faults.notEmpty old user.handle server.profiles
        else .ok server.profiles with
      | .error error =>
          (.error (.internal ("Failed to rename profiles directory: ".toList ++ error)), server)
      | .ok profiles =>
          { server with profiles := profiles }.renewTokens faults userId config drawn user

def changeHandle (browser : Bool) (config : TokenConfig) (drawn : Drawn) (raw : Text) :
    Except ChangeError (Text × Text) × Server :=
  match server.checkHandle faults userId raw with
  | .error error => (.error error, server)
  | .ok (user, handle) =>
      if faults.update then (.error .database, server)
      else (server.setHandle userId handle).moveUser faults userId browser config drawn user.handle
        { user with handle := handle }

end Server

end Calls

section Claims

variable (before : Server) (faults : Faults) (userId : Text) (browser : Bool) (raw : Text)

structure Moved (old new : Text) (directories after : Directories) : Prop where
  gone : after old = none
  here : ∀ content, directories old = some content → after new = some content
  others : ∀ other, other ≠ old → other ≠ new → after other = directories other

/-- An error leaves the handle and the directories as they were. Otherwise all of them have the new
name, and no token with the old one is valid. -/
def AllOrNothing (result : Except ChangeError (Text × Text) × Server) : Prop :=
  match result with
  | (.error _, after) => after.handleOf userId = before.handleOf userId ∧
      after.roots = before.roots ∧ after.profiles = before.profiles
  | (.ok _, after) => ∃ old new, before.handleOf userId = some old ∧
      (Handle.tryNew raw).map Handle.text = some new ∧ after.handleOf userId = some new ∧
      Moved old new before.roots after.roots ∧
      (browser = true → Moved old new before.profiles after.profiles) ∧
      ∀ issued, Valid after.tokens issued → issued.claims.sub = userId → issued.claims.handle ≠ old

/-- The new ids and texts were never used. -/
structure Drawn.Fresh (drawn : Drawn) (tokens : TokenService) : Prop where
  access : ∀ issued ∈ tokens.issued,
    issued.claims.tokenId ≠ drawn.accessId ∧ issued.jwt ≠ drawn.accessJwt
  refresh : ∀ issued ∈ tokens.issued,
    issued.claims.tokenId ≠ drawn.refreshId ∧ issued.jwt ≠ drawn.refreshJwt
  apart : drawn.accessId ≠ drawn.refreshId ∧ drawn.accessJwt ≠ drawn.refreshJwt

/-- A lookup fails, or there is no such user, or the handle is not valid or is in use. -/
def Rejected : Prop :=
  faults.lookup = true ∨ faults.find = true ∨ before.handleOf userId = none ∨
    ∀ handle, Handle.tryNew raw = some handle → ∃ user ∈ before.users, user.handle = handle.text

def CanMove (fault : Option Text) (old new : Text) (directories : Directories) : Prop :=
  directories old = none ∨ fault = none ∧ (directories new = none ∨ directories new = some [])

structure Passes (old new : Text) : Prop where
  roots : CanMove faults.renameRoot old new before.roots
  profiles : browser = true → CanMove faults.renameProfiles old new before.profiles
  findTokens : faults.findTokens = false
  access : faults.access = false
  refresh : faults.refresh = false
  userInfo : faults.userInfo = false

/-- Besides, each valid token of the user has a row, and the row is deleted. -/
structure Smooth (old new : Text) : Prop extends Passes before faults browser old new where
  deleted : ∀ issued, Valid before.tokens issued → issued.claims.sub = userId →
    issued.claims.handle = old →
    issued.mint.tokenType ≠ .ephemeral ∧ faults.deleteToken issued.claims.tokenId = false

end Claims

section Directories

variable {fault : Option Text} (notEmpty : Text) {old new : Text} {directories : Directories}

theorem renameDirectory_ok (apart : old ≠ new) (can : CanMove fault old new directories) :
    ∃ after, renameDirectory fault notEmpty old new directories = .ok after ∧
      Moved old new directories after := by
  unfold renameDirectory
  cases found : directories old with
  | none => exact ⟨directories, rfl, found, by simp [found], fun _ _ _ => rfl⟩
  | some content =>
      obtain ⟨rfl, free⟩ := can.resolve_left (by simp [found])
      refine ⟨_, if_pos free, ⟨by simp, ?_, ?_⟩⟩
      · rintro _ same
        obtain rfl := Option.some.inj (found.symm.trans same)
        simp [Function.update_of_ne apart.symm]
      · intro other away away'
        rw [Function.update_of_ne away, Function.update_of_ne away']

theorem renameDirectory_error (cannot : ¬CanMove fault old new directories) :
    ∃ error, renameDirectory fault notEmpty old new directories = .error error := by
  unfold CanMove at cannot
  unfold renameDirectory
  cases found : directories old with
  | none => simp [found] at cannot
  | some content =>
      cases fault with
      | some error => exact ⟨error, rfl⟩
      | none =>
          simp only [found, reduceCtorEq, true_and, false_or] at cannot
          exact ⟨notEmpty, if_neg cannot⟩

end Directories

section Tokens

variable {tokens : TokenService} (faults : Faults) {userId : Text}

theorem TokenService.Reachable.owned (reachable : tokens.Reachable) :
    ∀ row ∈ tokens.rows, ∃ issued ∈ tokens.issued,
      issued.claims.tokenId = row.id ∧ issued.claims.sub = row.userId := by
  obtain ⟨now, steps⟩ := reachable
  induction steps with
  | refl => simp
  | tail _ step ih =>
      cases step with
      | mint config user mint id jwt fresh =>
          intro row member
          simp only [TokenService.createToken, List.exists_mem_cons_iff] at member ⊢
          split at member
          next => exact Or.inr (ih row member)
          next =>
            cases List.mem_cons.mp member with
            | inl new =>
                rw [new]
                exact Or.inl ⟨rfl, rfl⟩
            | inr old => exact Or.inr (ih row old)
      | wait later => exact ih
      | _ => exact fun row member => ih row (List.mem_of_mem_filter member)

theorem deleteTokens_spec (listed : List ApiToken) (tokens : TokenService) :
    let after := listed.foldl (fun tokens row =>
      if faults.deleteToken row.id then tokens else tokens.delete row.id) tokens
    after.now = tokens.now ∧ after.issued = tokens.issued ∧
      ∀ row, row ∈ after.rows ↔ row ∈ tokens.rows ∧
        ∀ other ∈ listed, other.id = row.id → faults.deleteToken other.id = true := by
  induction listed generalizing tokens with
  | nil => simp
  | cons first rest ih =>
      rw [List.foldl_cons]
      obtain ⟨now, issued, rows⟩ := ih
        (if faults.deleteToken first.id then tokens else tokens.delete first.id)
      refine ⟨now.trans (by split <;> rfl), issued.trans (by split <;> rfl), fun row => ?_⟩
      rw [rows, List.forall_mem_cons]
      cases fails : faults.deleteToken first.id with
      | true => simp
      | false =>
          simp only [Bool.false_eq_true, if_false, imp_false, TokenService.delete,
            List.mem_filter, decide_eq_true_eq]
          rw [and_assoc, ne_comm]

theorem deleteTokens_reachable (reachable : tokens.Reachable) :
    (deleteTokens faults userId tokens).Reachable := by
  unfold deleteTokens
  generalize tokens.rows.filter (fun row => row.userId = userId) = listed
  induction listed generalizing tokens with
  | nil => exact reachable
  | cons first rest ih =>
      rw [List.foldl_cons]
      refine ih ?_
      split
      next => exact reachable
      next =>
        obtain ⟨now, steps⟩ := reachable
        exact ⟨now, steps.tail (.delete _ _)⟩

theorem valid_deleteTokens (reachable : tokens.Reachable) {issued : Issued}
    (owner : issued.claims.sub = userId) :
    Valid (deleteTokens faults userId tokens) issued ↔ Valid tokens issued ∧
      (issued.mint.tokenType = .ephemeral ∨
        faults.deleteToken issued.claims.tokenId = true) := by
  obtain ⟨now, issued_, rows⟩ := deleteTokens_spec faults
    (tokens.rows.filter fun row => row.userId = userId) tokens
  unfold Valid Issued.Live deleteTokens
  simp only [now, issued_, rows]
  rw [and_assoc]
  refine and_congr_right fun member => ?_
  by_cases stateless : issued.mint.tokenType = .ephemeral
  · simp [stateless]
  · simp only [stateless, if_false, false_or]
    constructor
    · rintro ⟨row, ⟨stored, kept⟩, same, alive⟩
      refine ⟨⟨row, stored, same, alive⟩, same ▸ kept row ?_ rfl⟩
      -- The row is listed, since it belongs to the same user.
      obtain ⟨other, inside, id, sub⟩ := reachable.owned row stored
      obtain rfl := List.inj_on_of_nodup_map reachable.sound.ids inside member (id.trans same)
      exact List.mem_filter.mpr ⟨stored, by simp [← sub, owner]⟩
    · rintro ⟨⟨row, stored, same, alive⟩, fails⟩
      exact ⟨row, ⟨stored, fun other _ id => id ▸ same ▸ fails⟩, same, alive⟩

section Mints

variable {config : TokenConfig} {user : User} {mint : Mint} {id jwt : Text} {issued : Issued}

theorem valid_of_createToken (fresh : ∀ issued ∈ tokens.issued, issued.claims.tokenId ≠ id)
    (valid : Valid (tokens.createToken config user mint id jwt) issued) :
    issued.claims.handle = user.handle ∨ Valid tokens issued := by
  obtain ⟨member, valid⟩ := valid
  rcases List.mem_cons.mp member with rfl | member
  · exact .inl rfl
  · refine .inr ⟨member, ?_⟩
    split at valid
    next stateless =>
      rw [if_pos stateless]
      exact valid
    next stored =>
      rw [if_neg stored]
      obtain ⟨row, listed, same, alive⟩ := valid
      simp only [TokenService.createToken] at listed
      split at listed
      next => exact ⟨row, listed, same, alive⟩
      next =>
        rcases List.mem_cons.mp listed with rfl | listed
        · exact absurd same.symm (fresh issued member)
        · exact ⟨row, listed, same, alive⟩

theorem valid_createToken (valid : Valid tokens issued) :
    Valid (tokens.createToken config user mint id jwt) issued := by
  obtain ⟨member, valid⟩ := valid
  refine ⟨List.mem_cons_of_mem _ member, ?_⟩
  split at valid
  next stateless =>
    rw [if_pos stateless]
    exact valid
  next stored =>
    rw [if_neg stored]
    obtain ⟨row, listed, same, alive⟩ := valid
    refine ⟨row, ?_, same, alive⟩
    simp only [TokenService.createToken]
    split
    next => exact listed
    next => exact List.mem_cons_of_mem _ listed

end Mints

end Tokens

section Change

variable {before : Server} {faults : Faults} {userId : Text} {browser : Bool} {raw : Text}
  {config : TokenConfig} {drawn : Drawn}

structure Checked (before : Server) (userId raw : Text) (user : User) (handle : Text) : Prop where
  stored : before.users.find? (fun row => row.id = userId) = some user
  named : (Handle.tryNew raw).map Handle.text = some handle
  free : ∀ row ∈ before.users, row.handle ≠ handle

theorem Checked.handleOf {user : User} {handle : Text}
    (checked : Checked before userId raw user handle) :
    before.handleOf userId = some user.handle := by
  simp [Server.handleOf, checked.stored]

theorem Checked.apart {user : User} {handle : Text}
    (checked : Checked before userId raw user handle) : user.handle ≠ handle :=
  checked.free user (List.mem_of_find?_eq_some checked.stored)

theorem Checked.not_rejected {user : User} {handle : Text}
    (checked : Checked before userId raw user handle) (lookup : faults.lookup = false)
    (find : faults.find = false) : ¬Rejected before faults userId raw := by
  rintro (fails | fails | missing | taken)
  · simp [lookup] at fails
  · simp [find] at fails
  · simp [checked.handleOf] at missing
  · obtain ⟨new, named, rfl⟩ := Option.map_eq_some_iff.mp checked.named
    obtain ⟨row, stored, same⟩ := taken new named
    exact checked.free row stored same

theorem checkHandle_cases (before : Server) (faults : Faults) (userId raw : Text) :
    (Rejected before faults userId raw ∧
      ∃ error, before.checkHandle faults userId raw = .error error) ∨
    ∃ user handle, before.checkHandle faults userId raw = .ok (user, handle) ∧
      Checked before userId raw user handle ∧ ¬Rejected before faults userId raw := by
  unfold Server.checkHandle
  cases named : Handle.tryNew raw with
  | none => exact .inl ⟨.inr (.inr (.inr (by simp [named]))), _, rfl⟩
  | some new =>
      dsimp only
      split
      next fails => exact .inl ⟨.inl fails, _, rfl⟩
      next lookup =>
      split
      next taken =>
        obtain ⟨row, stored, same⟩ := List.any_eq_true.mp taken
        refine .inl ⟨.inr (.inr (.inr fun handle same' => ⟨row, stored, ?_⟩)), _, rfl⟩
        obtain rfl := Option.some.inj (named.symm.trans same')
        simpa using same
      next untaken =>
      have free : ∀ row ∈ before.users, row.handle ≠ new.text := by simpa using untaken
      split
      next fails => exact .inl ⟨.inr (.inl fails), _, rfl⟩
      next find =>
      split
      next missing => exact .inl ⟨.inr (.inr (.inl (by simp [Server.handleOf, missing]))), _, rfl⟩
      next user stored =>
        have checked : Checked before userId raw user new.text := ⟨stored, by simp [named], free⟩
        rw [if_neg checked.apart]
        exact .inr ⟨user, new.text, rfl, checked,
          checked.not_rejected (by simpa using lookup) (by simpa using find)⟩

theorem handleOf_setHandle {handle : Text} (stored : before.handleOf userId ≠ none) :
    (before.setHandle userId handle).handleOf userId = some handle := by
  have ids : ((fun user : User => decide (user.id = userId)) ∘ fun user : User =>
      if user.id = userId then { user with handle := handle } else user) =
      fun user => decide (user.id = userId) := by
    funext user
    simp only [Function.comp_apply]
    split <;> rfl
  unfold Server.handleOf Server.setHandle at *
  rw [List.find?_map, ids]
  cases found : before.users.find? fun user => user.id = userId with
  | none => simp [found] at stored
  | some user =>
      have same : user.id = userId := by simpa using List.find?_some found
      simp [same]

section Moves

theorem renewTokens_users (server : Server) (faults : Faults) (userId : Text)
    (config : TokenConfig) (drawn : Drawn) (user : User) :
    (server.renewTokens faults userId config drawn user).2.users = server.users := by
  unfold Server.renewTokens
  split
  next => rfl
  next =>
  dsimp only
  split
  next => rfl
  next => split <;> rfl

theorem moveUser_users (server : Server) (faults : Faults) (userId : Text) (browser : Bool)
    (config : TokenConfig) (drawn : Drawn) (user : User) (old : Text) :
    (server.moveUser faults userId browser config drawn old user).2.users = server.users := by
  unfold Server.moveUser
  split
  next => rfl
  next =>
  dsimp only
  split
  next => rfl
  next => exact renewTokens_users _ _ _ _ _ _

theorem renewTokens_ok (server : Server) (userId : Text) (config : TokenConfig) (drawn : Drawn)
    (user : User) (findTokens : faults.findTokens = false) (access : faults.access = false)
    (refresh : faults.refresh = false) (userInfo : faults.userInfo = false) :
    server.renewTokens faults userId config drawn user =
      (.ok (drawn.accessJwt, drawn.refreshJwt), { server with
        tokens := ((deleteTokens faults userId server.tokens).createToken config user
          (.sessionAccess drawn.pairId) drawn.accessId drawn.accessJwt).createToken config user
          (.sessionRefresh drawn.pairId) drawn.refreshId drawn.refreshJwt }) := by
  unfold Server.renewTokens createSessionPair
  simp only [findTokens, access, refresh, userInfo, Bool.false_eq_true, if_false]

theorem renewTokens_error (server : Server) (userId : Text) (config : TokenConfig) (drawn : Drawn)
    (user : User) (fails : faults.findTokens = true ∨ faults.access = true ∨
      faults.refresh = true ∨ faults.userInfo = true) :
    (server.renewTokens faults userId config drawn user).1 = .error .database := by
  unfold Server.renewTokens createSessionPair
  split
  next => rfl
  next found =>
  dsimp only
  split
  next => rfl
  next pair tokens made =>
  split at made
  next => cases made
  next access =>
  split at made
  next => cases made
  next refresh =>
  rw [if_pos (by simpa only [found, access, refresh, Bool.false_eq_true, false_or] using fails)]

theorem moveUser_ok (server : Server) (faults : Faults) (userId : Text) (config : TokenConfig)
    (drawn : Drawn) (user : User) {old : Text} (apart : old ≠ user.handle)
    (passes : Passes server faults browser old user.handle) :
    ∃ roots profiles, server.moveUser faults userId browser config drawn old user =
      (.ok (drawn.accessJwt, drawn.refreshJwt), { server with
        roots := roots
        profiles := profiles
        tokens := ((deleteTokens faults userId server.tokens).createToken config user
          (.sessionAccess drawn.pairId) drawn.accessId drawn.accessJwt).createToken config user
          (.sessionRefresh drawn.pairId) drawn.refreshId drawn.refreshJwt }) ∧
      Moved old user.handle server.roots roots ∧
      (browser = true → Moved old user.handle server.profiles profiles) := by
  obtain ⟨roots, renamed, moved⟩ := renameDirectory_ok faults.notEmpty apart passes.roots
  have ⟨profiles, renamed', moved'⟩ : ∃ profiles,
      (if browser then renameDirectory faults.renameProfiles faults.notEmpty old user.handle
        server.profiles else .ok server.profiles) = .ok profiles ∧
      (browser = true → Moved old user.handle server.profiles profiles) := by
    cases browser with
    | false => exact ⟨_, rfl, by simp⟩
    | true =>
        obtain ⟨profiles, renamed, moved⟩ := renameDirectory_ok faults.notEmpty apart
          (passes.profiles rfl)
        exact ⟨profiles, renamed, fun _ => moved⟩
  refine ⟨roots, profiles, ?_, moved, moved'⟩
  unfold Server.moveUser
  rw [renamed]
  dsimp only
  rw [renamed']
  exact renewTokens_ok _ _ _ _ _ passes.findTokens passes.access passes.refresh passes.userInfo

theorem moveUser_passes {server after : Server} {user : User} {old : Text} {pair : Text × Text}
    (moved : server.moveUser faults userId browser config drawn old user = (.ok pair, after)) :
    Passes server faults browser old user.handle := by
  have roots : CanMove faults.renameRoot old user.handle server.roots := by
    by_contra cannot
    obtain ⟨error, fails⟩ := renameDirectory_error faults.notEmpty cannot
    unfold Server.moveUser at moved
    rw [fails] at moved
    cases moved
  have profiles : browser = true →
      CanMove faults.renameProfiles old user.handle server.profiles := by
    rintro rfl
    by_contra cannot
    obtain ⟨error, fails⟩ := renameDirectory_error faults.notEmpty cannot
    unfold Server.moveUser at moved
    split at moved
    next => cases moved
    next =>
      dsimp only at moved
      rw [if_pos rfl, fails] at moved
      cases moved
  unfold Server.moveUser at moved
  split at moved
  next => cases moved
  next =>
  dsimp only at moved
  split at moved
  next => cases moved
  next =>
  have none_ (fails : faults.findTokens = true ∨ faults.access = true ∨ faults.refresh = true ∨
      faults.userInfo = true) : False := by
    have error := congrArg Prod.fst moved
    rw [renewTokens_error _ _ _ _ _ fails] at error
    cases error
  simp only [imp_false, not_or, Bool.not_eq_true] at none_
  exact ⟨roots, profiles, none_.1, none_.2.1, none_.2.2.1, none_.2.2.2⟩

end Moves

theorem valid_after (faults : Faults) (userId : Text) (config : TokenConfig) (user : User)
    {old : Text} (apart : user.handle ≠ old)
    (reachable : before.tokens.Reachable) (fresh : drawn.Fresh before.tokens) :
    (∀ issued, Valid (((deleteTokens faults userId before.tokens).createToken config user
        (.sessionAccess drawn.pairId) drawn.accessId drawn.accessJwt).createToken config user
        (.sessionRefresh drawn.pairId) drawn.refreshId drawn.refreshJwt) issued →
      issued.claims.sub = userId → issued.claims.handle ≠ old) ↔
    ∀ issued, Valid before.tokens issued → issued.claims.sub = userId →
      issued.claims.handle = old →
      issued.mint.tokenType ≠ .ephemeral ∧
        faults.deleteToken issued.claims.tokenId = false := by
  have kept : (deleteTokens faults userId before.tokens).issued = before.tokens.issued :=
    (deleteTokens_spec faults _ _).2.1
  constructor
  · intro gone issued valid owner same
    have stays (either : issued.mint.tokenType = .ephemeral ∨
        faults.deleteToken issued.claims.tokenId = true) : False := by
      have still := (valid_deleteTokens faults reachable owner).mpr ⟨valid, either⟩
      exact gone issued (valid_createToken (valid_createToken still)) owner same
    exact ⟨fun stateless => stays (.inl stateless), by simpa using fun fails => stays (.inr fails)⟩
  · intro deleted issued valid owner same
    have freshRefresh : ∀ other ∈ ((deleteTokens faults userId before.tokens).createToken config
        user (.sessionAccess drawn.pairId) drawn.accessId drawn.accessJwt).issued,
        other.claims.tokenId ≠ drawn.refreshId := by
      intro other member
      rcases List.mem_cons.mp member with rfl | member
      · exact fresh.apart.1
      · exact (fresh.refresh other (kept ▸ member)).1
    rcases valid_of_createToken freshRefresh valid with new | valid
    · exact apart (new.symm.trans same)
    · rcases valid_of_createToken (fun other member => (fresh.access other (kept ▸ member)).1) valid
        with new | valid
      · exact apart (new.symm.trans same)
      · obtain ⟨valid, either⟩ := (valid_deleteTokens faults reachable owner).mp valid
        obtain ⟨stored, fails⟩ := deleted issued valid owner same
        rcases either with stateless | fails'
        · exact stored stateless
        · simp [fails] at fails'

theorem moveUser_allOrNothing {user : User} {handle : Text}
    (checked : Checked before userId raw user handle) (reachable : before.tokens.Reachable)
    (fresh : drawn.Fresh before.tokens) :
    AllOrNothing before userId browser raw
        ((before.setHandle userId handle).moveUser faults userId browser config drawn user.handle
          { user with handle := handle }) ↔
      Smooth before faults userId browser user.handle handle := by
  have renamed : (before.setHandle userId handle).handleOf userId = some handle :=
    handleOf_setHandle (by simp [checked.handleOf])
  by_cases passes : Passes before faults browser user.handle handle
  · obtain ⟨roots, profiles, moved, movedRoots, movedProfiles⟩ :=
      moveUser_ok (before.setHandle userId handle) faults userId config drawn
        { user with handle := handle } checked.apart
        ⟨passes.1, passes.2, passes.3, passes.4, passes.5, passes.6⟩
    have tokens := valid_after faults userId config { user with handle := handle }
      checked.apart.symm reachable fresh
    rw [moved]
    constructor
    · rintro ⟨old, new, stored, -, -, -, -, gone⟩
      obtain rfl := Option.some.inj (checked.handleOf.symm.trans stored)
      exact ⟨passes, tokens.mp gone⟩
    · intro smooth
      exact ⟨user.handle, handle, checked.handleOf, checked.named, renamed, movedRoots,
        movedProfiles, tokens.mpr smooth.deleted⟩
  · refine iff_of_false (fun holds => ?_) fun smooth => passes smooth.toPasses
    cases ran : (before.setHandle userId handle).moveUser faults userId browser config drawn
        user.handle { user with handle := handle } with
    | mk result after =>
        have users := moveUser_users (before.setHandle userId handle) faults userId browser config
          drawn { user with handle := handle } user.handle
        rw [ran] at holds users
        cases result with
        | ok pair =>
            have := moveUser_passes ran
            exact passes ⟨this.1, this.2, this.3, this.4, this.5, this.6⟩
        | error error =>
            -- The row has the new handle already.
            have same : after.handleOf userId = (before.setHandle userId handle).handleOf userId :=
              congrArg (fun users => (users.find? fun row => decide (row.id = userId)).map
                User.handle) users
            have stays := holds.1
            rw [same, renamed, checked.handleOf] at stays
            exact checked.apart (Option.some.inj stays).symm

/-- The handle changes as a whole or not at all exactly when nothing fails behind the update of the
row, and no token outlives the change. -/
theorem allOrNothing_iff (reachable : before.tokens.Reachable)
    (fresh : drawn.Fresh before.tokens) :
    AllOrNothing before userId browser raw
        (before.changeHandle faults userId browser config drawn raw) ↔
      Rejected before faults userId raw ∨ faults.update = true ∨
        ∃ old new, before.handleOf userId = some old ∧
          (Handle.tryNew raw).map Handle.text = some new ∧
          Smooth before faults userId browser old new := by
  unfold Server.changeHandle
  rcases checkHandle_cases before faults userId raw with
    ⟨rejected, error, check⟩ | ⟨user, handle, check, checked, accepted⟩
  · rw [check]
    exact iff_of_true ⟨rfl, rfl, rfl⟩ (.inl rejected)
  · rw [check, or_iff_right accepted]
    dsimp only
    cases update : faults.update with
    | true => exact iff_of_true ⟨rfl, rfl, rfl⟩ (.inl rfl)
    | false =>
        simp only [Bool.false_eq_true, if_false, false_or]
        rw [moveUser_allOrNothing checked reachable fresh]
        constructor
        · exact fun smooth => ⟨user.handle, handle, checked.handleOf, checked.named, smooth⟩
        · rintro ⟨old, new, stored, named, smooth⟩
          obtain rfl := Option.some.inj (checked.handleOf.symm.trans stored)
          obtain rfl := Option.some.inj (checked.named.symm.trans named)
          exact smooth

end Change

section Examples

-- A user with a directory, who never signed in
def homeOwner : Server where
  users := [owner]
  roots name := if name = "ada".toList then some ["agents".toList] else none
  profiles _ := none
  tokens := ⟨0, [], []⟩

def drawnSession : Drawn where
  pairId := "p".toList
  accessId := "a".toList
  accessJwt := "x".toList
  refreshId := "r".toList
  refreshJwt := "y".toList

theorem drawnSession_fresh : drawnSession.Fresh homeOwner.tokens where
  access _ member := by cases member
  refresh _ member := by cases member
  apart := by decide

theorem allOrNothing_iff_homeOwner :
    AllOrNothing homeOwner "u".toList true "grace".toList
      (homeOwner.changeHandle {} "u".toList true shortLived drawnSession "grace".toList) := by
  refine (allOrNothing_iff ⟨0, .refl⟩ drawnSession_fresh).mpr (.inr (.inr
    ⟨"ada".toList, "grace".toList, by decide, by decide, ?_⟩))
  exact {
    roots := .inr ⟨rfl, .inl (by decide)⟩
    profiles := fun _ => .inl rfl
    findTokens := rfl
    access := rfl
    refresh := rfl
    userInfo := rfl
    deleted := fun _ valid => by cases valid.1 }

def stuckDirectory : Faults := { renameRoot := some "Permission denied".toList }

theorem row_without_home :
    ¬AllOrNothing homeOwner "u".toList true "grace".toList
      (homeOwner.changeHandle stuckDirectory "u".toList true shortLived drawnSession
        "grace".toList) := by
  intro holds
  have failed : (homeOwner.changeHandle stuckDirectory "u".toList true shortLived drawnSession
      "grace".toList).1.isOk = false := by
    decide
  have renamed : (homeOwner.changeHandle stuckDirectory "u".toList true shortLived drawnSession
      "grace".toList).2.handleOf "u".toList = some "grace".toList := by
    decide
  revert holds renamed
  generalize homeOwner.changeHandle stuckDirectory "u".toList true shortLived drawnSession
    "grace".toList = result at failed
  obtain ⟨_ | _, after⟩ := result
  · rintro ⟨same, -⟩ renamed
    exact absurd (renamed.symm.trans same) (by decide)
  · cases failed

end Examples

end Frona.Auth
