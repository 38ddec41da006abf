import Mathlib.Logic.Function.Basic
import Frona.Pkm.Store
import Frona.Text.Wikilink

set_option autoImplicit false

namespace Frona.Pkm

open Utf8 (Text)

-- The files below the vault root.
abbrev Files := FileKey → Option Text

structure World where
  db : Database
  files : Files

inductive DbWrite where
  | pageEdit
  | disposition (memoryId : Nat)
  | deleteEntity
  | externalPage
  | externalMirrored
  | deleteMemory (memoryId : Nat)
  | deleteExternal
  | renameEntities
  | pageProjection (path : Text)

/--
What a call meets outside of this code: a reset that holds writes back, the statements that the
database refuses, the files that the disk takes (a full disk, a name too long or a file in the
place of a directory refuses one) and those that it lets go, and what the models answer.
-/
structure Environment where
  resetInProgress : Bool
  uniqueAborts : Bool
  refuses : DbWrite → Bool
  accepts : FileKey → Bool
  removes : FileKey → Bool
  plan : Text → Text → Text → Except AppError (List PageEditMemoryOp)
  extract : Text → Text → Database → Except AppError Database

def Call (A : Type) : Type := World → Except AppError A × World

namespace Call

variable {A B : Type}

def pure (value : A) : Call A := fun world => (.ok value, world)

def bind (call : Call A) (next : A → Call B) : Call B := fun world =>
  match call world with
  | (.ok value, after) => next value after
  | (.error error, after) => (.error error, after)

instance : Monad Call where
  pure := pure
  bind := bind

def fail (error : AppError) : Call A := fun world => (.error error, world)

def fromExcept : Except AppError A → Call A
  | .ok value => pure value
  | .error error => fail error

def get : Call World := fun world => (.ok world, world)

-- `let _ = …`: whatever fails is dropped.
def attempt (call : Call A) : Call Unit := fun world => (.ok (), (call world).2)

@[simp] theorem pure_apply (value : A) (world : World) :
    (Pure.pure value : Call A) world = (.ok value, world) := rfl

@[simp] theorem bind_apply (call : Call A) (next : A → Call B) (world : World) :
    (call >>= next) world =
      match call world with
      | (.ok value, after) => next value after
      | (.error error, after) => (.error error, after) := rfl

@[simp] theorem fail_apply (error : AppError) (world : World) :
    (fail error : Call A) world = (.error error, world) := rfl

@[simp] theorem fromExcept_apply (result : Except AppError A) (world : World) :
    fromExcept result world = (result, world) := by
  cases result <;> rfl

@[simp] theorem get_apply (world : World) : get world = (.ok world, world) := rfl

@[simp] theorem attempt_apply (call : Call A) (world : World) :
    attempt call world = (.ok (), (call world).2) := rfl

theorem bind_ok {call : Call A} {next : A → Call B} {world after : World} {value : B}
    (ran : (call >>= next) world = (.ok value, after)) :
    ∃ first between, call world = (.ok first, between) ∧ next first between = (.ok value, after) := by
  rw [bind_apply] at ran
  split at ran
  next first between taken => exact ⟨first, between, taken, ran⟩
  next => simp at ran

end Call

section Database

variable {A : Type}

def statement (env : Environment) (write : DbWrite) (change : Database → A × Database) : Call A :=
  fun world =>
    if env.refuses write then (.error .database, world)
    else (.ok (change world.db).1, { world with db := (change world.db).2 })

def update (env : Environment) (write : DbWrite) (change : Database → Database) : Call Unit :=
  statement env write fun db => ((), change db)

def renameEntities (env : Environment) (moves : List (Text × Text)) : Call Unit := fun world =>
  if moves = [] then (.ok (), world)
  else if env.refuses .renameEntities then (.error .database, world)
  else match world.db.renameEntities env.uniqueAborts moves with
    | none => (.error .database, world)
    | some db => (.ok (), { world with db })

def setPageProjection (env : Environment) (path content rev : Text) : Call Unit :=
  update env (.pageProjection path) fun db => db.setPageProjection path content rev

end Database

section Storage

def writeFailed : Text := "pkm storage: stage write".toList

def writeFile (env : Environment) (key : FileKey) (content : Text) : Call Unit := fun world =>
  if env.accepts key then
    (.ok (), { world with files := Function.update world.files key (some content) })
  else (.error (.internal writeFailed), world)

def removeFile (env : Environment) (failed : Text) (key : FileKey) : Call Unit := fun world =>
  if (world.files key).isSome && !env.removes key then (.error (.internal failed), world)
  else (.ok (), { world with files := Function.update world.files key none })

def freed (env : Environment) (key : FileKey) (files : Files) : Files :=
  if env.removes key then Function.update files key none else files

theorem removeFile_after (env : Environment) (failed : Text) (key : FileKey) (world : World) :
    (removeFile env failed key world).2 = { world with files := freed env key world.files } := by
  cases removed : env.removes key with
  | true => simp [removeFile, freed, removed]
  | false =>
      cases content : world.files key with
      | none =>
          have same : Function.update world.files key none = world.files := by
            rw [← content, Function.update_eq_self]
          simp [removeFile, freed, removed, content, same]
      | some content' => simp [removeFile, freed, removed, content]

def writeUserNote (env : Environment) (vaultPath content : Text) : Call Unit := do
  let key ← Call.fromExcept (noteKey vaultPath)
  writeFile env key content

def noteDeleteFailed : Text := "user note delete".toList

def deleteUserNote (env : Environment) (vaultPath : Text) : Call Unit := do
  let key ← Call.fromExcept (noteKey vaultPath)
  removeFile env noteDeleteFailed key

def pageDeleteFailed : Text := "pkm storage: page delete".toList

namespace VaultScope

variable (vault : VaultScope)

def writePage (env : Environment) (path content : Text) : Call Unit := do
  let key ← Call.fromExcept (vault.pageKey path)
  writeFile env key content

def readPage (path : Text) (files : Files) : Option Text :=
  match vault.pageKey path with
  | .ok key => files key
  | .error _ => none

def deletePage (env : Environment) (path : Text) : Call Unit := do
  let key ← Call.fromExcept (vault.pageKey path)
  removeFile env pageDeleteFailed key

def movePageFile (env : Environment) (source target : Text) : Call Unit := do
  match vault.readPage source (← Call.get).files with
  | none => pure ()
  | some content =>
      vault.writePage env target content
      vault.deletePage env source

def rewritten (content source target : Text) : Text :=
  Wikilink.replace content (Wikilink.linkText (vault.vaultPath source))
    (Wikilink.linkText (vault.vaultPath target))

/-- `[[<directory>/source]]` becomes `[[<directory>/target]]` in one page's file. -/
def rewriteWikilinks (env : Environment) (pagePath source target : Text) : Call Unit := do
  match vault.readPage pagePath (← Call.get).files with
  | none => pure ()
  | some content =>
      if vault.rewritten content source target ≠ content then
        vault.writePage env pagePath (vault.rewritten content source target)
      else pure ()

def rewriteLinks (env : Environment) : List Text → Text → Text → Call Unit
  | [], _, _ => pure ()
  | linker :: linkers, source, target => do
      Call.attempt (vault.rewriteWikilinks env linker source target)
      rewriteLinks env linkers source target

end VaultScope

end Storage

end Frona.Pkm
