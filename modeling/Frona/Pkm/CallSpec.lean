import Frona.Machine.Moves
import Frona.Pkm.Sync

set_option autoImplicit false

namespace Frona.Pkm

open Utf8 (Text)
open Wikilink (linkText)

namespace VaultScope

variable (vault : VaultScope) (env : Environment)

-- Whether a page's file is this one.
def names (path : Text) (key : FileKey) : Prop := vault.pageKey path = .ok key

instance (path : Text) (key : FileKey) : Decidable (vault.names path key) :=
  match named : vault.pageKey path with
  | .ok key' => decidable_of_iff (key' = key) (by simp [names, named])
  | .error _ => isFalse (by simp [names, named])

theorem readPage_eq_some (path content : Text) (files : Files) :
    vault.readPage path files = some content ↔
      ∃ key, vault.names path key ∧ files key = some content := by
  cases named : vault.pageKey path with
  | error error => simp [readPage, names, named]
  | ok key => simp [readPage, names, named]

def keyedMove (move : Text × Text) : Option (FileKey × FileKey) :=
  match vault.pageKey move.1, vault.pageKey move.2 with
  | .ok source, .ok target => some (source, target)
  | _, _ => none

theorem keyedMove_eq_some (move : Text × Text) (keys : FileKey × FileKey) :
    vault.keyedMove move = some keys ↔ vault.names move.1 keys.1 ∧ vault.names move.2 keys.2 := by
  cases start : vault.pageKey move.1 <;> cases stop : vault.pageKey move.2 <;>
    simp [keyedMove, names, start, stop, Prod.ext_iff]

def movedFile (move : Text × Text) (files : Files) : Files :=
  match vault.keyedMove move with
  | some keys => Moves.moveOne env.accepts env.removes keys files
  | none => files

def relinkedFile (page source target : Text) (files : Files) : Files :=
  match vault.pageKey page with
  | .ok key =>
      if env.accepts key then
        Function.update files key ((files key).map fun content => vault.rewritten content source target)
      else files
  | .error _ => files

theorem writePage_ok (path content : Text) (world after : World)
    (written : vault.writePage env path content world = (.ok (), after)) :
    ∃ key, vault.pageKey path = .ok key ∧ env.accepts key = true ∧
      after = { world with files := Function.update world.files key (some content) } := by
  cases named : vault.pageKey path with
  | error error => simp [writePage, named] at written
  | ok key =>
      by_cases accepted : env.accepts key
      · exact ⟨key, rfl, accepted, by simpa [writePage, named, writeFile, accepted] using written.symm⟩
      · simp [writePage, named, writeFile, accepted] at written

theorem movePageFile_after (source target : Text) (world : World) :
    (vault.movePageFile env source target world).2 =
      { world with files := vault.movedFile env (source, target) world.files } := by
  cases start : vault.pageKey source with
  | error error => simp [movePageFile, readPage, movedFile, keyedMove, start]
  | ok key =>
      cases content : world.files key with
      | none =>
          cases stop : vault.pageKey target <;>
            simp [movePageFile, readPage, movedFile, keyedMove, start, stop, content, Moves.moveOne]
      | some content' =>
          cases stop : vault.pageKey target with
          | error error =>
              simp [movePageFile, readPage, movedFile, keyedMove, start, stop, content, writePage]
          | ok key' =>
              cases accepted : env.accepts key' with
              | false =>
                  simp [movePageFile, readPage, movedFile, keyedMove, start, stop, content,
                    writePage, writeFile, accepted, Moves.moveOne]
              | true =>
                  have held : (Function.update world.files key' (some content') key).isSome = true := by
                    by_cases same : key = key' <;> simp [same, content]
                  cases removed : env.removes key <;>
                    simp [movePageFile, readPage, movedFile, keyedMove, start, stop, content,
                      writePage, writeFile, deletePage, removeFile, accepted, removed, held,
                      Moves.moveOne]

theorem rewriteWikilinks_after (page source target : Text) (world : World) :
    (vault.rewriteWikilinks env page source target world).2 =
      { world with files := vault.relinkedFile env page source target world.files } := by
  cases named : vault.pageKey page with
  | error error => simp [rewriteWikilinks, readPage, relinkedFile, named]
  | ok key =>
      cases content : world.files key with
      | none =>
          have same : Function.update world.files key none = world.files := by
            rw [← content, Function.update_eq_self]
          simp [rewriteWikilinks, readPage, relinkedFile, named, content, same]
      | some content' =>
          by_cases changed : vault.rewritten content' source target = content'
          · have same : Function.update world.files key (some content') = world.files := by
              rw [← content, Function.update_eq_self]
            simp [rewriteWikilinks, readPage, relinkedFile, named, content, changed, same]
          · by_cases accepted : env.accepts key <;>
              simp [rewriteWikilinks, readPage, relinkedFile, named, content, changed, writePage,
                writeFile, accepted]

def relinkedFiles (linkers : List Text) (source target : Text) (files : Files) : Files :=
  linkers.foldl (fun files page => vault.relinkedFile env page source target files) files

theorem rewriteLinks_eq (linkers : List Text) (source target : Text) (world : World) :
    vault.rewriteLinks env linkers source target world =
      (.ok (), { world with files := vault.relinkedFiles env linkers source target world.files }) := by
  induction linkers generalizing world with
  | nil => rfl
  | cons linker linkers ih =>
      simp [rewriteLinks, rewriteWikilinks_after, ih, relinkedFiles]

end VaultScope

namespace PkmSyncService

variable (service : PkmSyncService) (env : Environment)

theorem restampRev_after (path : Text) (world after : World) (rev : Option Text)
    (ran : service.restampRev env path world = (.ok rev, after)) :
    after.files = world.files ∧
      after.db = (match service.vault.readPage path world.files with
        | none => world.db
        | some content => world.db.setPageProjection path content (service.sha256Hex content)) ∧
      rev = (service.vault.readPage path world.files).map service.sha256Hex := by
  cases content : service.vault.readPage path world.files with
  | none =>
      obtain ⟨rfl, rfl⟩ : none = rev ∧ world = after := by
        simpa [restampRev, content] using ran
      simp
  | some content' =>
      by_cases refused : env.refuses (.pageProjection path)
      · simp [restampRev, content, setPageProjection, update, statement, refused] at ran
      · obtain ⟨rfl, rfl⟩ : some (service.sha256Hex content') = rev ∧ _ = after := by
          simpa [restampRev, content, setPageProjection, update, statement, refused] using ran
        simp

end PkmSyncService

end Frona.Pkm
