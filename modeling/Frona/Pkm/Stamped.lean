import Frona.Pkm.EditSpec
import Frona.Pkm.RenameDir

set_option autoImplicit false

namespace Frona.Pkm

open Utf8 (Text)

namespace PkmSyncService

variable (service : PkmSyncService) (env : Environment)

def StampedExcept (exempt : Text → Prop) (world : World) : Prop :=
  ∀ row ∈ world.db.entities, ¬exempt row.path → ∀ rev, row.rev = some rev →
    ∀ content, service.vault.readPage row.path world.files = some content →
      rev = service.sha256Hex content

def Stamped (world : World) : Prop := service.StampedExcept (fun _ => False) world

/-- What the sync service promises its clients about revisions. -/
structure RevisionsAgree (world : World) : Prop where
  rows : ∀ row ∈ world.db.entities, row.origin = .internal → ∀ rev, row.rev = some rev →
    ∀ content, service.vault.readPage row.path world.files = some content →
      rev = service.sha256Hex content
  pages : ∀ vaultPaths, ∀ page ∈ service.getPages world vaultPaths,
    service.sha256Hex page.content = page.rev

theorem headContent_agrees (row : KnowledgeEntity) (rev path content : Text) (files : Files)
    (file : ∀ content, service.vault.readPage path files = some content →
      rev = service.sha256Hex content)
    (served : service.headContent row rev path files = some content) :
    service.sha256Hex content = rev := by
  unfold headContent at served
  cases stored : row.syncContent.filter fun content => service.sha256Hex content = rev with
  | some content' =>
      obtain rfl : content' = content := by simpa [stored] using served
      simpa using (Option.filter_eq_some_iff.mp stored).2
  | none =>
      rw [stored, Option.none_or] at served
      exact (file content served).symm

theorem Stamped.agrees {world : World} (stamped : service.Stamped world) :
    service.RevisionsAgree world := by
  constructor
  · intro row stored _ rev has content read
    exact stamped row stored not_false rev has content read
  · intro vaultPaths page served
    obtain ⟨vaultPath, _, found⟩ := List.mem_filterMap.mp served
    simp only [getPage, Option.bind_eq_bind, Option.bind_eq_some_iff, Option.pure_def,
      Option.some_inj] at found
    obtain ⟨clean, _, row, stored, rev, has, content, head, rfl⟩ := found
    have member := List.mem_of_find?_eq_some stored
    have named : row.path = clean := by simpa using List.find?_some stored
    apply service.headContent_agrees row rev clean content world.files ?_ head
    intro content read
    exact stamped row member not_false rev has content (named ▸ read)

theorem StampedExcept.mono {exempt wider : Text → Prop} {world : World}
    (stamped : service.StampedExcept exempt world) (wide : ∀ path, exempt path → wider path) :
    service.StampedExcept wider world := by
  intro row stored unexempt
  exact stamped row stored fun narrow => unexempt (wide row.path narrow)

theorem StampedExcept.change {exempt : Text → Prop} {before after : World}
    (stamped : service.StampedExcept exempt before)
    (rows : ∀ row ∈ after.db.entities, ¬exempt row.path → ∀ rev, row.rev = some rev →
      ∃ old ∈ before.db.entities, old.path = row.path ∧ old.rev = some rev)
    (files : ∀ row ∈ after.db.entities, ¬exempt row.path → ∀ rev, row.rev = some rev →
      ∀ content, service.vault.readPage row.path after.files = some content →
        service.vault.readPage row.path before.files = some content ∨
          rev = service.sha256Hex content) :
    service.StampedExcept exempt after := by
  intro row stored unexempt rev has content read
  obtain ⟨old, present, same, rev'⟩ := rows row stored unexempt rev has
  cases files row stored unexempt rev has content read with
  | inl kept => exact stamped old present (same ▸ unexempt) rev rev' content (same ▸ kept)
  | inr fresh => exact fresh

theorem restampRev_stamped {exempt : Text → Prop} (path : Text) (world after : World)
    (rev : Option Text) (stamped : service.StampedExcept exempt world)
    (ran : service.restampRev env path world = (.ok rev, after)) :
    service.StampedExcept (fun other => exempt other ∧ other ≠ path) after := by
  obtain ⟨files, db, _⟩ := service.restampRev_after env path world after rev ran
  cases read : service.vault.readPage path world.files with
  | none =>
      rw [read] at db
      intro row stored unexempt rev has content file
      rw [db] at stored
      rw [files] at file
      by_cases here : row.path = path
      · rw [here, read] at file
        simp at file
      · exact stamped row stored (fun narrow => unexempt ⟨narrow, here⟩) rev has content file
  | some bytes =>
      rw [read] at db
      intro row stored unexempt rev has content file
      rw [db] at stored
      rw [files] at file
      obtain ⟨old, present, rfl⟩ := List.mem_map.mp stored
      by_cases here : old.path = path
      · simp only [here, if_true] at has file
        rw [read] at file
        obtain rfl : bytes = content := by simpa using file
        simpa using has.symm
      · simp only [here, if_false] at has file unexempt
        exact stamped old present (fun narrow => unexempt ⟨narrow, here⟩) rev has content file

section Edits

-- Whoever else has this file already has the revision of these bytes.
def Agrees (exempt : Text → Prop) (key : FileKey) (content : Text) (db : Database) : Prop :=
  ∀ row ∈ db.entities, ¬exempt row.path → service.vault.names row.path key →
    ∀ rev, row.rev = some rev → rev = service.sha256Hex content

theorem readPage_update (path content : Text) (key : FileKey) (value : Option Text)
    (files : Files)
    (read : service.vault.readPage path (Function.update files key value) = some content) :
    (service.vault.names path key ∧ value = some content) ∨
      (¬service.vault.names path key ∧ service.vault.readPage path files = some content) := by
  obtain ⟨key', named, stored⟩ := (service.vault.readPage_eq_some _ _ _).mp read
  by_cases same : key' = key
  · subst same
    exact Or.inl ⟨named, by simpa using stored⟩
  · right
    rw [Function.update_of_ne same] at stored
    refine ⟨?_, (service.vault.readPage_eq_some _ _ _).mpr ⟨key', named, stored⟩⟩
    intro other
    have : Except.ok (ε := AppError) key' = .ok key := named.symm.trans other
    exact same (by simpa using this)

theorem readPage_removed (path content : Text) (key : FileKey) (files : Files)
    (read : service.vault.readPage path (Function.update files key none) = some content) :
    service.vault.readPage path files = some content := by
  cases service.readPage_update path content key none files read with
  | inl removed => simp at removed
  | inr kept => exact kept.2

theorem stamped_put (exempt : Text → Prop) (path content : Text) (key : FileKey)
    (before after : World) (stamped : service.StampedExcept exempt before)
    (agrees : service.Agrees exempt key content before.db)
    (rows : ∀ row ∈ after.db.entities, ∀ rev, row.rev = some rev →
      (row.path = path ∧ rev = service.sha256Hex content) ∨
        (¬exempt row.path ∧ ∃ old ∈ before.db.entities, old.path = row.path ∧ old.rev = some rev))
    (own : ∀ other, service.vault.readPage path after.files = some other →
      service.sha256Hex other = service.sha256Hex content)
    (files : after.files = Function.update before.files key (some content)) :
    service.Stamped after := by
  intro row stored _ rev has other read
  cases rows row stored rev has with
  | inl here =>
      rw [here.2]
      exact (own other (here.1 ▸ read)).symm
  | inr there =>
      obtain ⟨unexempt, old, present, same, rev'⟩ := there
      rw [files] at read
      cases service.readPage_update row.path other key _ before.files read with
      | inl written =>
          obtain rfl : content = other := by simpa using written.2
          exact agrees old present (same ▸ unexempt) (same ▸ written.1) rev rev'
      | inr kept => exact stamped old present (same ▸ unexempt) rev rev' other (same ▸ kept.2)

structure NoteAgrees (path content : Text) (world : World) : Prop where
  held : Held path (service.sha256Hex content) world.db → ∀ row,
    world.db.entityByPath path = some row → row.mirroredRev ≠ some (service.sha256Hex content) →
      ∀ key, noteKey path = .ok key → service.Agrees (fun _ => False) key content world.db
  fresh : ¬Held path (service.sha256Hex content) world.db → ∀ key, noteKey path = .ok key →
    service.Agrees (fun other => other = path) key content world.db ∧
      ∀ page, service.vault.names path page → page ≠ key → ∀ other, world.files page = some other →
        service.sha256Hex other = service.sha256Hex content
  extracted : ∀ before after, env.extract path content before = .ok after →
    ∀ row ∈ after.entities, ∀ rev, row.rev = some rev →
      ∃ old ∈ before.entities, old.path = row.path ∧ old.rev = some rev

theorem commitEdit_stamped (path head : Text) (base : PageEditBase) (newPageName : Option Text)
    (content : Text) (result : EditResult) (world after : World)
    (nameless : ¬(base = .missing ∧ newPageName = none)) (stamped : service.Stamped world)
    (agrees : ∀ key, service.vault.names path key →
      service.Agrees (fun other => other = path) key content world.db)
    (ran : service.commitEdit env path head base newPageName content world = (.ok result, after)) :
    service.Stamped after := by
  cases service.commitEdit_cases env path head base newPageName content world nameless with
  | inl idle =>
      obtain ⟨result', same⟩ := idle
      obtain rfl : world = after := congrArg Prod.snd (same.symm.trans ran)
      exact stamped
  | inr committed =>
      obtain ⟨memoryOps, _, written | refused⟩ := committed
      · obtain ⟨key, result', named, _, wrote⟩ := written
        obtain rfl : _ = after := congrArg Prod.snd (wrote.symm.trans ran)
        refine service.stamped_put _ path content key world _
          (StampedExcept.mono service stamped fun _ none => none.elim) (agrees key named) ?_ ?_ rfl
        · intro row stored rev has
          cases Database.applyPageEdit_rows _ _ _ row stored with
          | inl here => exact Or.inl ⟨here.1, Option.some.inj (has.symm.trans here.2)⟩
          | inr other => exact Or.inr ⟨other.1, row, other.2, rfl, has⟩
        · intro other read
          cases service.readPage_update path other key _ world.files read with
          | inl written => simpa using congrArg (Option.map service.sha256Hex) written.2.symm
          | inr apart => exact absurd named apart.1
      · obtain ⟨error, _, failed⟩ := refused
        exact absurd (congrArg Prod.fst (failed.symm.trans ran)) (by simp)

theorem stamped_removed (before after : World) (stamped : service.Stamped before)
    (rows : ∀ row ∈ after.db.entities, row ∈ before.db.entities)
    (files : after.files = before.files ∨ ∃ key, after.files = Function.update before.files key none) :
    service.Stamped after := by
  refine StampedExcept.change service stamped
    (fun row stored _ rev has => ⟨row, rows row stored, rfl, has⟩) ?_
  intro row _ _ rev _ content read
  left
  cases files with
  | inl same => rwa [same] at read
  | inr removed =>
      obtain ⟨key, removed⟩ := removed
      rw [removed] at read
      exact service.readPage_removed row.path content key before.files read

theorem freed_cases (key : FileKey) (files : Files) :
    freed env key files = files ∨ ∃ gone, freed env key files = Function.update files gone none := by
  cases removed : env.removes key with
  | true => exact Or.inr ⟨key, by simp [freed, removed]⟩
  | false => exact Or.inl (by simp [freed, removed])

theorem deletePage_stamped (path : Text) (result : EditResult) (world after : World)
    (stamped : service.Stamped world)
    (ran : service.deletePage env path world = (.ok result, after)) : service.Stamped after := by
  rw [deletePage_eq] at ran
  split at ran
  · simp at ran
  · obtain rfl : _ = after := congrArg Prod.snd ran
    refine service.stamped_removed world _ stamped
      (fun row stored => deleteStatements_rows env path world.db row stored) ?_
    cases named : service.vault.pageKey path with
    | error error => exact Or.inl (by simp [removedPage, named])
    | ok key =>
        simp only [removedPage, named]
        exact freed_cases env key world.files

theorem ingestDelete_stamped (path : Text) (result : EditResult) (world after : World)
    (stamped : service.Stamped world)
    (ran : ingestDelete env path world = (.ok result, after)) : service.Stamped after := by
  rw [ingestDelete_eq] at ran
  split at ran
  · simp at ran
  · obtain rfl : _ = after := congrArg Prod.snd ran
    refine service.stamped_removed world _ stamped
      (fun row stored => noteStatements_rows env path world.db row stored) ?_
    cases named : noteKey path with
    | error error => exact Or.inl (by simp [removedNote, named])
    | ok key =>
        simp only [removedNote, named]
        exact freed_cases env key world.files

theorem ingestUpsert_stamped (path content : Text) (result : EditResult) (world after : World)
    (stamped : service.Stamped world) (agrees : service.NoteAgrees env path content world)
    (ran : service.ingestUpsert env path content world = (.ok result, after)) :
    service.Stamped after := by
  have extracted (before last : Database) (mined : Extracted env path content before last)
      (row : KnowledgeEntity) (stored : row ∈ last.entities) (rev : Text)
      (has : row.rev = some rev) :
      ∃ old ∈ before.entities, old.path = row.path ∧ old.rev = some rev := by
    cases mined with
    | inl same => exact ⟨row, same ▸ stored, rfl, has⟩
    | inr extracted => exact agrees.extracted before last extracted row stored rev has
  have mirror (rev' : Text) (before last : Database)
      (mined : Extracted env path content (mirrored path rev' before) last)
      (row : KnowledgeEntity) (stored : row ∈ last.entities) (rev : Text)
      (has : row.rev = some rev) :
      ∃ old ∈ before.entities, old.path = row.path ∧ old.rev = some rev := by
    obtain ⟨between, present, same, rev''⟩ := extracted _ last mined row stored rev has
    obtain ⟨old, present', same', kept, _⟩ := mirrored_rows path rev' before between present
    exact ⟨old, present', same'.trans same, kept.trans rev''⟩
  cases service.ingestUpsert_cases env path content world with
  | inl idle =>
      obtain ⟨_, same⟩ := idle
      obtain rfl : world = after := congrArg Prod.snd (same.symm.trans ran)
      exact stamped
  | inr noted =>
      obtain ⟨db, progress, accepted, done⟩ := noted
      obtain ⟨_, rows⟩ := service.noteRow_cases path content world.db db progress accepted
      cases rows with
      | inl held =>
          obtain ⟨row, found, stamp, rfl, rfl⟩ := held
          have present := List.mem_of_find?_eq_some found
          have named : row.path = path := by simpa using List.find?_some found
          rcases done with ⟨_, last, mined, wrote⟩ | ⟨pending, refused | written⟩
          · obtain rfl : _ = after := congrArg Prod.snd (wrote.symm.trans ran)
            exact StampedExcept.change service stamped
              (fun row stored _ => extracted _ last mined row stored)
              fun _ _ _ _ _ _ read => Or.inl read
          · obtain ⟨error, _, failed⟩ := refused
            exact absurd (congrArg Prod.fst (failed.symm.trans ran)) (by simp)
          · obtain ⟨key, file, _, failed | ⟨_, last, mined, wrote⟩⟩ := written
            · exact absurd (congrArg Prod.fst (failed.2.symm.trans ran)) (by simp)
            · obtain rfl : _ = after := congrArg Prod.snd (wrote.symm.trans ran)
              have unmirrored : row.mirroredRev ≠ some (service.sha256Hex content) := by
                simpa [externalPageProgress] using pending
              have held : Held path (service.sha256Hex content) world.db := ⟨row, found, stamp⟩
              refine service.stamped_put _ path content key world _ stamped
                (agrees.held held row found unmirrored key file) ?_ ?_ rfl
              · intro row stored rev has
                exact Or.inr ⟨not_false, mirror _ _ last mined row stored rev has⟩
              · intro other read
                cases service.readPage_update path other key _ world.files read with
                | inl bytes => simpa using congrArg (Option.map service.sha256Hex) bytes.2.symm
                | inr kept =>
                    exact (stamped row present not_false _ stamp other (named ▸ kept.2)).symm
      | inr fresh =>
          obtain ⟨unheld, rfl, rfl⟩ := fresh
          rcases done with ⟨mirrored, _⟩ | ⟨_, refused | written⟩
          · simp at mirrored
          · obtain ⟨error, _, failed⟩ := refused
            exact absurd (congrArg Prod.fst (failed.symm.trans ran)) (by simp)
          · obtain ⟨key, file, _, failed | ⟨_, last, mined, wrote⟩⟩ := written
            · exact absurd (congrArg Prod.fst (failed.2.symm.trans ran)) (by simp)
            · obtain rfl : _ = after := congrArg Prod.snd (wrote.symm.trans ran)
              obtain ⟨others, own⟩ := agrees.fresh unheld key file
              refine service.stamped_put _ path content key world _
                (StampedExcept.mono service stamped fun _ none => none.elim) others ?_ ?_ rfl
              · intro row stored rev has
                obtain ⟨old, present, same, rev'⟩ := mirror _ _ last mined row stored rev has
                cases service.acceptNote_rows path content world.db old present with
                | inl here =>
                    exact Or.inl ⟨same ▸ here.1, Option.some.inj (rev'.symm.trans here.2)⟩
                | inr other => exact Or.inr ⟨same ▸ other.1, old, other.2, same, rev'⟩
              · intro other read
                cases service.readPage_update path other key _ world.files read with
                | inl bytes => simpa using congrArg (Option.map service.sha256Hex) bytes.2.symm
                | inr kept =>
                    obtain ⟨page, named, bytes⟩ := (service.vault.readPage_eq_some _ _ _).mp kept.2
                    refine own page named ?_ other bytes
                    rintro rfl
                    exact kept.1 named

def EditAgrees (op : EditOp) (world : World) : Prop :=
  match service.vault.pageFromAny op.path, op with
  | none, .upsert path _ content => service.NoteAgrees env (trimEndMd path) content world
  | some clean, .upsert _ baseRev content =>
      commitOf baseRev (service.gate clean baseRev world) ≠ none →
        ∀ key, service.vault.names clean key →
          service.Agrees (fun other => other = clean) key content world.db
  | _, .delete _ => True

theorem applyEdit_stamped (op : EditOp) (result : EditResult) (world after : World)
    (stamped : service.Stamped world) (agrees : service.EditAgrees env op world)
    (ran : service.applyEdit env op world = (.ok result, after)) : service.Stamped after := by
  unfold applyEdit at ran
  unfold EditAgrees at agrees
  by_cases reset : env.resetInProgress
  · simp [reset] at ran
  · simp only [reset, Bool.false_eq_true, if_false] at ran
    cases start : service.vault.pageFromAny op.path with
    | none =>
        simp only [start] at ran agrees
        cases op with
        | delete path => exact service.ingestDelete_stamped env _ result world after stamped ran
        | upsert path baseRev content =>
            exact service.ingestUpsert_stamped env _ content result world after stamped agrees ran
    | some clean =>
        simp only [start] at ran agrees
        cases op with
        | delete path => exact service.deletePage_stamped env clean result world after stamped ran
        | upsert path baseRev content =>
            cases service.upsertPage_eq env path clean baseRev content world start with
            | inl outdated =>
                obtain ⟨_, same, _⟩ := outdated
                obtain rfl : world = after := congrArg Prod.snd (same.symm.trans ran)
                exact stamped
            | inr commit =>
                obtain ⟨head, base, newPageName, made, same⟩ := commit
                refine service.commitEdit_stamped env clean head base newPageName content result
                  world after (commitOf_named baseRev _ head base newPageName made) stamped ?_
                  (same.symm.trans ran)
                exact agrees (by simp [made])

theorem writePageAndRev_stamped (path file rev : Text) (world after : World)
    (stamped : service.Stamped world)
    (agrees : ∀ key, service.vault.names path key →
      service.Agrees (fun other => other = path) key file world.db)
    (ran : service.writePageAndRev env path file world = (.ok rev, after)) :
    service.Stamped after := by
  obtain ⟨_, projected, first, ran⟩ := Call.bind_ok ran
  obtain ⟨_, written, second, ran⟩ := Call.bind_ok ran
  obtain rfl : written = after := congrArg Prod.snd ran
  obtain ⟨key, named, _, rfl⟩ := service.vault.writePage_ok env path file projected written second
  by_cases refused : env.refuses (.pageProjection path)
  · simp [setPageProjection, update, statement, refused] at first
  · obtain rfl : _ = projected := by
      simpa [setPageProjection, update, statement, refused] using first
    refine service.stamped_put _ path file key world _
      (StampedExcept.mono service stamped fun _ none => none.elim) (agrees key named) ?_ ?_ rfl
    · intro row stored rev has
      obtain ⟨old, present, rfl⟩ := List.mem_map.mp stored
      by_cases here : old.path = path
      · simp only [here, if_true] at has ⊢
        exact Or.inl ⟨trivial, (Option.some.inj has).symm⟩
      · simp only [here, if_false] at has ⊢
        exact Or.inr ⟨not_false, old, present, rfl, has⟩
    · intro other read
      cases service.readPage_update path other key _ world.files read with
      | inl bytes => simpa using congrArg (Option.map service.sha256Hex) bytes.2.symm
      | inr apart => exact absurd named apart.1

end Edits

end PkmSyncService

end Frona.Pkm
