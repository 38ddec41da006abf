import Frona.Machine.Run
import Frona.Pkm.PathRows

set_option autoImplicit false

namespace Frona.Pkm

open Utf8 (Text)

namespace PkmSyncService

variable (service : PkmSyncService) (env : Environment)

section Renames

structure RenameClean (source target : Text) (db : Database) : Prop where
  leads : Clean target
  notes : ∀ row ∈ db.entities, row.origin = .external →
    (row.path = source ∨ source ++ ['/'] <+: row.path) →
    (splitSlash target).head? ≠ some service.vault.directory

variable {service} in
theorem RenameClean.single {source target : Text} {db : Database}
    (clean : service.RenameClean source target db) (plain : service.vault.directory ≠ ['.']) :
    service.MovesClean [(source, target)] db where
  targets move member := by
    rw [List.mem_singleton.mp member]
    exact clean.leads
  notes row present external moved move member := by
    rw [List.mem_singleton.mp member]
    have here : row.path = source := by simpa using moved
    exact VaultScope.outside_of_head plain clean.leads (clean.notes row present external (.inl here))

variable {service} in
theorem RenameClean.below {source target : Text} {db : Database}
    (clean : service.RenameClean source target db) (plain : service.vault.directory ≠ ['.'])
    (rows : service.vault.CleanRows db) :
    service.MovesClean (dirMoves source target db) db := by
  have moved (move : Text × Text) (member : move ∈ dirMoves source target db) : ∃ rest,
      move.2 = target ++ '/' :: rest ∧ Clean move.2 := by
    obtain ⟨page, rest, old, new⟩ := (mem_dirMoves source target db move.1 move.2).mp member
    obtain ⟨row, present, named⟩ := List.mem_map.mp page
    have below := rows.clean row present
    rw [named, old] at below
    exact ⟨rest, new, new ▸ clean.leads.moved below⟩
  constructor
  · intro move member
    obtain ⟨rest, -, below⟩ := moved move member
    exact below
  · intro row present external source' move member
    obtain ⟨first, member', here⟩ := List.mem_map.mp source'
    obtain ⟨-, rest', old, -⟩ := (mem_dirMoves source target db first.1 first.2).mp member'
    have away := clean.notes row present external
      (.inr ⟨rest', by rw [← here, old]; simp⟩)
    obtain ⟨rest, new, below⟩ := moved move member
    refine VaultScope.outside_of_head plain below ?_
    rw [new, splitSlash_joined, List.head?_append_of_ne_nil _ (splitSlash_ne_nil target)]
    exact away

theorem setPageProjection_tidy (path content rev : Text) :
    Call.Within (tidy service.vault) (setPageProjection env path content rev) :=
  update_within env _ _ (tidy_map _ _ (fun _ => rfl) (fun _ row => by split <;> rfl)
    fun _ row => by split <;> rfl)

theorem restampRev_tidy (path : Text) :
    Call.Within (tidy service.vault) (service.restampRev env path) := by
  apply Call.Within.get.bind
  intro world
  split
  next => exact Call.Within.pure _
  next => exact (service.setPageProjection_tidy env _ _ _).bind fun _ => Call.Within.pure _

theorem moveFiles_tidy (moves : List (Text × Text)) :
    Call.Within (tidy service.vault) (service.moveFiles env moves) := by
  induction moves with
  | nil => exact Call.Within.pure _
  | cons move rest ih =>
      apply (service.vault.movePageFile_within env move.1 move.2 fun _ key _ => tidy_file key).attempt.bind
      intro _
      exact (service.restampRev_tidy env move.2).bind fun _ => ih

theorem relinkMoves_tidy (moves : List (Text × Text)) :
    Call.Within (tidy service.vault) (service.relinkMoves env moves) := by
  intro world rows
  rw [relinkMoves_eq]
  exact rows

theorem tidy_bind {A B : Type} {call : Call A} {next : A → Call B} {world : World}
    (first : service.vault.CleanRows (call world).2.db)
    (rest : ∀ value, Call.Within (tidy service.vault) (next value)) :
    service.vault.CleanRows ((call >>= next) world).2.db := by
  rw [Call.bind_apply]
  cases ran : call world with
  | mk result between =>
      rw [ran] at first
      cases result with
      | ok value => exact rest value between first
      | error error => exact first

theorem pageEverywhere_db (source target : Text) (world : World) :
    (service.pageEverywhere env source target world).2.db =
      (renameEntities env [(source, target)] world).2.db := by
  cases committed : renameEntities env [(source, target)] world with
  | mk result renamed =>
      cases result with
      | error error => rw [service.pageEverywhere_error env source target world renamed error committed]
      | ok done => rw [service.pageEverywhere_ok env source target world renamed committed]

theorem rename_tidy (plain : service.vault.directory ≠ ['.']) (fromPath toPath : Text)
    (world : World) (rows : service.vault.CleanRows world.db)
    (clean : ∀ source target, service.vault.pageFromAny fromPath = some source →
      service.vault.pageFromAny toPath = some target →
        service.RenameClean source target world.db) :
    service.vault.CleanRows (service.rename env fromPath toPath world).2.db := by
  unfold rename
  split
  next => exact rows
  next =>
    cases start : service.vault.pageFromAny fromPath with
    | none =>
        split
        next => simpa [renameOne, vaultToPage, start] using rows
        next => simpa [renameDir, vaultToPage, start] using rows
    | some source =>
        cases stop : service.vault.pageFromAny toPath with
        | none =>
            split
            next => simpa [renameOne, vaultToPage, start, stop] using rows
            next => simpa [renameDir, vaultToPage, start, stop] using rows
        | some target =>
            have leads := clean source target start stop
            split
            next =>
              cases occupied : world.db.entityByPath target with
              | some occupant =>
                  simpa [renameOne, vaultToPage, start, stop, occupied] using rows
              | none =>
                  have moved : service.vault.CleanRows
                      (service.pageEverywhere env source target world).2.db := by
                    rw [pageEverywhere_db]
                    exact service.renameEntities_tidy env _ world rows (leads.single plain)
                  have stamped : service.vault.CleanRows
                      (service.movePage env source target world).2.db :=
                    service.tidy_bind moved fun _ =>
                      (service.restampRev_tidy env target).bind fun _ => Call.Within.pure _
                  have answered : service.vault.CleanRows
                      ((service.movePage env source target >>= fun rev =>
                        (pure (.accepted rev) : Call EditResult)) world).2.db :=
                    service.tidy_bind stamped fun _ => Call.Within.pure _
                  simpa [renameOne, vaultToPage, start, stop, occupied] using answered
            next =>
              by_cases nothing : dirMoves source target world.db = []
              · simpa [renameDir, vaultToPage, start, stop, nothing] using rows
              · cases occupied : occupiedTarget (dirMoves source target world.db) world.db with
                | some new =>
                    simpa [renameDir, vaultToPage, start, stop, nothing, occupied] using rows
                | none =>
                    have moved := service.renameEntities_tidy env _ world rows
                      (leads.below plain rows)
                    have answered : service.vault.CleanRows
                        (service.moveDir env (dirMoves source target world.db) world).2.db :=
                      service.tidy_bind moved fun _ =>
                        (service.moveFiles_tidy env _).bind fun _ =>
                          (service.relinkMoves_tidy env _).bind fun _ => Call.Within.pure _
                    simpa [renameDir, vaultToPage, start, stop, nothing, occupied] using answered

end Renames

section Failures

variable {env}

def Whole (env : Environment) (statements : List Statement) : Prop :=
  stopped env statements = true → ∀ entry ∈ statements.head?, env.refuses entry.1 = true

def EditWhole (env : Environment) (op : EditOp) (db : Database) : Prop :=
  match op, service.vault.pageFromAny op.path with
  | .upsert _ _ _, some page => ∀ key, service.vault.names page key → env.accepts key = true
  | .upsert path _ content, none => Held (trimEndMd path) (service.sha256Hex content) db ∨
      env.refuses .externalMirrored = false ∧
        ∀ key, noteKey (trimEndMd path) = .ok key → env.accepts key = true
  | .delete _, some page => Whole env (deleteStatements page db)
  | .delete path, none => Whole env (noteStatements (trimEndMd path) db)

theorem applied_whole {statements : List Statement} {db : Database} (whole : Whole env statements)
    (stops : stopped env statements = true) : applied env statements db = db :=
  applied_first env statements db (whole stops)

theorem deletePage_settled {page : Text} {world after : World} {error : AppError}
    (whole : Whole env (deleteStatements page world.db))
    (failed : service.deletePage env page world = (.error error, after)) : after.db = world.db := by
  rw [deletePage_eq] at failed
  split at failed
  next stops =>
    obtain rfl : _ = after := congrArg Prod.snd failed
    exact applied_whole whole stops
  next => cases failed

theorem ingestDelete_settled {path : Text} {world after : World} {error : AppError}
    (whole : Whole env (noteStatements path world.db))
    (failed : ingestDelete env path world = (.error error, after)) : after.db = world.db := by
  rw [ingestDelete_eq] at failed
  split at failed
  next stops =>
    obtain rfl : _ = after := congrArg Prod.snd failed
    exact applied_whole whole stops
  next => cases failed

theorem upsertPage_settled {path page : Text} (start : service.vault.pageFromAny path = some page)
    (clean : Clean page) (accepted : ∀ key, service.vault.names page key → env.accepts key = true)
    {baseRev : Option Text} {content : Text} {world after : World} {error : AppError}
    (failed : service.upsertPage env path baseRev content world = (.error error, after)) :
    after.db = world.db := by
  rcases service.upsertPage_eq env path page baseRev content world start with
    ⟨result, same, -⟩ | ⟨head, base, newPageName, commit, same⟩
  · rw [same] at failed
    cases failed
  · rw [same] at failed
    rcases service.commitEdit_cases env page head base newPageName content world
        (commitOf_named baseRev _ head base newPageName commit) with
      ⟨result, nothing⟩ | ⟨memoryOps, -, ⟨key, result, -, -, ran⟩ | ⟨error, refused, -⟩⟩
    · rw [nothing] at failed
      obtain rfl : world = after := congrArg Prod.snd failed
      rfl
    · rw [ran] at failed
      cases failed
    · have named : service.vault.names page _ := service.vault.pageKey_clean clean
      exact absurd (refused _ named) (by simp [accepted _ named])

theorem ingestUpsert_settled {path content : Text} (clean : Clean path) {world after : World}
    (whole : Held path (service.sha256Hex content) world.db ∨ env.refuses .externalMirrored = false ∧
      ∀ key, noteKey path = .ok key → env.accepts key = true) {error : AppError}
    (failed : service.ingestUpsert env path content world = (.error error, after)) :
    after.db = world.db := by
  rcases service.ingestUpsert_cases env path content world with
    ⟨result, nothing⟩ | ⟨db, progress, row, ⟨-, done, -, ran⟩ | ⟨-, mirrors⟩⟩
  · rw [nothing] at failed
    obtain rfl : world = after := congrArg Prod.snd failed
    rfl
  · rw [ran] at failed
    cases failed
  · -- The file or the mark is refused; that only matters when the note was new.
    have same : Held path (service.sha256Hex content) world.db → db = world.db := by
      intro held
      obtain ⟨-, ⟨_, -, -, same, -⟩ | ⟨other, -⟩⟩ := service.noteRow_cases path content _ _ _ row
      · exact same
      · exact absurd held other
    rcases mirrors with ⟨_, refused, ran⟩ | ⟨key, named, -, ⟨refused, ran⟩ | ⟨-, done, -, ran⟩⟩
    · rw [ran] at failed
      obtain rfl : _ = after := congrArg Prod.snd failed
      rcases whole with held | ⟨-, accepted⟩
      · exact same held
      · have taken := accepted _ clean.noteKey_eq
        rw [refused _ clean.noteKey_eq] at taken
        cases taken
    · rw [ran] at failed
      obtain rfl : _ = after := congrArg Prod.snd failed
      rcases whole with held | ⟨marked, -⟩
      · exact same held
      · rw [refused] at marked
        cases marked
    · rw [ran] at failed
      cases failed

theorem applyEdit_settled {op : EditOp} {world after : World} {error : AppError}
    (clean : service.EditClean op) (whole : service.EditWhole env op world.db)
    (failed : service.applyEdit env op world = (.error error, after)) : after.db = world.db := by
  unfold applyEdit at failed
  split at failed
  next => 
    obtain rfl : world = after := congrArg Prod.snd failed
    rfl
  next =>
    cases op with
    | upsert path baseRev content =>
        cases routed : service.vault.pageFromAny path with
        | none =>
            simp only [EditOp.path, routed] at failed
            simp only [EditClean, routed, Option.getD_none] at clean
            simp only [EditWhole, EditOp.path, routed] at whole
            exact service.ingestUpsert_settled clean whole failed
        | some page =>
            simp only [EditOp.path, routed] at failed
            simp only [EditClean, routed, Option.getD_some] at clean
            simp only [EditWhole, EditOp.path, routed] at whole
            exact service.upsertPage_settled routed clean whole failed
    | delete path =>
        cases routed : service.vault.pageFromAny path with
        | none =>
            simp only [EditOp.path, routed] at failed
            simp only [EditWhole, EditOp.path, routed] at whole
            exact ingestDelete_settled whole failed
        | some page =>
            simp only [EditOp.path, routed] at failed
            simp only [EditWhole, EditOp.path, routed] at whole
            exact service.deletePage_settled whole failed

theorem renameEntities_error {moves : List (Text × Text)} {world after : World} {error : AppError}
    (failed : renameEntities env moves world = (.error error, after)) : after = world := by
  unfold renameEntities at failed
  split at failed
  next => cases failed
  next =>
    split at failed
    next => exact (congrArg Prod.snd failed).symm
    next =>
      split at failed
      next => exact (congrArg Prod.snd failed).symm
      next => cases failed

variable (stamps : ∀ path, env.refuses (.pageProjection path) = false)

include stamps

theorem restampRev_stamps (path : Text) (world : World) :
    ∃ rev after, service.restampRev env path world = (.ok rev, after) := by
  cases read : service.vault.readPage path world.files with
  | none => exact ⟨none, world, by simp [restampRev, read]⟩
  | some content =>
      exact ⟨some (service.sha256Hex content), _, by
        simp [restampRev, read, setPageProjection, update, statement, stamps path]; rfl⟩

theorem moveFiles_stamps (moves : List (Text × Text)) (world : World) :
    ∃ after, service.moveFiles env moves world = (.ok (), after) := by
  induction moves generalizing world with
  | nil => exact ⟨world, rfl⟩
  | cons move rest ih =>
      obtain ⟨source, target⟩ := move
      obtain ⟨rev, between, stamped⟩ := service.restampRev_stamps stamps target
        (service.vault.movePageFile env source target world).2
      obtain ⟨after, ran⟩ := ih between
      exact ⟨after, by simp only [moveFiles, Call.bind_apply, Call.attempt_apply, stamped, ran]⟩

theorem rename_settled {fromPath toPath : Text} {world after : World} {error : AppError}
    (failed : service.rename env fromPath toPath world = (.error error, after)) : after = world := by
  unfold rename at failed
  split at failed
  next => exact (congrArg Prod.snd failed).symm
  next =>
    cases start : service.vault.pageFromAny fromPath with
    | none =>
        split at failed
        next => simpa [renameOne, vaultToPage, start] using (congrArg Prod.snd failed).symm
        next => simpa [renameDir, vaultToPage, start] using (congrArg Prod.snd failed).symm
    | some source =>
        cases stop : service.vault.pageFromAny toPath with
        | none =>
            split at failed
            next => simpa [renameOne, vaultToPage, start, stop] using (congrArg Prod.snd failed).symm
            next => simpa [renameDir, vaultToPage, start, stop] using (congrArg Prod.snd failed).symm
        | some target =>
            split at failed
            next =>
              cases occupied : world.db.entityByPath target with
              | some occupant => simp [renameOne, vaultToPage, start, stop, occupied] at failed
              | none =>
                  cases committed : renameEntities env [(source, target)] world with
                  | mk result renamed =>
                      cases result with
                      | error first =>
                          have everywhere := service.pageEverywhere_error env source target world
                            renamed first committed
                          simp [renameOne, vaultToPage, start, stop, occupied, movePage,
                            everywhere] at failed
                          rw [← failed.2]
                          exact renameEntities_error committed
                      | ok done =>
                          have everywhere := service.pageEverywhere_ok env source target world
                            renamed committed
                          obtain ⟨rev, stamped, ran⟩ := service.restampRev_stamps stamps target
                            (service.pageEverywhere env source target world).2
                          rw [everywhere] at ran
                          simp [renameOne, vaultToPage, start, stop, occupied, movePage, everywhere,
                            ran] at failed
            next =>
              by_cases nothing : dirMoves source target world.db = []
              · simpa [renameDir, vaultToPage, start, stop, nothing] using
                  (congrArg Prod.snd failed).symm
              · cases occupied : occupiedTarget (dirMoves source target world.db) world.db with
                | some new =>
                    simpa [renameDir, vaultToPage, start, stop, nothing, occupied] using
                      (congrArg Prod.snd failed).symm
                | none =>
                    simp only [renameDir, vaultToPage, start, stop, nothing, occupied,
                      Call.bind_apply, Call.fromExcept_apply, Call.get_apply, if_false, moveDir]
                      at failed
                    cases committed : renameEntities env (dirMoves source target world.db) world with
                    | mk result renamed =>
                        rw [committed] at failed
                        cases result with
                        | error first =>
                            obtain rfl : _ = after := congrArg Prod.snd failed
                            exact renameEntities_error committed
                        | ok done =>
                            obtain ⟨placed, moved⟩ := service.moveFiles_stamps stamps
                              (dirMoves source target world.db) renamed
                            simp [moved, relinkMoves_eq] at failed

end Failures

section Calls

inductive ClientOp where
  | edit (op : EditOp)
  | rename (fromPath toPath : Text)

structure ClientCall where
  env : Environment
  answers : Text → Text → Database → Except AppError (List ExtractedMemory)
  op : ClientOp

def answer (call : ClientCall) : Call EditResult :=
  match call.op with
  | .edit op => service.applyEdit (service.extracting call.env call.answers) op
  | .rename fromPath toPath =>
      service.rename (service.extracting call.env call.answers) fromPath toPath

-- A call that fails leaves a world for the next one too.
def serve (call : ClientCall) (world : World) : Option World := some (service.answer call world).2

/-- The paths that the call leads to are clean, and once it has begun to change the tables neither
the database nor the disk refuses the rest. -/
def Careful (call : ClientCall) (world : World) : Prop :=
  match call.op with
  | .edit op => service.EditClean op ∧
      service.EditWhole (service.extracting call.env call.answers) op world.db
  | .rename fromPath toPath =>
      (∀ source target, service.vault.pageFromAny fromPath = some source →
        service.vault.pageFromAny toPath = some target →
          service.RenameClean source target world.db) ∧
      ∀ path, (service.extracting call.env call.answers).refuses (.pageProjection path) = false

variable {service}

theorem serve_tidy (plain : service.vault.directory ≠ ['.']) {call : ClientCall}
    {world next : World} (rows : service.vault.CleanRows world.db)
    (careful : service.Careful call world) (taken : service.serve call world = some next) :
    service.vault.CleanRows next.db := by
  obtain rfl := Option.some.inj taken
  obtain ⟨env, answers, op⟩ := call
  cases op with
  | edit op => exact service.applyEdit_tidy env answers plain careful.1 world rows
  | rename fromPath toPath => exact service.rename_tidy _ plain fromPath toPath world rows careful.1

theorem answer_settled {call : ClientCall} {world : World} (careful : service.Careful call world)
    {error : AppError} (failed : (service.answer call world).1 = .error error) :
    (service.answer call world).2.db = world.db := by
  obtain ⟨env, answers, op⟩ := call
  have whole : service.answer ⟨env, answers, op⟩ world =
      (.error error, (service.answer ⟨env, answers, op⟩ world).2) := Prod.ext failed rfl
  cases op with
  | edit op => exact service.applyEdit_settled careful.1 careful.2 whole
  | rename fromPath toPath =>
      exact congrArg World.db (service.rename_settled careful.2 whole)

end Calls

end PkmSyncService

open PkmSyncService (ClientCall)

/--
Through every run of careful calls each stored path is one that the storage takes, routes back to
itself and has a file of its own, and a call that fails leaves the tables as they were.
-/
theorem paths_kept_run (service : PkmSyncService) (plain : service.vault.directory ≠ ['.'])
    (calls : List ClientCall) (world last : World) (rows : service.vault.CleanRows world.db)
    (guarded : Machine.Guarded service.serve service.Careful calls world)
    (reached : Machine.run service.serve calls world = some last) :
    service.vault.OneToOne last.db ∧
      ∀ before call after between error, calls = before ++ call :: after →
        Machine.run service.serve before world = some between →
          (service.answer call between).1 = .error error →
            (service.answer call between).2.db = between.db := by
  constructor
  · apply VaultScope.CleanRows.oneToOne
    exact Machine.invariant_run service.serve service.Careful
      (fun world => service.vault.CleanRows world.db)
      (fun _ _ _ kept careful taken => PkmSyncService.serve_tidy plain kept careful taken)
      calls world last rows guarded reached
  · rintro before call after between error rfl first failed
    have later := (Machine.Guarded.append guarded first).2
    exact PkmSyncService.answer_settled later.1 failed

section Runs

open PkmSyncService (ClientOp)

def calmly (op : ClientOp) : ClientCall := ⟨plainEnvironment, fun _ _ _ => .ok [], op⟩

def pageNew : Text := "c".toList

def pushC : ClientCall := calmly (.edit (.upsert "Memory/c.md".toList none "New".toList))

def renameX : ClientCall := calmly (.rename "Memory/a/x.md".toList "Memory/b/x.md".toList)

theorem linkedPages_clean : memoryVault.CleanRows linkedPages.db where
  unique := by decide
  clean := by decide
  notes row present external := by
    have pages : ∀ row ∈ linkedPages.db.entities, row.origin = .internal := by decide
    rw [pages row present] at external
    cases external

theorem pushC_careful : plainService.Careful pushC linkedPages := by
  have start : plainService.vault.pageFromAny "Memory/c.md".toList = some pageNew := by decide
  refine ⟨?_, ?_⟩
  · simp only [PkmSyncService.EditClean, start, Option.getD_some]
    decide
  · simp only [PkmSyncService.EditWhole, EditOp.path, start]
    exact fun _ _ => rfl

theorem renameX_careful : plainService.Careful renameX (plainService.answer pushC linkedPages).2 := by
  refine ⟨?_, fun _ => rfl⟩
  intro source target start stop
  obtain rfl : movedX = target := Option.some.inj
    ((show memoryVault.pageFromAny "Memory/b/x.md".toList = some movedX by decide).symm.trans stop)
  refine ⟨by decide, fun row present external => ?_⟩
  have pages : ∀ row ∈ (plainService.answer pushC linkedPages).2.db.entities,
      row.origin = .internal := by
    decide
  rw [pages row present] at external
  cases external

theorem paths_kept_run_renamed :
    memoryVault.OneToOne
      (plainService.answer renameX (plainService.answer pushC linkedPages).2).2.db :=
  (paths_kept_run plainService (by decide) [pushC, renameX] linkedPages _ linkedPages_clean
    (Machine.Guarded.cons pushC_careful rfl (Machine.Guarded.cons renameX_careful rfl trivial))
    rfl).1

def emptyVault : World where
  db := ⟨[], [], [], [], 0⟩
  files _ := none

def blankName : ClientCall := calmly (.edit (.upsert "Memory/x .md".toList none "New".toList))

theorem blank_before_extension :
    ¬ ∀ (service : PkmSyncService) (calls : List ClientCall) (world last : World),
        service.vault.CleanRows world.db → Machine.run service.serve calls world = some last →
          service.vault.OneToOne last.db := by
  intro always
  have empty : memoryVault.CleanRows emptyVault.db := ⟨by decide, nofun, nofun⟩
  have kept := always plainService [blankName] emptyVault _ empty rfl
  have stray : ∃ row ∈ (plainService.answer blankName emptyVault).2.db.entities,
      memoryVault.pageFromAny (memoryVault.vaultPath row.path) ≠ some row.path := by
    decide
  obtain ⟨row, present, other⟩ := stray
  exact other (kept.routed row present)

end Runs

end Frona.Pkm
