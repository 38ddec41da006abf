import Frona.Machine.Run
import Frona.Pkm.ResetGate

set_option autoImplicit false

namespace Frona.Pkm

open Utf8 (Text)

namespace ResetCall

def inProgress : ResetCall → Bool
  | .idle | .writing _ => false
  | _ => true

def arms : ResetCall → Bool
  | .requested _ | .recovering | .recovered _ => true
  | _ => false

def isWaiting : ResetCall → Bool
  | .waiting _ => true
  | _ => false

def isHolding : ResetCall → Bool
  | .holding _ => true
  | _ => false

def isWriting : ResetCall → Bool
  | .writing _ => true
  | _ => false

def isCompleted : ResetCall → Bool
  | .completed => true
  | _ => false

def mayHoldBarrier : ResetCall → Bool
  | .holding _ | .wiped _ | .completing _ | .completed | .failing _ _ | .dropping => true
  | _ => false

def apartFrom (before after : ResetCall) : Bool :=
  !before.isWaiting && (!after.isHolding && (!after.isWriting &&
    (!before.mayHoldBarrier || after.mayHoldBarrier)))

end ResetCall

structure Armed (row : Option PkmResetStatus) (blocked : Bool) (calls : Nat → ResetCall) :
    Prop where
  armed : row.isSome = true → blocked = true ∨ ∃ id, (calls id).arms = true
  owed : blocked = true → row.isSome = true ∨ ∃ id, calls id = .completed

section Armed

variable {row left : Option PkmResetStatus} {blocked : Bool} {calls : Nat → ResetCall} {id : Nat}
  {call : ResetCall}

theorem Armed.goOn (armed : Armed row blocked calls) (id : Nat) (call : ResetCall)
    (same : left.isSome = row.isSome)
    (marked : (calls id).arms = true → call.arms = true ∨ blocked = true ∨ row = none)
    (cleared : calls id ≠ .completed) :
    Armed left blocked (Function.update calls id call) where
  armed present := by
    rw [same] at present
    obtain done | found := armed.armed present
    · exact Or.inl done
    · by_cases stays : call.arms = true ∨ (calls id).arms = false
      · refine Or.inr (Machine.exists_update (fun other : ResetCall => other.arms = true) found ?_)
        intro before
        obtain after | not := stays
        · exact after
        · simp [before] at not
      · simp only [not_or, Bool.not_eq_true, Bool.not_eq_false] at stays
        obtain after | done | none' := marked stays.2
        · simp [stays.1] at after
        · exact Or.inl done
        · simp [none'] at present
  owed done := by
    rw [same]
    refine (armed.owed done).imp_right fun found => ?_
    exact Machine.exists_update (fun other : ResetCall => other = .completed) found
      fun before => absurd before cleared

theorem Armed.mark (witnessed : row.isSome = true ∨ ∃ other, calls other = .completed)
    (apart : calls id ≠ .completed) : Armed row true (Function.update calls id call) where
  armed _ := Or.inl rfl
  owed _ := witnessed.imp_right fun found =>
    Machine.exists_update (fun other : ResetCall => other = .completed) found
      fun before => absurd before apart

theorem Armed.clear (gone : row = none) : Armed row false calls where
  armed present := by simp [gone] at present
  owed := by simp

theorem Armed.complete : Armed none blocked (Function.update calls id .completed) where
  armed := by simp
  owed _ := Or.inr ⟨id, by simp⟩

theorem Armed.request {status : PkmResetStatus} (arms : call.arms = true) :
    Armed (some status) blocked (Function.update calls id call) where
  armed _ := Or.inr ⟨id, by simpa using arms⟩
  owed _ := Or.inl rfl

end Armed

structure Fenced (world : ResetWorld) : Prop where
  owner : ∀ id, world.resetter = some id → (world.calls id).mayHoldBarrier = true
  holder : ∀ id, (world.calls id).isHolding = true → world.resetter = some id
  queued : ∀ id ∈ world.queue, (world.calls id).isWaiting = true
  apart : world.resetter.isSome = true → world.readers = []
  reading : ∀ id began, world.calls id = .writing began → id ∈ world.readers ∧ began = world.wipes
  timely : ∀ commit ∈ world.commits, commit.1 = commit.2

namespace Fenced

variable {world : ResetWorld} {id : Nat} {call : ResetCall}

theorem writing_kept (call : ResetCall) (notWriting : call.isWriting = false) {other began : Nat}
    (here : Function.update world.calls id call other = .writing began) :
    other ≠ id ∧ world.calls other = .writing began := by
  by_cases same : other = id
  · simp only [same, Function.update_self] at here
    simp [here, ResetCall.isWriting] at notWriting
  · exact ⟨same, by simpa [same] using here⟩

theorem apply (fenced : Fenced world) (row : Option PkmResetStatus) (nextId : Nat)
    (blocked : Bool) (spawned : List Nat) :
    Fenced { world with row, nextId, blocked, spawned } :=
  ⟨fenced.owner, fenced.holder, fenced.queued, fenced.apart, fenced.reading, fenced.timely⟩

theorem not_queued (fenced : Fenced world) (was : (world.calls id).isWaiting = false) {other : Nat}
    (waits : other ∈ world.queue) : other ≠ id := by
  intro same
  have waiting := fenced.queued other waits
  simp [same, was] at waiting

theorem goOn (fenced : Fenced world) (apart : (world.calls id).apartFrom call = true) :
    Fenced (world.goOn id call) := by
  simp only [ResetCall.apartFrom, Bool.and_eq_true, Bool.not_eq_true', Bool.or_eq_true] at apart
  obtain ⟨was, notHolding, notWriting, owner⟩ := apart
  refine ⟨?_, ?_, ?_, fenced.apart, ?_, fenced.timely⟩
  · intro other held
    by_cases same : other = id
    · subst same
      simpa [ResetWorld.goOn, fenced.owner other held] using owner
    · simpa [ResetWorld.goOn, same] using fenced.owner other held
  · intro other holds
    by_cases same : other = id
    · simp [ResetWorld.goOn, same, notHolding] at holds
    · exact fenced.holder other (by simpa [ResetWorld.goOn, same] using holds)
  · intro other waits
    simpa [ResetWorld.goOn, fenced.not_queued was waits] using fenced.queued other waits
  · intro other began here
    exact fenced.reading other began (writing_kept call notWriting here).2

theorem finish (fenced : Fenced world) (was : (world.calls id).isWaiting = false) :
    Fenced (world.finish id) where
  owner := by
    intro other held
    simp only [ResetWorld.finish] at held ⊢
    split at held
    · simp at held
    next notMine =>
      have apart : other ≠ id := fun same => notMine (same ▸ held)
      simpa [apart] using fenced.owner other held
  holder := by
    intro other holds
    by_cases same : other = id
    · simp [ResetWorld.finish, same, ResetCall.isHolding] at holds
    · have held := fenced.holder other (by simpa [ResetWorld.finish, same] using holds)
      simp [ResetWorld.finish, held, same]
  queued := by
    intro other waits
    simpa [ResetWorld.finish, fenced.not_queued was waits] using fenced.queued other waits
  apart := by
    intro held
    have before : world.resetter.isSome = true := by
      by_contra free
      simp_all [ResetWorld.finish]
    simp [ResetWorld.finish, fenced.apart before]
  reading := by
    intro other began here
    have ⟨apart, here⟩ := writing_kept .idle rfl here
    have ⟨reads, current⟩ := fenced.reading other began here
    exact ⟨by simp [ResetWorld.finish, reads, apart], current⟩
  timely := fenced.timely

theorem join (fenced : Fenced world) {before requestId : Nat}
    (stage : world.calls id = .blocking before) :
    Fenced { world.goOn id (.waiting requestId) with queue := world.queue ++ [id] } := by
  have moved : Fenced (world.goOn id (.waiting requestId)) :=
    fenced.goOn (by rw [stage]; rfl)
  refine ⟨moved.owner, moved.holder, ?_, moved.apart, moved.reading, moved.timely⟩
  intro other waits
  obtain earlier | new := List.mem_append.mp waits
  · exact moved.queued other earlier
  · obtain rfl := List.mem_singleton.mp new
    simp [ResetWorld.goOn, ResetCall.isWaiting]

theorem leave (fenced : Fenced world) (call : ResetCall) {resetter : Option Nat}
    (notWriting : call.isWriting = false)
    (owner : ∀ other, resetter = some other →
      (Function.update world.calls id call other).mayHoldBarrier = true)
    (holder : ∀ other, (Function.update world.calls id call other).isHolding = true →
      resetter = some other)
    (alone : resetter.isSome = true → world.readers = []) :
    Fenced { world.goOn id call with
      queue := world.queue.filter fun waiter => waiter ≠ id
      resetter := resetter } := by
  refine ⟨owner, holder, ?_, alone, ?_, fenced.timely⟩
  · intro other waits
    have ⟨earlier, apart⟩ := List.mem_filter.mp waits
    simp only [ne_eq, decide_not, Bool.not_eq_eq_eq_not, Bool.not_true, decide_eq_false_iff_not]
      at apart
    simpa [ResetWorld.goOn, apart] using fenced.queued other earlier
  · intro other began here
    exact fenced.reading other began (writing_kept call notWriting here).2

theorem acquire (fenced : Fenced world) {requestId : Nat} {next : ResetWorld}
    (taken : world.acquire id requestId = some next) : Fenced next := by
  rw [ResetWorld.acquire] at taken
  split at taken
  next free =>
    obtain rfl := Option.some.inj taken
    refine fenced.leave (.holding requestId) rfl ?_ ?_ fun _ => free.1
    · intro other held
      obtain rfl := Option.some.inj held
      simp [ResetCall.mayHoldBarrier]
    · intro other holds
      by_cases same : other = id
      · rw [same]
      · have held := fenced.holder other (by simpa [same] using holds)
        simp [free.2.1] at held
  next => simp at taken

theorem timeOut (fenced : Fenced world) {requestId : Nat}
    (stage : world.calls id = .waiting requestId) : Fenced (world.timeOut id requestId) := by
  have notMine : world.resetter ≠ some id := by
    intro held
    have owner := fenced.owner id held
    simp [stage, ResetCall.mayHoldBarrier] at owner
  refine fenced.leave (.failing requestId _) rfl ?_ ?_ fenced.apart
  · intro other held
    have apart : other ≠ id := fun same => notMine (same ▸ held)
    simpa [apart] using fenced.owner other held
  · intro other holds
    by_cases same : other = id
    · simp [same, ResetCall.isHolding] at holds
    · exact fenced.holder other (by simpa [same] using holds)

theorem wipe (fenced : Fenced world) {requestId : Nat} (stage : world.calls id = .holding requestId) :
    Fenced { world.goOn id (.wiped requestId) with wipes := world.wipes + 1 } := by
  have moved : Fenced (world.goOn id (.wiped requestId)) := fenced.goOn (by rw [stage]; rfl)
  refine ⟨moved.owner, moved.holder, moved.queued, moved.apart, ?_, moved.timely⟩
  intro other began here
  have held := fenced.holder id (by rw [stage]; rfl)
  have none' := fenced.apart (by rw [held]; rfl)
  have reads := (moved.reading other began here).1
  change other ∈ world.readers at reads
  simp [none'] at reads

theorem write (fenced : Fenced world) {next : ResetWorld} (idle : world.calls id = .idle)
    (begun : world.tryBeginWrite id = some next) : Fenced next := by
  rw [ResetWorld.tryBeginWrite] at begun
  split at begun
  next => simp at begun
  next accepted =>
    obtain rfl := Option.some.inj begun
    simp only [ResetWorld.refusesWrites, Bool.or_eq_true, not_or] at accepted
    have free : world.resetter = none := by simpa using accepted.2.1
    refine ⟨?_, ?_, ?_, ?_, ?_, fenced.timely⟩
    · intro other held
      have held : world.resetter = some other := held
      simp [free] at held
    · intro other holds
      by_cases same : other = id
      · simp [ResetWorld.goOn, same, ResetCall.isHolding] at holds
      · exact fenced.holder other (by simpa [ResetWorld.goOn, same] using holds)
    · intro other waits
      have apart : other ≠ id := fenced.not_queued (by rw [idle]; rfl) waits
      simpa [ResetWorld.goOn, apart] using fenced.queued other waits
    · intro held
      have held : world.resetter.isSome = true := held
      simp [free] at held
    · intro other began here
      by_cases same : other = id
      · subst same
        have same : world.wipes = began := by simpa [ResetWorld.goOn] using here
        exact ⟨by simp, same.symm⟩
      · have earlier : world.calls other = .writing began := by
          simpa [ResetWorld.goOn, same] using here
        have ⟨reads, current⟩ := fenced.reading other began earlier
        exact ⟨by simp [reads], current⟩

theorem commit (fenced : Fenced world) {began : Nat} (stage : world.calls id = .writing began) :
    Fenced { world with commits := world.commits ++ [(began, world.wipes)] } := by
  refine ⟨fenced.owner, fenced.holder, fenced.queued, fenced.apart, fenced.reading, ?_⟩
  intro pair member
  obtain earlier | new := List.mem_append.mp member
  · exact fenced.timely pair earlier
  · rw [List.mem_singleton.mp new]
    exact (fenced.reading id began stage).2

end Fenced

end Frona.Pkm
