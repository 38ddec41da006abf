import Frona.Chat.CompactionRuns

set_option autoImplicit false

namespace Frona.Chat

open Utf8

section Requests

structure CurrentRequest (live : List Message) (index : Nat) : Prop where
  inside : index < live.length
  request : isRequest live[index] = true
  newest : ∀ later (bound : later < live.length), index < later → isRequest live[later] = false

def RequestGroup (live : List Message) (index : Nat) : Prop :=
  ∃ current < live.length,
    (CurrentRequest live current ∨
      (∀ row ∈ live, isRequest row = false) ∧ current = live.length - 1) ∧
    index ≤ current ∧ createdAtIdx live current ≤ createdAtIdx live index ∧
    ∀ older < index, createdAtIdx live older < createdAtIdx live current

theorem rposition_none {p : Message → Bool} {messages : List Message}
    (none : rposition p messages = none) : ∀ row ∈ messages, p row = false := by
  simpa [rposition] using none

theorem rposition_some {p : Message → Bool} {messages : List Message} {index : Nat}
    (found : rposition p messages = some index) :
    ∃ inside : index < messages.length, p messages[index] = true ∧
      ∀ later (bound : later < messages.length), index < later → p messages[later] = false := by
  simp only [rposition, Option.map_eq_some_iff] at found
  obtain ⟨fromEnd, found, rfl⟩ := found
  obtain ⟨inside, holds, before⟩ := List.findIdx?_eq_some_iff_getElem.mp found
  rw [List.length_reverse] at inside
  refine ⟨by omega, by simpa using holds, fun later bound after => ?_⟩
  -- A later row comes earlier in the reversed list.
  have mirrored := before (messages.length - 1 - later) (by omega)
  have same : messages.length - 1 - (messages.length - 1 - later) = later := by omega
  simpa [same] using mirrored

theorem requestIdx_current (live : List Message) :
    CurrentRequest live (requestIdx live) ∨
      (∀ row ∈ live, isRequest row = false) ∧ requestIdx live = live.length - 1 := by
  unfold requestIdx
  cases found : rposition isRequest live with
  | none => exact .inr ⟨rposition_none found, rfl⟩
  | some index =>
      obtain ⟨inside, request, newest⟩ := rposition_some found
      exact .inl ⟨inside, request, newest⟩

theorem CurrentRequest.unique {live : List Message} {current : Nat}
    (request : CurrentRequest live current) : requestIdx live = current := by
  cases requestIdx_current live with
  | inl other =>
      rcases Nat.lt_trichotomy (requestIdx live) current with before | same | after
      · simpa [request.request] using other.newest current request.inside before
      · exact same
      · simpa [other.request] using request.newest _ other.inside after
  | inr none => simpa [request.request] using none.1 _ (List.getElem_mem request.inside)

theorem Protects.le_request {live : List Message} {index : Nat} (protects : Protects live index) :
    index ≤ requestIdx live := by
  by_contra after
  have := protects.earlier (requestIdx live) (by omega)
  omega

theorem protectedFrom_group (live : List Message) (some : live ≠ []) :
    RequestGroup live (protectedFrom live) := by
  have protects := protectedFrom_protects live some
  exact ⟨requestIdx live, requestIdx_lt live some, requestIdx_current live,
    protects.le_request, protects.since, protects.earlier⟩

end Requests

section Tail

variable {request : CompactRequest} {store : Store}

/-- The rows from the index on are the longest tail that the target has room for, or reach back to
the first protected row. -/
structure KeepsFrom (request : CompactRequest) (store : Store) (index : Nat) : Prop where
  shortens : 0 < index
  current : ∀ current, CurrentRequest store.live current → index ≤ current
  tail : FitsFrom request store index ∧ ¬FitsFrom request store (index - 1) ∨
    RequestGroup store.live index

theorem keepFromIdx_keeps (compacts : Compacts request store) :
    KeepsFrom request store (keepFromIdx request store) := by
  have some := live_ne_nil compacts
  have inside := keepFromIdx_lt compacts
  have positive := Nat.pos_of_ne_zero compacts.2
  have protects := protectedFrom_protects store.live some
  refine ⟨positive, fun current newest => ?_, ?_⟩
  · have := protects.le_request
    rw [newest.unique] at this
    unfold keepFromIdx
    omega
  · rcases Nat.lt_or_ge (keepFromIdx request store) (protectedFrom store.live) with walked | guarded
    · left
      have stop : keepTail (target request) (summaryBudget request store)
          (costs request store) = keepFromIdx request store := by
        unfold keepFromIdx at walked ⊢
        omega
      rw [← keepTail_le_iff_fits _ inside, ← keepTail_le_iff_fits _ (by omega), stop]
      omega
    · right
      have same : keepFromIdx request store = protectedFrom store.live := by
        unfold keepFromIdx at guarded ⊢
        omega
      rw [same]
      exact protectedFrom_group store.live some

theorem step_failed {world : World} {seams : Seams} {now : Nat} {error : AppError}
    (failed : compactChat request world.store seams now = .error error) :
    step (.compact request seams now) world = some { world with last := none } := by
  simp [step, failed]

theorem compactChat_unsummarized {seams : Seams} {now : Nat} {prompt : Text} {error : AppError}
    (compacts : Compacts request store) (read : seams.prompt = some prompt)
    (failed : seams.summarize prompt (summarizerInput request store) = .error error)
    (save : ChatSummary → Except AppError Unit) :
    compactChat request store { seams with save := save } now = .error error := by
  have exceeds := compacts.1
  unfold compactChat
  rw [if_neg (live_ne_nil compacts), if_neg (by omega), if_neg compacts.2]
  simp [read, failed, bind, Except.bind]

/-- A compaction keeps the current request and the longest tail that the target has room for, or
all from the first protected row on. A summarizer that fails leaves nothing behind. -/
theorem compactChat_keeps_tail (seams : Seams) (now : Nat) :
    (∀ outcome next, compactChat request store seams now = .ok (outcome, next) →
      outcome.compacted = true → ∃ index, KeepsFrom request store index ∧
        outcome.conversation.messages = store.live.drop index) ∧
    (∀ prompt error, Compacts request store → seams.prompt = some prompt →
      seams.summarize prompt (summarizerInput request store) = .error error →
      ∀ save handed last,
        step (.compact request { seams with save := save } now) ⟨store, handed, last⟩ =
          some ⟨store, handed, none⟩) := by
  constructor
  · intro outcome next done compacted
    rcases compactChat_compacted done with ⟨rfl, rfl⟩ | ⟨compacts, content, rfl, rfl⟩
    · simp at compacted
    · exact ⟨_, keepFromIdx_keeps compacts, rfl⟩
  · intro prompt error compacts read failed save handed last
    exact step_failed (compactChat_unsummarized compacts read failed save)

def threeNotes : Store := ⟨[note 'a' 1, note 'b' 2, note 'c' 3], none⟩

def failingSeams : Seams := { stubSeams with summarize := fun _ _ => .error (.internal []) }

theorem compactChat_keeps_tail_notes :
    (∃ outcome next index, compactChat smallWindow threeNotes stubSeams 9 = .ok (outcome, next) ∧
      KeepsFrom smallWindow threeNotes index ∧
      outcome.conversation.messages = threeNotes.live.drop index) ∧
    ∀ save, step (.compact smallWindow { failingSeams with save := save } 9) ⟨threeNotes, [], none⟩ =
      some ⟨threeNotes, [], none⟩ := by
  constructor
  · have ran : (match compactChat smallWindow threeNotes stubSeams 9 with
        | .ok (outcome, _) => outcome.compacted
        | .error _ => false) = true := by decide
    cases done : compactChat smallWindow threeNotes stubSeams 9 with
    | error error => simp [done] at ran
    | ok result =>
        rw [done] at ran
        obtain ⟨index, keeps, same⟩ :=
          (compactChat_keeps_tail stubSeams 9).1 result.1 result.2 done ran
        exact ⟨result.1, result.2, index, rfl, keeps, same⟩
  · intro save
    exact (compactChat_keeps_tail failingSeams 9).2 [] (.internal []) (by decide) rfl rfl
      save [] none

end Tail

end Frona.Chat
