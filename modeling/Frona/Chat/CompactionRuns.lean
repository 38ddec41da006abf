import Mathlib.Data.List.Induction
import Frona.Machine.Run
import Frona.Chat.Compactor

set_option autoImplicit false

namespace Frona.Chat

open Utf8

section Walk

variable (target summaryBudget : Nat)

theorem walk_le (front : List Nat) (running : Nat) :
    walk target summaryBudget front.reverse running front.length ≤ front.length := by
  induction front using List.reverseRecOn generalizing running with
  | nil => simp [walk]
  | append_singleton init last ih =>
      have := ih (running + last)
      simp only [List.reverse_append, List.reverse_cons, List.reverse_nil, List.nil_append,
        List.singleton_append, walk, List.length_reverse, List.length_append, List.length_singleton]
      split <;> omega

theorem walk_le_iff (front : List Nat) (running index : Nat) (inside : index < front.length) :
    walk target summaryBudget front.reverse running front.length ≤ index ↔
      (front.drop index).sum + running + summaryBudget ≤ target := by
  induction front using List.reverseRecOn generalizing running with
  | nil => simp at inside
  | append_singleton init last ih =>
      have bound := walk_le target summaryBudget init (running + last)
      simp only [List.length_append, List.length_singleton] at inside
      simp only [List.reverse_append, List.reverse_cons, List.reverse_nil, List.nil_append,
        List.singleton_append, walk, List.length_reverse, List.length_append,
        List.length_singleton, List.drop_append_of_le_length (Nat.le_of_lt_succ inside),
        List.sum_append, List.sum_singleton]
      split
      · omega
      · next fits =>
          by_cases newest : index = init.length
          · simp only [newest, List.drop_length, List.sum_nil]
            omega
          · rw [ih (running + last) (by omega)]
            omega

theorem keepTail_le (costs : List Nat) : keepTail target summaryBudget costs ≤ costs.length :=
  walk_le target summaryBudget costs 0

theorem keepTail_le_iff (costs : List Nat) (index : Nat) (inside : index < costs.length) :
    keepTail target summaryBudget costs ≤ index ↔
      (costs.drop index).sum + summaryBudget ≤ target := by
  simpa [keepTail] using walk_le_iff target summaryBudget costs 0 index inside

end Walk

section Protection

theorem requestIdx_lt (live : List Message) (some : live ≠ []) :
    requestIdx live < live.length := by
  have := List.length_pos_iff.mpr some
  unfold requestIdx rposition
  cases live.reverse.findIdx? isRequest with
  | none =>
      simp only [Option.map_none, Option.getD_none]
      omega
  | some index =>
      simp only [Option.map_some, Option.getD_some]
      omega

theorem createdAtIdx_getElem (live : List Message) (index : Nat) (inside : index < live.length) :
    createdAtIdx live index = live[index].createdAt := by
  simp [createdAtIdx, inside]

structure Protects (live : List Message) (index : Nat) : Prop where
  inside : index < live.length
  since : createdAtIdx live (requestIdx live) ≤ createdAtIdx live index
  earlier : ∀ older < index, createdAtIdx live older < createdAtIdx live (requestIdx live)

theorem protectedFrom_protects (live : List Message) (some : live ≠ []) :
    Protects live (protectedFrom live) := by
  have request := requestIdx_lt live some
  have own : createdAtIdx live (requestIdx live) ≤ live[requestIdx live].createdAt :=
    (createdAtIdx_getElem live _ request).le
  unfold protectedFrom
  cases found : live.findIdx? (createdAtIdx live (requestIdx live) ≤ ·.createdAt) with
  | none =>
      have := List.findIdx?_eq_none_iff.mp found _ (List.getElem_mem request)
      simp only [decide_eq_false_iff_not] at this
      exact absurd own this
  | some index =>
      obtain ⟨inside, since, earlier⟩ := List.findIdx?_eq_some_iff_getElem.mp found
      refine ⟨inside, ?_, fun older before => ?_⟩
      · simpa [createdAtIdx_getElem live index inside] using since
      · have := earlier older before
        rw [Option.getD_some] at before
        rw [createdAtIdx_getElem live older (by omega)]
        simpa using this

end Protection

section Reload

variable {A : Type} (key : A → Nat)

theorem filter_after_prefix (front rest : List A) (last first : A)
    (ordered : ((front ++ [last]) ++ first :: rest).Pairwise (key · ≤ key ·)) :
    ((front ++ [last]) ++ first :: rest).filter (key last < key ·) = first :: rest ↔
      key last < key first := by
  have upTo : ∀ item ∈ front ++ [last], key item ≤ key last := by
    intro item member
    obtain old | rfl : item ∈ front ∨ item = last := by simpa using member
    · have := (List.pairwise_append.mp (List.pairwise_append.mp ordered).1).2.2
      exact this item old last (by simp)
    · exact le_rfl
  have from_ : ∀ item ∈ first :: rest, key first ≤ key item := by
    intro item member
    cases member with
    | head => exact le_rfl
    | tail _ member =>
        exact (List.pairwise_cons.mp (List.pairwise_append.mp ordered).2.1).1 item member
  have dropped : (front ++ [last]).filter (key last < key ·) = [] := by
    simp only [List.filter_eq_nil_iff, decide_eq_true_eq, not_lt]
    exact upTo
  rw [List.filter_append, dropped, List.nil_append, List.filter_eq_self]
  constructor
  · intro after
    simpa using after first (by simp)
  · intro apart item member
    simpa using lt_of_lt_of_le apart (from_ item member)

end Reload

section Splits

variable (request : CompactRequest) (store : Store)

def FitsFrom (index : Nat) : Prop :=
  ((costs request store).drop index).sum + summaryBudget request store ≤ target request

def UntornTies : Prop :=
  ∀ index < store.live.length - 1,
    createdAtIdx store.live index = createdAtIdx store.live (index + 1) →
    createdAtIdx store.live (index + 1) < createdAtIdx store.live (requestIdx store.live) →
    FitsFrom request store (index + 1) → FitsFrom request store index

instance (index : Nat) : Decidable (FitsFrom request store index) :=
  inferInstanceAs (Decidable (_ ≤ _))

instance : Decidable (UntornTies request store) :=
  inferInstanceAs (Decidable (∀ index < _, _ → _ → _ → _))

variable {request store}

theorem live_ne_nil (compacts : Compacts request store) : store.live ≠ [] := by
  intro none
  apply compacts.2
  have := keepTail_le (target request) (summaryBudget request store) (costs request store)
  simp only [costs, none, List.map_nil, List.length_nil] at this
  simp only [keepFromIdx, costs, none, List.map_nil]
  omega

theorem keepFromIdx_lt (compacts : Compacts request store) :
    keepFromIdx request store < store.live.length := by
  have := (protectedFrom_protects store.live (live_ne_nil compacts)).inside
  unfold keepFromIdx
  omega

theorem costs_length : (costs request store).length = store.live.length := by simp [costs]

theorem keepTail_le_iff_fits (index : Nat) (inside : index < store.live.length) :
    keepTail (target request) (summaryBudget request store) (costs request store) ≤ index ↔
      FitsFrom request store index :=
  keepTail_le_iff _ _ _ _ (by rwa [costs_length])

/-- The rows are ordered by their timestamps, with ties allowed. -/
def Ordered (messages : List Message) : Prop :=
  messages.Pairwise (·.createdAt ≤ ·.createdAt)

theorem Ordered.live (ordered : Ordered store.messages) : Ordered store.live := by
  unfold Store.live
  split
  · exact ordered.filter _
  · exact ordered

theorem Ordered.createdAtIdx_le {live : List Message} (ordered : Ordered live) (index : Nat)
    (inside : index + 1 < live.length) :
    createdAtIdx live index ≤ createdAtIdx live (index + 1) := by
  rw [createdAtIdx_getElem live index (by omega), createdAtIdx_getElem live (index + 1) inside]
  exact List.pairwise_iff_getElem.mp ordered index (index + 1) (by omega) inside (by omega)

theorem split_apart_iff (ordered : Ordered store.messages) (compacts : Compacts request store) :
    createdAtIdx store.live (keepFromIdx request store - 1) <
        createdAtIdx store.live (keepFromIdx request store) ↔
      UntornTies request store := by
  have inside := keepFromIdx_lt compacts
  have positive := Nat.pos_of_ne_zero compacts.2
  have protects := protectedFrom_protects store.live (live_ne_nil compacts)
  have fits := @keepTail_le_iff_fits request store
  constructor
  · intro apart index bound tie older fit
    by_contra torn
    -- The walk stops right after the torn tie, and so does the split.
    have walked := (fits (index + 1) (by omega)).mpr fit
    have stopped := (fits index (by omega)).not.mpr torn
    have guarded : index + 1 < protectedFrom store.live := by
      by_contra outside
      have := protects.since
      have later : createdAtIdx store.live (protectedFrom store.live) ≤
          createdAtIdx store.live (index + 1) := by
        rw [createdAtIdx_getElem _ _ protects.inside, createdAtIdx_getElem _ _ (by omega)]
        rcases Nat.lt_or_ge (protectedFrom store.live) (index + 1) with before | same
        · exact List.pairwise_iff_getElem.mp ordered.live _ _ protects.inside (by omega) before
        · have : protectedFrom store.live = index + 1 := by omega
          simp [this]
      omega
    have here : keepFromIdx request store = index + 1 := by
      unfold keepFromIdx
      omega
    rw [here] at apart
    simp only [Nat.add_sub_cancel] at apart
    omega
  · intro untorn
    rcases Nat.lt_or_ge (keepFromIdx request store) (protectedFrom store.live) with walked | at_
    · have order := ordered.live.createdAtIdx_le (keepFromIdx request store - 1) (by omega)
      rw [Nat.sub_add_cancel positive] at order
      by_contra tied
      have stop : keepTail (target request) (summaryBudget request store)
          (costs request store) = keepFromIdx request store := by
        unfold keepFromIdx at walked ⊢
        omega
      have fit := (fits _ inside).mp stop.le
      have older := protects.earlier _ walked
      have := untorn (keepFromIdx request store - 1) (by omega)
        (by rw [Nat.sub_add_cancel positive]; omega)
        (by rw [Nat.sub_add_cancel positive]; exact older)
        (by rw [Nat.sub_add_cancel positive]; exact fit)
      have := (fits (keepFromIdx request store - 1) (by omega)).mpr this
      omega
    · have same : keepFromIdx request store = protectedFrom store.live := by
        unfold keepFromIdx at at_ ⊢
        omega
      rw [same]
      exact lt_of_lt_of_le (protects.earlier _ (by omega)) protects.since

end Splits

section Reload

variable {request : CompactRequest} {store : Store}

theorem compactChat_compacted {seams : Seams} {now : Nat} {outcome : CompactionOutcome}
    {next : Store} (done : compactChat request store seams now = .ok (outcome, next)) :
    (outcome = ⟨false, loadConversation store⟩ ∧ next = store) ∨
    (Compacts request store ∧ ∃ content,
      outcome = ⟨true, ⟨some content, store.live.drop (keepFromIdx request store)⟩⟩ ∧
      next = { store with summary := some (summaryRow request store content now) }) := by
  unfold compactChat at done
  simp only at done
  split at done
  · cases done
    exact .inl ⟨rfl, rfl⟩
  · split at done
    · cases done
      exact .inl ⟨rfl, rfl⟩
    · next exceeds =>
        split at done
        · cases done
          exact .inl ⟨rfl, rfl⟩
        · next some_ =>
            cases prompt : seams.prompt with
            | none => simp [prompt, bind, Except.bind] at done
            | some text =>
                cases summarized : seams.summarize text (summarizerInput request store) with
                | error error => simp [prompt, summarized, bind, Except.bind] at done
                | ok content =>
                    cases saved : seams.save (summaryRow request store content now) with
                    | error error => simp [prompt, summarized, saved, bind, Except.bind] at done
                    | ok done_ =>
                        simp only [prompt, summarized, saved, bind, Except.bind,
                          Except.ok.injEq, Prod.mk.injEq] at done
                        exact .inr ⟨⟨by omega, some_⟩, content, done.1.symm, done.2.symm⟩

theorem summaryRow_compactedUntil (compacts : Compacts request store) (content : Text)
    (now : Nat) :
    (summaryRow request store content now).compactedUntil =
      createdAtIdx store.live (keepFromIdx request store - 1) := by
  have inside := keepFromIdx_lt compacts
  have positive := Nat.pos_of_ne_zero compacts.2
  have last : (messagesToCompact request store).getLast? =
      store.live[keepFromIdx request store - 1]? := by
    rw [messagesToCompact, List.getLast?_take]
    simp only [compacts.2, if_false]
    rw [List.getElem?_eq_getElem (by omega)]
    rfl
  simp only [summaryRow, last, createdAtIdx]
  rw [List.getElem?_eq_getElem (by omega)]
  rfl

theorem live_advance (row : Message) (member : row ∈ store.live) (summary : ChatSummary)
    (cutoff : summary.compactedUntil = row.createdAt) :
    ({ store with summary := some summary } : Store).live =
      store.live.filter (row.createdAt < ·.createdAt) := by
  obtain ⟨messages, covered⟩ := store
  cases covered with
  | none => simp [Store.live, findByChatIdAfter, cutoff]
  | some earlier =>
      obtain ⟨_, later⟩ := List.mem_filter.mp member
      have later : earlier.compactedUntil < row.createdAt := by simpa using later
      simp only [Store.live, findByChatIdAfter, cutoff, List.filter_filter]
      apply List.filter_congr
      intro other _
      rw [Bool.eq_iff_iff]
      simp only [decide_eq_true_eq, Bool.and_eq_true]
      omega

theorem filter_split_iff (live : List Message) (ordered : Ordered live) (index : Nat)
    (positive : 0 < index) (inside : index < live.length) :
    live.filter (live[index - 1].createdAt < ·.createdAt) = live.drop index ↔
      createdAtIdx live (index - 1) < createdAtIdx live index := by
  have parted : (live.take (index - 1) ++ [live[index - 1]]) ++ live.drop index = live := by
    have := List.take_append_getElem (l := live) (i := index - 1) (by omega)
    rw [this, Nat.sub_add_cancel positive, List.take_append_drop]
  have rest : live.drop index = live[index] :: live.drop (index + 1) :=
    List.drop_eq_getElem_cons inside
  have cut := filter_after_prefix (fun message : Message => message.createdAt)
    (live.take (index - 1)) (live.drop (index + 1)) live[index - 1] live[index]
    (by rw [← rest, parted]; exact ordered)
  rw [← rest, parted] at cut
  rw [createdAtIdx_getElem _ _ inside, createdAtIdx_getElem _ (index - 1) (by omega), cut]

theorem reload_iff (ordered : Ordered store.messages) (compacts : Compacts request store)
    (content : Text) (now : Nat) :
    ({ store with summary := some (summaryRow request store content now) } : Store).live =
        store.live.drop (keepFromIdx request store) ↔
      UntornTies request store := by
  have inside := keepFromIdx_lt compacts
  have cutoff := summaryRow_compactedUntil compacts content now
  rw [createdAtIdx_getElem _ _ (by omega)] at cutoff
  rw [live_advance _ (List.getElem_mem _) _ cutoff, ← split_apart_iff ordered compacts,
    filter_split_iff store.live ordered.live _ (Nat.pos_of_ne_zero compacts.2) inside]

end Reload

section Runs

structure Compaction where
  before : List Message
  handed : List Message
  outcome : CompactionOutcome

structure World where
  store : Store
  handed : List Message
  last : Option Compaction := none

inductive Act where
  | append (message : Message)
  | compact (request : CompactRequest) (seams : Seams) (now : Nat)

def step : Act → World → Option World
  | .append message, world => some
      { world with
        store := { world.store with messages := world.store.messages ++ [message] }
        last := none }
  | .compact request seams now, world =>
      match compactChat request world.store seams now with
      | .error _ => some { world with last := none }
      | .ok (outcome, store) =>
          if outcome.compacted then
            let handed := messagesToCompact request world.store
            some ⟨store, world.handed ++ handed, some ⟨world.store.live, handed, outcome⟩⟩
          else some ⟨store, world.handed, none⟩

-- What a summary covers at the start was handed to a summarizer before.
def World.start (store : Store) : World where
  store := store
  handed := match store.summary with
    | some summary => store.messages.filter (·.createdAt ≤ summary.compactedUntil)
    | none => []

/-- Every row of the history has been handed to a summarizer or is loaded, and a compaction that
wrote a summary returned exactly what a load returns, all else having been handed over by it. -/
structure NothingLost (world : World) : Prop where
  rows : ∀ row ∈ world.store.messages,
    row ∈ world.handed ∨ row ∈ (loadConversation world.store).messages
  compaction : ∀ last ∈ world.last,
    last.outcome.conversation = loadConversation world.store ∧
    ∀ row ∈ last.before, row ∈ last.outcome.conversation.messages ∨ row ∈ last.handed

/-- A new row is not older than any other and, if all rows are covered, later than the cutoff. -/
def InOrder (store : Store) (message : Message) : Prop :=
  (∀ row ∈ store.messages, row.createdAt ≤ message.createdAt) ∧
    (store.live = [] → ∀ summary ∈ store.summary, summary.compactedUntil < message.createdAt)

def Allowed : Act → World → Prop
  | .append message, world => InOrder world.store message
  | .compact request _ _, world =>
      Compacts request world.store → UntornTies request world.store

structure Inv (world : World) : Prop where
  ordered : Ordered world.store.messages
  parted : world.store.messages = world.handed ++ world.store.live
  last : ∀ last ∈ world.last, last.outcome.conversation = loadConversation world.store ∧
    ∀ row ∈ last.before, row ∈ last.outcome.conversation.messages ∨ row ∈ last.handed

theorem Inv.nothingLost {world : World} (inv : Inv world) : NothingLost world where
  rows row member := by
    rw [inv.parted, List.mem_append] at member
    exact member
  compaction := inv.last

theorem Ordered.partition (messages : List Message) (ordered : Ordered messages) (cutoff : Nat) :
    messages = messages.filter (·.createdAt ≤ cutoff) ++ findByChatIdAfter messages cutoff := by
  induction messages with
  | nil => rfl
  | cons first rest ih =>
      obtain ⟨least, tail⟩ := List.pairwise_cons.mp ordered
      by_cases covered : first.createdAt ≤ cutoff
      · simpa [findByChatIdAfter, covered, Nat.not_lt.mpr covered] using ih tail
      · have none : rest.filter (·.createdAt ≤ cutoff) = [] := by
          simp only [List.filter_eq_nil_iff, decide_eq_true_eq]
          intro row member
          have := least row member
          omega
        have all : rest.filter (cutoff < ·.createdAt) = rest := by
          simp only [List.filter_eq_self, decide_eq_true_eq]
          intro row member
          have := least row member
          omega
        simp [findByChatIdAfter, covered, Nat.lt_of_not_le covered, none, all]

theorem Inv.start (store : Store) (ordered : Ordered store.messages) :
    Inv (World.start store) where
  ordered := ordered
  parted := by
    obtain ⟨messages, covered⟩ := store
    cases covered with
    | none => rfl
    | some summary => exact Ordered.partition messages ordered summary.compactedUntil
  last := by simp [World.start]

theorem live_append {store : Store} {message : Message} (inOrder : InOrder store message) :
    ({ store with messages := store.messages ++ [message] } : Store).live =
      store.live ++ [message] := by
  obtain ⟨messages, covered⟩ := store
  cases covered with
  | none => rfl
  | some summary =>
      have after : summary.compactedUntil < message.createdAt := by
        cases live : findByChatIdAfter messages summary.compactedUntil with
        | nil => exact inOrder.2 live summary rfl
        | cons row rest =>
            have member : row ∈ findByChatIdAfter messages summary.compactedUntil :=
              live ▸ List.mem_cons_self
            obtain ⟨member, later⟩ := List.mem_filter.mp member
            have := inOrder.1 row member
            simp only [decide_eq_true_eq] at later
            omega
      simp [Store.live, findByChatIdAfter, after]

theorem Inv.append {world : World} {message : Message} (inv : Inv world)
    (inOrder : InOrder world.store message) :
    Inv ⟨{ world.store with messages := world.store.messages ++ [message] }, world.handed, none⟩
    where
  ordered := by
    refine List.pairwise_append.mpr ⟨inv.ordered, List.pairwise_singleton _ _, ?_⟩
    intro row member other last
    obtain rfl := List.mem_singleton.mp last
    exact inOrder.1 row member
  parted := by
    rw [live_append inOrder, ← List.append_assoc, ← inv.parted]
  last := by simp

theorem Inv.compacted {world : World} {request : CompactRequest} {content : Text} {now : Nat}
    (inv : Inv world) (compacts : Compacts request world.store)
    (untorn : UntornTies request world.store) :
    let handed := messagesToCompact request world.store
    let kept := world.store.live.drop (keepFromIdx request world.store)
    Inv ⟨{ world.store with summary := some (summaryRow request world.store content now) },
      world.handed ++ handed, some ⟨world.store.live, handed, ⟨true, ⟨some content, kept⟩⟩⟩⟩ := by
  have reload := (reload_iff inv.ordered compacts content now).mpr untorn
  refine ⟨inv.ordered, ?_, ?_⟩
  · simp only [reload, List.append_assoc, messagesToCompact, List.take_append_drop]
    exact inv.parted
  · intro last same
    obtain rfl := Option.mem_some.mp same
    refine ⟨by simp only [loadConversation, reload]; rfl, fun row member => ?_⟩
    rw [← List.take_append_drop (keepFromIdx request world.store) world.store.live,
      List.mem_append] at member
    exact member.symm

theorem Inv.step (action : Act) (world next : World) (inv : Inv world)
    (allowed : Allowed action world) (taken : step action world = some next) : Inv next := by
  cases action with
  | append message =>
      obtain rfl := Option.some.inj taken
      exact inv.append allowed
  | compact request seams now =>
      simp only [Chat.step] at taken
      cases done : compactChat request world.store seams now with
      | error error =>
          simp only [done, Option.some.injEq] at taken
          obtain rfl := taken
          exact ⟨inv.ordered, inv.parted, by simp⟩
      | ok result =>
          obtain ⟨outcome, store⟩ := result
          simp only [done] at taken
          rcases compactChat_compacted done with ⟨rfl, rfl⟩ | ⟨compacts, content, rfl, rfl⟩
          · simp only [Bool.false_eq_true, if_false, Option.some.injEq] at taken
            obtain rfl := taken
            exact ⟨inv.ordered, inv.parted, by simp⟩
          · simp only [if_true, Option.some.injEq] at taken
            obtain rfl := taken
            exact inv.compacted compacts (allowed compacts)

/-- Appends in order and compactions that tear no tie lose no row, however many there are. -/
theorem nothingLost_run (store : Store) (ordered : Ordered store.messages) (actions : List Act)
    (last : World) (guarded : Machine.Guarded step Allowed actions (World.start store))
    (reached : Machine.run step actions (World.start store) = some last) : NothingLost last :=
  (Machine.invariant_run step Allowed Inv (fun action world next inv allowed taken =>
    inv.step action world next allowed taken) actions _ _ (Inv.start store ordered) guarded
    reached).nothingLost

instance : (action : Act) → (world : World) → Decidable (Allowed action world)
  | .append _, _ => inferInstanceAs (Decidable (_ ∧ _))
  | .compact _ _ _, _ => inferInstanceAs (Decidable (_ → _))

def note (id : Char) (createdAt : Nat) : Message where
  id := [id]
  role := .user
  content := [id]
  createdAt := createdAt

def smallWindow : CompactRequest := ⟨[], [], [], 18, 0⟩

def stubSeams : Seams := ⟨some [], fun _ _ => .ok ['s'], fun _ => .ok ()⟩

def twoRounds : List Act :=
  [.append (note 'c' 3), .compact smallWindow stubSeams 9, .append (note 'd' 3),
    .append (note 'e' 4), .compact smallWindow stubSeams 9]

theorem nothingLost_run_twoRounds :
    (Machine.run step twoRounds (World.start ⟨[note 'a' 1, note 'b' 2], none⟩)).isSome = true ∧
    ∀ last, Machine.run step twoRounds (World.start ⟨[note 'a' 1, note 'b' 2], none⟩) = some last →
      NothingLost last :=
  ⟨by decide, fun last reached =>
    nothingLost_run _ (by simp [Ordered, note]) twoRounds last (by decide) reached⟩

theorem torn_tie_lost :
    ¬∀ last, Machine.run step [.compact smallWindow stubSeams 9]
      (World.start ⟨[note 'a' 1, note 'b' 1, note 'c' 2], none⟩) = some last →
      NothingLost last := by
  intro kept
  cases reached : Machine.run step [.compact smallWindow stubSeams 9]
      (World.start ⟨[note 'a' 1, note 'b' 1, note 'c' 2], none⟩) with
  | none =>
      have : (Machine.run step [.compact smallWindow stubSeams 9]
        (World.start ⟨[note 'a' 1, note 'b' 1, note 'c' 2], none⟩)).isSome = true := by
        decide
      simp [reached] at this
  | some last =>
      have rows := congrArg (·.map fun world : World =>
        (world.last.map fun last => last.outcome.conversation.messages.map (·.id),
          (loadConversation world.store).messages.map (·.id))) reached
      have : some (last.last.map fun last => last.outcome.conversation.messages.map (·.id),
          (loadConversation last.store).messages.map (·.id)) =
          some (some [['b'], ['c']], [['c']]) := rows.symm.trans (by decide)
      simp only [Option.some.injEq, Prod.mk.injEq] at this
      obtain ⟨compaction, same, returned⟩ := Option.map_eq_some_iff.mp this.1
      have loaded := congrArg (·.messages.map (·.id))
        ((kept last reached).compaction compaction same).1
      rw [returned, this.2] at loaded
      exact absurd loaded (by decide)

end Runs

end Frona.Chat
