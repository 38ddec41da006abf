import Frona.Machine.Run
import Frona.Pkm.Windows

set_option autoImplicit false

namespace Frona.Pkm

open Utf8 (Text)
open Frona.Chat (Message MessageStatus)

section Sorted

variable {A : Type} (time : A → Nat)

theorem filter_before_append (items : List A)
    (sorted : items.Pairwise fun earlier later => time earlier ≤ time later) (limit : Nat) :
    (items.filter fun item => time item < limit) ++ (items.filter fun item => limit ≤ time item) =
      items := by
  induction items with
  | nil => rfl
  | cons item rest ih =>
      obtain ⟨first, tail⟩ := List.pairwise_cons.mp sorted
      by_cases before : time item < limit
      · simp [before, Nat.not_le.mpr before, ih tail]
      · have later : ∀ other ∈ rest, ¬time other < limit := by
          intro other member
          have := first other member
          omega
        have none : (rest.filter fun item => time item < limit) = [] := by
          simpa using fun other member => Nat.not_lt.mp (later other member)
        have all := ih tail
        rw [none, List.nil_append] at all
        simp [before, Nat.not_lt.mp before, none, all]

end Sorted

section InFlight

theorem lt_firstInFlight (messages : List Message) (time : Nat) :
    time < firstInFlight messages ↔
      (∀ message ∈ messages, inFlight message = true → time < message.createdAt) ∧
        ((∃ message ∈ messages, inFlight message = true) ∨ time < maxUtc) := by
  cases found : ((messages.filter inFlight).map Message.createdAt).min? with
  | none =>
      have calm : ∀ message ∈ messages, ¬inFlight message = true := by
        simpa using List.min?_eq_none_iff.mp found
      simp only [firstInFlight, found, Option.getD_none]
      constructor
      · intro before
        exact ⟨fun message member busy => absurd busy (calm message member), Or.inr before⟩
      · rintro ⟨_, busy | before⟩
        · obtain ⟨message, member, busy⟩ := busy
          exact absurd busy (calm message member)
        · exact before
  | some first =>
      obtain ⟨member, least⟩ := List.min?_eq_some_iff.mp found
      obtain ⟨message, busy, rfl⟩ := List.mem_map.mp member
      simp only [firstInFlight, found, Option.getD_some]
      constructor
      · intro before
        refine ⟨?_, Or.inl ⟨message, List.mem_of_mem_filter busy, (List.mem_filter.mp busy).2⟩⟩
        intro other present flying
        have := least other.createdAt (List.mem_map.mpr ⟨other, List.mem_filter.mpr ⟨present, flying⟩, rfl⟩)
        omega
      · rintro ⟨every, _⟩
        exact every message (List.mem_of_mem_filter busy) (List.mem_filter.mp busy).2

end InFlight

structure ChatState where
  history : List Message
  watermark : Option Nat
  -- The windows that were handed to the extractor and committed.
  committed : List (List Message)
  pending : List ConsolidationWindow

namespace ChatState

def fresh : ChatState where
  history := []
  watermark := none
  committed := []
  pending := []

def mark (state : ChatState) : Nat := state.watermark.getD minUtc

end ChatState

inductive ChatAction where
  | append (message : Message)
  -- A message in flight is written on, or comes to its end.
  | settle (id : Text) (status : MessageStatus) (content : Text)
  | prepare (maxTokens maxMessages : Nat) (toolCalls : List TurnCall) (remembered : Bool)
  | commit
  | stop

def settled (id : Text) (status : MessageStatus) (content : Text) (message : Message) : Message :=
  if message.id = id ∧ inFlight message then { message with status := some status, content }
  else message

section Step

variable (redact : Text → Text)

-- Without messages, a window is made for what was remembered in the chat.
def preparedWindows (state : ChatState) (maxTokens maxMessages : Nat) (toolCalls : List TurnCall)
    (remembered : Bool) : List ConsolidationWindow :=
  let windows := consolidationWindows redact state.history state.mark maxTokens maxMessages toolCalls
  if windows = [] ∧ remembered then [([], none)] else windows

def chatStep : ChatAction → ChatState → Option ChatState
  | .append message, state =>
      if message.createdAt ≤ maxUtc ∧
          ∀ earlier ∈ state.history, earlier.createdAt ≤ message.createdAt then
        some { state with history := state.history ++ [message] }
      else none
  | .settle id status content, state =>
      some { state with history := state.history.map (settled id status content) }
  | .prepare maxTokens maxMessages toolCalls remembered, state =>
      if state.pending = [] then
        some { state with
          pending := preparedWindows redact state maxTokens maxMessages toolCalls remembered }
      else none
  | .commit, state =>
      match state.pending with
      | [] => none
      | (window, advance) :: rest =>
          some { state with
            watermark := advance.or state.watermark
            committed := state.committed ++ [window]
            pending := rest }
  | .stop, state => some { state with pending := [] }

end Step

/-- No message stands at the time of the watermark but those of a committed window. -/
def Untied : ChatAction → ChatState → Prop
  | .append message, state => state.mark < message.createdAt
  | .commit, state =>
      match state.pending with
      | (window, some advance) :: _ =>
          (state.history.filter fun message => message.createdAt = advance) =
            window.filter fun message => message.createdAt = advance
      | _ => True
  | _, _ => True

/-- What is promised of a chat while it is mined. -/
structure Extracted (redact : Text → Text) (state : ChatState) : Prop where
  -- Each message up to the watermark is in one committed window, and they are in order.
  inOrder : state.committed.flatten =
    state.history.filter fun message => message.createdAt ≤ state.mark
  fits : ∀ maxTokens maxMessages toolCalls, ∀ window ∈
    consolidationWindows redact state.history state.mark maxTokens maxMessages toolCalls,
      Fits (max maxTokens 1) (max maxMessages 1) (messageTokens redact toolCalls) window.1
  -- A sweep that is not stopped hands over every eligible message, and leaves none.
  drains : ∀ maxTokens maxMessages toolCalls remembered after,
    let sweep := .prepare maxTokens maxMessages toolCalls remembered ::
      List.replicate (preparedWindows redact state maxTokens maxMessages toolCalls remembered).length
        .commit
    Machine.Guarded (chatStep redact) Untied sweep state →
      Machine.run (chatStep redact) sweep state = some after →
        after.committed.flatten = state.committed.flatten ++ eligible state.history state.mark ∧
          eligible after.history after.mark = []
  -- With none left, the committed windows hold every message that was ever eligible.
  drained : eligible state.history state.mark = [] →
    state.committed.flatten = eligible state.history minUtc

structure Accounted (state : ChatState) : Prop where
  dated : ∀ message ∈ state.history, minUtc < message.createdAt ∧ message.createdAt ≤ maxUtc
  sorted : state.history.Pairwise fun earlier later => earlier.createdAt ≤ later.createdAt
  done : state.committed.flatten =
    state.history.filter fun message => message.createdAt ≤ state.mark
  pending : ∃ rest, (state.history.filter fun message => state.mark < message.createdAt) =
    state.pending.flatMap Prod.fst ++ rest
  advances : ∀ window ∈ state.pending, window.2 = advanceTo window.1
  quiet : ∀ message ∈ state.committed.flatten ++ state.pending.flatMap Prod.fst,
    inFlight message = false ∧ message.createdAt < maxUtc

theorem accounted_fresh : Accounted ChatState.fresh where
  dated := by simp [ChatState.fresh]
  sorted := by simp [ChatState.fresh]
  done := by simp [ChatState.fresh]
  pending := by simp [ChatState.fresh]
  advances := by simp [ChatState.fresh]
  quiet := by simp [ChatState.fresh]

theorem settled_createdAt (id : Text) (status : MessageStatus) (content : Text)
    (message : Message) : (settled id status content message).createdAt = message.createdAt := by
  unfold settled
  split <;> rfl

theorem settled_quiet (id : Text) (status : MessageStatus) (content : Text)
    (messages : List Message) (quiet : ∀ message ∈ messages, inFlight message = false) :
    messages.map (settled id status content) = messages := by
  have same : ∀ message ∈ messages, settled id status content message = message := by
    intro message member
    simp [settled, quiet message member]
  simpa using List.map_congr_left same

theorem preparedWindows_messages (redact : Text → Text) (state : ChatState)
    (maxTokens maxMessages : Nat) (toolCalls : List TurnCall) (remembered : Bool) :
    (preparedWindows redact state maxTokens maxMessages toolCalls remembered).flatMap Prod.fst =
      eligible state.history state.mark := by
  have whole := consolidationWindows_messages redact state.history state.mark maxTokens maxMessages
    toolCalls
  simp only [preparedWindows]
  split
  next none =>
    rw [none.1] at whole
    simpa using whole
  next => exact whole

-- What is eligible is what stands first among the messages after the watermark.
theorem eligible_eq (messages : List Message) (mark : Nat) :
    eligible messages mark = (messages.filter fun message => mark < message.createdAt).filter
      fun message => message.createdAt < firstInFlight messages := by
  rw [eligible, List.filter_filter]
  apply List.filter_congr
  intro message member
  by_cases before : message.createdAt < firstInFlight messages
  · have calm : inFlight message = false := by
      by_contra busy
      have := ((lt_firstInFlight messages _).mp before).1 message member (by simpa using busy)
      omega
    simp [isEligible, before, calm]
  · simp [isEligible, before]

section Steps

variable (redact : Text → Text) (state next : ChatState) (accounted : Accounted state)

include accounted

theorem append_accounted (message : Message) (later : state.mark < message.createdAt)
    (taken : chatStep redact (.append message) state = some next) : Accounted next := by
  simp only [chatStep] at taken
  split at taken
  next valid =>
    obtain rfl := Option.some.inj taken
    constructor
    · intro other member
      cases List.mem_append.mp member with
      | inl present => exact accounted.dated other present
      | inr new =>
          rw [List.mem_singleton.mp new]
          exact ⟨Nat.lt_of_le_of_lt (Nat.zero_le _) later, valid.1⟩
    · refine List.pairwise_append.mpr ⟨accounted.sorted, by simp, ?_⟩
      intro earlier member other new
      rw [List.mem_singleton.mp new]
      exact valid.2 earlier member
    · have unmarked : ¬message.createdAt ≤ state.mark := Nat.not_le.mpr later
      change state.committed.flatten =
        (state.history ++ [message]).filter fun other => other.createdAt ≤ state.mark
      rw [List.filter_append, accounted.done]
      simp [unmarked]
    · obtain ⟨rest, split⟩ := accounted.pending
      refine ⟨rest ++ [message], ?_⟩
      change (state.history ++ [message]).filter (fun other => state.mark < other.createdAt) = _
      have marked : state.mark < message.createdAt := later
      rw [List.filter_append, split]
      simp [marked]
    · exact accounted.advances
    · exact accounted.quiet
  next => simp at taken

theorem settle_accounted (id : Text) (status : MessageStatus) (content : Text)
    (taken : chatStep redact (.settle id status content) state = some next) : Accounted next := by
  obtain rfl := Option.some.inj taken
  have keeps (p : Nat → Bool) : ((state.history.map (settled id status content)).filter fun other =>
      p other.createdAt) =
      (state.history.filter fun other => p other.createdAt).map (settled id status content) := by
    rw [List.filter_map]
    congr 1
    apply List.filter_congr
    intro message _
    rw [Function.comp, settled_createdAt]
  have quiet := fun message member => (accounted.quiet message member).1
  constructor
  · intro other member
    obtain ⟨message, present, rfl⟩ := List.mem_map.mp member
    rw [settled_createdAt]
    exact accounted.dated message present
  · refine List.pairwise_map.mpr (accounted.sorted.imp ?_)
    intro earlier later order
    simpa [settled_createdAt] using order
  · change state.committed.flatten = ((state.history.map (settled id status content)).filter
      fun other => other.createdAt ≤ state.mark)
    rw [keeps fun time => time ≤ state.mark, ← accounted.done, settled_quiet]
    exact fun message member => quiet message (List.mem_append_left _ member)
  · obtain ⟨rest, split⟩ := accounted.pending
    refine ⟨rest.map (settled id status content), ?_⟩
    change ((state.history.map (settled id status content)).filter
      fun other => state.mark < other.createdAt) = _
    rw [keeps fun time => state.mark < time, split, List.map_append, settled_quiet]
    exact fun message member => quiet message (List.mem_append_right _ member)
  · exact accounted.advances
  · exact accounted.quiet

theorem prepare_accounted (maxTokens maxMessages : Nat) (toolCalls : List TurnCall)
    (remembered : Bool)
    (taken : chatStep redact (.prepare maxTokens maxMessages toolCalls remembered) state =
      some next) : Accounted next := by
  simp only [chatStep] at taken
  split at taken
  next =>
    obtain rfl := Option.some.inj taken
    have messages := preparedWindows_messages redact state maxTokens maxMessages toolCalls remembered
    constructor
    · exact accounted.dated
    · exact accounted.sorted
    · exact accounted.done
    · refine ⟨(state.history.filter fun message => state.mark < message.createdAt).filter
        fun message => firstInFlight state.history ≤ message.createdAt, ?_⟩
      change (state.history.filter fun message => state.mark < message.createdAt) = _
      have split := filter_before_append Message.createdAt _
        (accounted.sorted.sublist (List.filter_sublist (p := fun message =>
          decide (state.mark < message.createdAt)))) (firstInFlight state.history)
      rw [messages, eligible_eq, split]
    · intro window member
      simp only [preparedWindows] at member
      split at member
      · rw [List.mem_singleton.mp member]
        rfl
      · exact (consolidationWindows_fits redact _ _ _ _ _ window member).2.1
    · intro message member
      cases List.mem_append.mp member with
      | inl old => exact accounted.quiet message (List.mem_append_left _ old)
      | inr new =>
          change message ∈ (preparedWindows redact state _ _ _ _).flatMap Prod.fst at new
          rw [messages] at new
          obtain ⟨present, holds⟩ := List.mem_filter.mp new
          simp only [isEligible, Bool.and_eq_true, decide_eq_true_eq, Bool.not_eq_true'] at holds
          refine ⟨holds.2, ?_⟩
          obtain ⟨every, busy | before⟩ := (lt_firstInFlight _ _).mp holds.1.2
          · obtain ⟨other, flying, busy⟩ := busy
            have := every other flying busy
            have := (accounted.dated other flying).2
            omega
          · exact before
  next => simp at taken

theorem commit_accounted (untied : Untied .commit state)
    (taken : chatStep redact .commit state = some next) : Accounted next := by
  simp only [chatStep] at taken
  cases windows : state.pending with
  | nil => simp [windows] at taken
  | cons first rest =>
      obtain ⟨window, advance⟩ := first
      rw [windows] at taken
      obtain rfl := Option.some.inj taken
      obtain ⟨tail, split⟩ := accounted.pending
      have advanced : advance = advanceTo window :=
        accounted.advances (window, advance) (by simp [windows])
      rw [windows, List.flatMap_cons, List.append_assoc] at split
      have quiet : ∀ message ∈ state.committed.flatten ++ (window ++ rest.flatMap Prod.fst),
          inFlight message = false ∧ message.createdAt < maxUtc := by
        simpa [windows] using accounted.quiet
      have advances := fun later (member : later ∈ rest) =>
        accounted.advances later (by simp [windows, member])
      cases advance with
      | none =>
          obtain rfl : window = [] := by simpa [advanceTo] using advanced.symm
          constructor
          · exact accounted.dated
          · exact accounted.sorted
          · change (state.committed ++ [[]]).flatten =
              state.history.filter fun message => message.createdAt ≤ state.mark
            simpa using accounted.done
          · refine ⟨tail, ?_⟩
            change (state.history.filter fun message => state.mark < message.createdAt) = _
            simpa using split
          · exact advances
          · simpa using quiet
      | some last =>
          obtain ⟨inside, greatest⟩ := List.max?_eq_some_iff.mp advanced.symm
          have upper : ∀ message ∈ window, message.createdAt ≤ last := fun message member =>
            greatest _ (List.mem_map.mpr ⟨message, member, rfl⟩)
          obtain ⟨latest, present, rfl⟩ := List.mem_map.mp inside
          have found : latest ∈ state.history.filter fun message => state.mark < message.createdAt := by
            rw [split]
            exact List.mem_append_left _ present
          have past : state.mark < latest.createdAt := by simpa using (List.mem_filter.mp found).2
          have ordered := accounted.sorted.sublist (List.filter_sublist (p := fun message =>
            decide (state.mark < message.createdAt)))
          rw [split] at ordered
          -- No later message has the time of the window's last one.
          have tied : ((rest.flatMap Prod.fst ++ tail).filter
              fun message => message.createdAt = latest.createdAt) = [] := by
            have same : (state.history.filter fun message => message.createdAt = latest.createdAt) =
                window.filter fun message => message.createdAt = latest.createdAt := by
              simpa [Untied, windows] using untied
            have after : (state.history.filter fun message => message.createdAt = latest.createdAt) =
                (state.history.filter fun message => state.mark < message.createdAt).filter
                  fun message => message.createdAt = latest.createdAt := by
              rw [List.filter_filter]
              apply List.filter_congr
              intro message _
              by_cases equal : message.createdAt = latest.createdAt <;> simp [equal, past]
            rw [after, split, List.filter_append] at same
            simpa using same
          have beyond : ∀ message ∈ rest.flatMap Prod.fst ++ tail,
              latest.createdAt < message.createdAt := by
            intro message member
            have order := (List.pairwise_append.mp ordered).2.2 latest present message member
            have distinct : message.createdAt ≠ latest.createdAt := by
              simpa using List.filter_eq_nil_iff.mp tied message member
            omega
          have halves := filter_before_append Message.createdAt state.history accounted.sorted
            (state.mark + 1)
          simp only [Nat.lt_add_one_iff, Nat.add_one_le_iff, split] at halves
          have low : ∀ message ∈ state.history.filter fun message => message.createdAt ≤ state.mark,
              message.createdAt ≤ latest.createdAt := by
            intro message member
            have : message.createdAt ≤ state.mark := by simpa using (List.mem_filter.mp member).2
            omega
          constructor
          · exact accounted.dated
          · exact accounted.sorted
          · change (state.committed ++ [window]).flatten =
              state.history.filter fun message => message.createdAt ≤ latest.createdAt
            have none : (rest.flatMap Prod.fst ++ tail).filter
                (fun message => message.createdAt ≤ latest.createdAt) = [] :=
              List.filter_eq_nil_iff.mpr fun message member => by simpa using beyond message member
            have all : window.filter (fun message => message.createdAt ≤ latest.createdAt) = window :=
              List.filter_eq_self.mpr fun message member => by simpa using upper message member
            have old : (state.history.filter fun message => message.createdAt ≤ state.mark).filter
                (fun message => message.createdAt ≤ latest.createdAt) =
                  state.history.filter fun message => message.createdAt ≤ state.mark :=
              List.filter_eq_self.mpr fun message member => by simpa using low message member
            rw [← halves, List.filter_append, List.filter_append, none, all, old, ← accounted.done]
            simp
          · refine ⟨tail, ?_⟩
            change (state.history.filter fun message => latest.createdAt < message.createdAt) = _
            have all : (rest.flatMap Prod.fst ++ tail).filter
                (fun message => latest.createdAt < message.createdAt) = rest.flatMap Prod.fst ++ tail :=
              List.filter_eq_self.mpr fun message member => by simpa using beyond message member
            have none : window.filter (fun message => latest.createdAt < message.createdAt) = [] :=
              List.filter_eq_nil_iff.mpr fun message member => by simpa using upper message member
            have old : (state.history.filter fun message => message.createdAt ≤ state.mark).filter
                (fun message => latest.createdAt < message.createdAt) = [] :=
              List.filter_eq_nil_iff.mpr fun message member => by simpa using low message member
            rw [← halves, List.filter_append, List.filter_append, all, none, old]
            simp
          · exact advances
          · simpa using quiet

theorem stop_accounted (taken : chatStep redact .stop state = some next) : Accounted next := by
  obtain rfl := Option.some.inj taken
  constructor
  · exact accounted.dated
  · exact accounted.sorted
  · exact accounted.done
  · exact ⟨_, rfl⟩
  · simp
  · intro message member
    exact accounted.quiet message (List.mem_append_left _ (by simpa using member))

theorem chatStep_accounted (action : ChatAction) (untied : Untied action state)
    (taken : chatStep redact action state = some next) : Accounted next := by
  cases action with
  | append message => exact append_accounted redact state next accounted message untied taken
  | settle id status content =>
      exact settle_accounted redact state next accounted id status content taken
  | prepare maxTokens maxMessages toolCalls remembered =>
      exact prepare_accounted redact state next accounted maxTokens maxMessages toolCalls remembered
        taken
  | commit => exact commit_accounted redact state next accounted untied taken
  | stop => exact stop_accounted redact state next accounted taken

theorem accounted_drained (none : eligible state.history state.mark = []) :
    state.committed.flatten = eligible state.history minUtc := by
  rw [accounted.done]
  apply List.filter_congr
  intro message member
  have calm (other : Message) (present : other ∈ state.history) (old : other.createdAt ≤ state.mark) :
      inFlight other = false ∧ other.createdAt < maxUtc := by
    apply accounted.quiet other (List.mem_append_left _ _)
    rw [accounted.done]
    simp [present, old]
  by_cases old : message.createdAt ≤ state.mark
  · have before : message.createdAt < firstInFlight state.history := by
      refine (lt_firstInFlight _ _).mpr ⟨?_, Or.inr (calm message member old).2⟩
      intro other present busy
      by_contra later
      have := (calm other present (by omega)).1
      simp [busy] at this
    have dated := (accounted.dated message member).1
    simp [isEligible, old, before, dated, (calm message member old).1]
  · have unfit := List.filter_eq_nil_iff.mp none message member
    have late : state.mark < message.createdAt := by omega
    have dated := (accounted.dated message member).1
    simp only [isEligible, late, dated, decide_true, Bool.true_and] at unfit ⊢
    simp [old, unfit]

end Steps

section Sweeps

variable (redact : Text → Text)

-- The windows of a sweep, committed one after the other.
theorem run_commits (windows : List ConsolidationWindow) (state : ChatState)
    (pending : state.pending = windows) :
    ∃ after, Machine.run (chatStep redact) (List.replicate windows.length .commit) state = some after ∧
      after.history = state.history ∧
        after.committed.flatten = state.committed.flatten ++ windows.flatMap Prod.fst := by
  induction windows generalizing state with
  | nil => exact ⟨state, rfl, rfl, by simp⟩
  | cons window rest ih =>
      obtain ⟨messages, advance⟩ := window
      obtain ⟨after, reached, history, committed⟩ := ih
        { state with
          watermark := advance.or state.watermark
          committed := state.committed ++ [messages]
          pending := rest } rfl
      refine ⟨after, ?_, history, ?_⟩
      · simp only [List.length_cons, List.replicate_succ, Machine.run, chatStep, pending]
        exact reached
      · rw [committed]
        simp

end Sweeps

/--
In every run whose watermark never comes to stand at the time of a message outside of the committed
windows, each message up to the watermark was handed over once and in order, and none is skipped.
-/
theorem extracted_run (redact : Text → Text) (actions : List ChatAction) (last : ChatState)
    (guarded : Machine.Guarded (chatStep redact) Untied actions ChatState.fresh)
    (reached : Machine.run (chatStep redact) actions ChatState.fresh = some last) :
    Extracted redact last := by
  have preserved := fun action state next (holds : Accounted state) (untied : Untied action state)
    (taken : chatStep redact action state = some next) =>
      chatStep_accounted redact state next holds action untied taken
  have accounted : Accounted last := Machine.invariant_run (chatStep redact) Untied Accounted
    preserved actions ChatState.fresh last accounted_fresh guarded reached
  constructor
  · exact accounted.done
  · intro maxTokens maxMessages toolCalls window member
    exact (consolidationWindows_fits redact _ _ _ _ _ window member).2.2
  · intro maxTokens maxMessages toolCalls remembered after sweep untied swept
    have settled : Accounted after := Machine.invariant_run (chatStep redact) Untied Accounted
      preserved sweep last after accounted untied swept
    have messages := preparedWindows_messages redact last maxTokens maxMessages toolCalls remembered
    by_cases idle : last.pending = []
    · obtain ⟨after', reached', history, committed⟩ := run_commits redact
        (preparedWindows redact last maxTokens maxMessages toolCalls remembered)
        { last with pending :=
            preparedWindows redact last maxTokens maxMessages toolCalls remembered } rfl
      obtain rfl : after' = after := by
        simp only [sweep, Machine.run, chatStep, idle, if_true] at swept
        exact Option.some.inj (reached'.symm.trans swept)
      rw [messages] at committed
      refine ⟨committed, ?_⟩
      rw [eligible_eq, List.filter_eq_nil_iff]
      intro message member before
      simp only [List.mem_filter, decide_eq_true_eq] at member before
      -- It was eligible before the sweep, or lay before the watermark: either way it is committed.
      have held : message ∈ after'.committed.flatten := by
        rw [committed]
        change after'.history = last.history at history
        rw [history] at member before
        by_cases old : message.createdAt ≤ last.mark
        · refine List.mem_append_left _ ?_
          rw [accounted.done]
          simp [member.1, old]
        · refine List.mem_append_right _ ?_
          rw [eligible_eq]
          simp only [List.mem_filter, decide_eq_true_eq]
          exact ⟨⟨member.1, by omega⟩, before⟩
      rw [settled.done] at held
      have : message.createdAt ≤ after'.mark := by simpa using (List.mem_filter.mp held).2
      omega
    · simp [sweep, Machine.run, chatStep, idle] at swept
  · exact accounted_drained last accounted

section Runs

def note (id : Text) (createdAt : Nat) : Message where
  id := id
  role := .user
  content := "Hello".toList
  createdAt := createdAt

def first : Message := note ['a'] 5

def second : Message := note ['b'] 7

def twin : Message := note ['b'] 5

def sweepByOne : List ChatAction := [.prepare 1000 1 [] false, .commit, .stop]

def afterFirst (later : Message) : ChatState where
  history := [first, later]
  watermark := some 5
  committed := [[first]]
  pending := []

theorem sweep_first :
    Machine.run (chatStep id) (.append first :: .append second :: sweepByOne) ChatState.fresh =
      some (afterFirst second) := rfl

theorem sweep_twin :
    Machine.run (chatStep id) (.append first :: .append twin :: sweepByOne) ChatState.fresh =
      some (afterFirst twin) := rfl

theorem first_extracted : Extracted id (afterFirst second) := by
  refine extracted_run id (.append first :: .append second :: sweepByOne) (afterFirst second) ?_
    sweep_first
  exact ⟨(by decide : minUtc < 5), (by decide : minUtc < 7), trivial, rfl, trivial, trivial⟩

theorem twin_skipped :
    ¬∀ (redact : Text → Text) (actions : List ChatAction) (last : ChatState),
        Machine.run (chatStep redact) actions ChatState.fresh = some last → Extracted redact last := by
  intro claimed
  have extracted := claimed id _ (afterFirst twin) sweep_twin
  have none : eligible (afterFirst twin).history (afterFirst twin).mark = [] := rfl
  have lengths := congrArg List.length (extracted.drained none)
  have both : (eligible (afterFirst twin).history minUtc).length = 2 := rfl
  rw [both] at lengths
  exact absurd lengths (by decide)

end Runs

end Frona.Pkm
