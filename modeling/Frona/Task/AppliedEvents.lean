import Frona.Chat.Message
import Frona.Machine.Lists
import Frona.Machine.Run
import Frona.Task.Rows

set_option autoImplicit false

namespace Frona.AppliedEvents

open Utf8 (Text)
open Frona.Chat (MessageRole)
open Frona.Task (TaskStatus Row Mark)

inductive MessageEvent where
  | taskCompletion (status : TaskStatus) (summary : Option Text)
  | taskMatch (attemptIndex : UInt32) (summary : Text)
  | taskDeferred (delayMinutes : UInt32) (reason : Text)

structure Message where
  role : MessageRole
  content : Text
  event : Option MessageEvent

inductive TaskEvent where
  | completion (status : TaskStatus) (summary : Option Text) (deliverables : List Text)
  | deferred (delayMinutes : UInt32) (reason : Text)

inductive LifecycleAction where
  | complete (status : TaskStatus) (summary : Option Text) (attachments : List Text)
  | defer (delayMinutes : UInt32) (reason : Text)
  deriving DecidableEq

def loadDeliverables (toolCalls : List (Option TaskEvent)) : List Text :=
  (toolCalls.reverse.findSome? fun taskEvent => match taskEvent with
    | some (.completion _ _ deliverables) => if deliverables = [] then none else some deliverables
    | _ => none).getD []

def actionOf (deliverables : List Text) (message : Message) : Option LifecycleAction :=
  if message.role ≠ .system then none
  else match message.event with
    | some (.taskCompletion status summary) => some (.complete status summary deliverables)
    | some (.taskDeferred delayMinutes reason) => some (.defer delayMinutes reason)
    | _ => none

def findFrom (deliverables : List Text) : List Message → Option (Nat × LifecycleAction)
  | [] => none
  | message :: older =>
      match actionOf deliverables message with
      | some action => some (older.length, action)
      | none => findFrom deliverables older

def findLifecycleEvent (messages : Option (List Message))
    (toolCalls : Option (List (Option TaskEvent))) : Option (Nat × LifecycleAction) :=
  match messages with
  | some messages => findFrom (loadDeliverables (toolCalls.getD [])) messages.reverse
  | none => none

def lifecycleActionFromEvent : TaskEvent → LifecycleAction
  | .completion status summary deliverables => .complete status summary deliverables
  | .deferred delayMinutes reason => .defer delayMinutes reason

/-- What `handle_lifecycle_action` writes; times are in seconds. -/
def LifecycleAction.mark (now : Nat) : LifecycleAction → Option Mark
  | complete .completed summary _ => some (.completed summary)
  | complete .failed summary _ => some (.failed (summary.getD []))
  | complete _ _ _ => none
  | defer delayMinutes _ => some (.deferred (now + 60 * delayMinutes.toNat))

inductive Phase where
  | idle
  -- The loop of `execute_task`: before the look at the chat, in a turn, and after it
  | looking (turn : Nat)
  | turning (turn : Nat)
  | checking (turn : Nat)
  -- The turn of `run_with_injected_message`, and after it
  | injected
  | settling
  | acting (source : Option Nat) (action : LifecycleAction)
  deriving DecidableEq

inductive TurnEnd where
  | completed (lifecycleEvent : Option TaskEvent)
  | externalToolPending
  | cancelled
  | handled
  | error (text : Text)

inductive Entry where
  | turn
  | applied (source : Option Nat) (action : LifecycleAction)

structure World where
  row : Row
  now : Nat
  messages : List Message
  toolCalls : List (Option TaskEvent)
  phase : Phase
  -- What has been done. No step reads it.
  history : List Entry

inductive Event where
  | pass (seconds : Nat)
  -- Anybody writes to the chat; `save_system_event` has no caller.
  | store (message : Message)
  | callTool (taskEvent : Option TaskEvent)
  | executeTask (chatId description : Text)
  | runWithInjectedMessage (systemMessage : Text)
  | look (chatRead callsRead : Bool)
  | endTurn (turnEnd : TurnEnd)
  | act
  -- A crash, or a call of a service that fails
  | stop

def maxTaskRetries : Nat := 10

def autoCompleted : Text := "Task auto-completed after max retries".toList

section Steps

variable (world : World)

def World.found (chatRead callsRead : Bool) : Option (Nat × LifecycleAction) :=
  findLifecycleEvent (if chatRead then some world.messages else none)
    (if callsRead then some world.toolCalls else none)

def World.turn (phase : Phase) : World :=
  { world with phase := phase, history := world.history ++ [.turn] }

def World.finish (mark : Mark) : World :=
  { world with row := mark.apply world.row, phase := .idle }

def World.start (chatId description : Text) : World :=
  if world.row.status = .cancelled then world
  else
    { world with
      row := (Mark.inProgress (some chatId)).apply world.row
      -- `save_initial_message_if_needed`
      messages := if world.messages = [] then [⟨.agent, description, none⟩] else world.messages
      phase := .looking 0 }

def World.look : Option (Nat × LifecycleAction) → Option World
  | some (source, action) => match world.phase with
      | .looking _ | .checking _ | .settling =>
          some { world with phase := .acting (some source) action }
      | _ => none
  | none => match world.phase with
      | .looking turn => some (world.turn (.turning turn))
      | .checking turn =>
          some (if turn + 1 = maxTaskRetries then world.finish (.completed (some autoCompleted))
            else { world with phase := .looking (turn + 1) })
      | .settling => some { world with phase := .idle }
      | _ => none

def World.endTurn (turnEnd : TurnEnd) : Option World :=
  match world.phase, turnEnd with
  | .turning _, .completed (some event) | .injected, .completed (some event) =>
      some { world with phase := .acting none (lifecycleActionFromEvent event) }
  | .turning turn, .completed none | .turning turn, .handled =>
      some { world with phase := .checking turn }
  | .turning _, .externalToolPending => some { world with phase := .idle }
  | .turning _, .cancelled => some (world.finish .cancelled)
  | .turning _, .error text =>
      some (world.finish (.failed ("Task execution error: ".toList ++ text)))
  | .injected, .error _ => some { world with phase := .idle }
  | .injected, _ => some { world with phase := .settling }
  | _, _ => none

def World.act : Option World :=
  match world.phase with
  | .acting source action => match action.mark world.now with
      | some mark => some
          { world.finish mark with
            history := world.history ++ [.applied source action] }
      | none => some { world with phase := .idle }
  | _ => none

end Steps

def step : Event → World → Option World
  | .pass seconds, world => some { world with now := world.now + seconds }
  | .store message, world =>
      if message.role = .system ∧ message.event ≠ none then none
      else some { world with messages := world.messages ++ [message] }
  | .callTool taskEvent, world => some { world with toolCalls := world.toolCalls ++ [taskEvent] }
  | .executeTask chatId description, world =>
      if world.phase = .idle then some (world.start chatId description) else none
  | .runWithInjectedMessage systemMessage, world =>
      if world.phase = .idle then
        some (World.turn { world with
          messages := world.messages ++ [⟨.system, systemMessage, none⟩] } .injected)
      else none
  | .look chatRead callsRead, world => world.look (world.found chatRead callsRead)
  | .endTurn turnEnd, world => world.endTurn turnEnd
  | .act, world => world.act
  | .stop, world => some { world with phase := .idle }

def start (row : Row) (messages : List Message) (toolCalls : List (Option TaskEvent)) : World :=
  ⟨row, 0, messages, toolCalls, .idle, []⟩

section Properties

def Entry.source : Entry → Option Nat
  | turn => none
  | applied source _ => source

def AppliedOnce (history : List Entry) : Prop := (history.filterMap Entry.source).Nodup

def Waiting (history : List Entry) : Prop :=
  ∃ before source delayMinutes reason since,
    history = before ++ .applied source (.defer delayMinutes reason) :: since ∧ .turn ∉ since

def TurnsBetween (history : List Entry) : Prop :=
  ∀ before source delayMinutes reason after,
    history = before ++ .applied source (.defer delayMinutes reason) :: after → ¬Waiting before

def Message.IsLifecycle (message : Message) : Prop := (actionOf [] message).isSome

instance (message : Message) : Decidable message.IsLifecycle :=
  inferInstanceAs (Decidable (_ = true))

def Message.Acts (message : Message) : Prop :=
  ∃ action, actionOf [] message = some action ∧ (action.mark 0).isSome

def Phase.inTurn : Phase → Bool
  | turning _ | injected => true
  | _ => false

/-- The newest lifecycle event, if there is one, does nothing. -/
def Inert (messages : List Message) : Prop :=
  ∀ older message newer, messages = older ++ message :: newer →
    (∀ later ∈ newer, ¬later.IsLifecycle) → ¬message.Acts

/-- In every run every event is applied once, and a turn comes between two deferrals. -/
def AppliesOnce (row : Row) (messages : List Message) (toolCalls : List (Option TaskEvent)) :
    Prop :=
  ∀ events last, Machine.run step events (start row messages toolCalls) = some last →
    AppliedOnce last.history ∧ TurnsBetween last.history

end Properties

section Finding

variable {deliverables : List Text} {message : Message} {action : LifecycleAction}

theorem mark_isSome (now : Nat) : (action.mark now).isSome = (action.mark 0).isSome := by
  cases action with
  | complete status summary attachments => cases status <;> rfl
  | defer delayMinutes reason => rfl

theorem actionOf_none : actionOf deliverables message = none ↔ ¬message.IsLifecycle := by
  unfold Message.IsLifecycle actionOf
  split
  next => simp
  next => split <;> simp

theorem actionOf_acts (found : actionOf deliverables message = some action)
    (acts : (action.mark 0).isSome) : message.Acts := by
  unfold Message.Acts
  unfold actionOf at found ⊢
  split at found
  next => cases found
  next system =>
    rw [if_neg system]
    split at found
    next status summary same =>
      obtain rfl := Option.some.inj found
      refine ⟨.complete status summary [], rfl, ?_⟩
      cases status <;> exact acts
    next delayMinutes reason same =>
      obtain rfl := Option.some.inj found
      exact ⟨_, rfl, acts⟩
    next => cases found

theorem findFrom_newest {newer : List Message} (older : List Message)
    (same : actionOf deliverables message = some action)
    (plain : ∀ later ∈ newer, ¬later.IsLifecycle) :
    findFrom deliverables (newer ++ message :: older) = some (older.length, action) := by
  induction newer with
  | nil => rw [List.nil_append, findFrom, same]
  | cons later newer ih =>
      rw [List.cons_append, findFrom, actionOf_none.mpr (plain later List.mem_cons_self)]
      exact ih fun other member => plain other (List.mem_cons_of_mem later member)

theorem findFrom_cases {newestFirst : List Message} {source : Nat}
    (found : findFrom deliverables newestFirst = some (source, action)) :
    ∃ newer message older, newestFirst = newer ++ message :: older ∧ older.length = source ∧
      actionOf deliverables message = some action ∧ ∀ later ∈ newer, ¬later.IsLifecycle := by
  induction newestFirst with
  | nil => cases found
  | cons message older ih =>
      rw [findFrom] at found
      split at found
      next here =>
        obtain ⟨rfl, rfl⟩ := Prod.mk.inj (Option.some.inj found)
        exact ⟨[], message, older, rfl, rfl, here, by simp⟩
      next missing =>
        obtain ⟨newer, first, rest, rfl, place, same, plain⟩ := ih found
        refine ⟨message :: newer, first, rest, rfl, place, same, fun later member => ?_⟩
        rcases List.mem_cons.mp member with rfl | member
        · exact actionOf_none.mp missing
        · exact plain later member

theorem Message.Acts.isLifecycle (acts : message.Acts) : message.IsLifecycle := by
  obtain ⟨action, same, -⟩ := acts
  rw [Message.IsLifecycle, same]
  rfl

theorem Message.Acts.with (acts : message.Acts) (deliverables : List Text) :
    ∃ action, actionOf deliverables message = some action ∧ (action.mark 0).isSome := by
  obtain ⟨action, same, acts⟩ := acts
  unfold actionOf at same ⊢
  split at same
  next => cases same
  next system =>
    rw [if_neg system]
    split at same
    next status summary _ =>
      obtain rfl := Option.some.inj same
      refine ⟨.complete status summary deliverables, rfl, ?_⟩
      cases status <;> exact acts
    next =>
      obtain rfl := Option.some.inj same
      exact ⟨_, rfl, acts⟩
    next => cases same

theorem Inert.snoc {messages : List Message} (inert : Inert messages)
    (plain : ¬message.IsLifecycle) : Inert (messages ++ [message]) := by
  intro older other newer whole after acts
  rcases Machine.split_concat whole with ⟨-, rfl, -⟩ | ⟨rest, rfl, split⟩
  · exact plain acts.isLifecycle
  · exact inert older other rest split (fun later member =>
      after later (List.mem_append_left _ member)) acts

theorem Inert.found {world : World} (inert : Inert world.messages) {chatRead callsRead : Bool}
    {source : Nat} (found : world.found chatRead callsRead = some (source, action)) :
    (action.mark 0).isSome = false := by
  cases chatRead with
  | false => cases found
  | true =>
      obtain ⟨newer, message, older, whole, -, same, plain⟩ := findFrom_cases found
      refine Bool.eq_false_of_not_eq_true fun acts => ?_
      have split : world.messages = older.reverse ++ message :: newer.reverse := by
        simpa using congrArg List.reverse whole
      exact inert _ _ _ split (fun later member => plain later (List.mem_reverse.mp member))
        (actionOf_acts same acts)

end Finding

section Histories

variable {history : List Entry} {entry : Entry}

theorem not_waiting_turn : ¬Waiting (history ++ [.turn]) := by
  rintro ⟨before, source, delayMinutes, reason, since, whole, none⟩
  rcases Machine.split_concat whole with ⟨-, differs, -⟩ | ⟨rest, rfl, -⟩
  · cases differs
  · exact none (List.mem_append_right _ (List.mem_singleton.mpr rfl))

theorem turnsBetween_append : TurnsBetween (history ++ [entry]) ↔ TurnsBetween history ∧
    ∀ source delayMinutes reason, entry = .applied source (.defer delayMinutes reason) →
      ¬Waiting history := by
  constructor
  · intro between
    refine ⟨fun before source delayMinutes reason after whole => ?_,
      fun source delayMinutes reason same => ?_⟩
    · exact between before source delayMinutes reason (after ++ [entry]) (by simp [whole])
    · exact between history source delayMinutes reason [] (by rw [same])
  · rintro ⟨between, new⟩ before source delayMinutes reason after whole
    rcases Machine.split_concat whole with ⟨rfl, same, -⟩ | ⟨rest, -, split⟩
    · exact new source delayMinutes reason same.symm
    · exact between before source delayMinutes reason rest split

end Histories

section Invariant

/-- Nothing in the phase can end in an action. -/
def Phase.Quiet : Phase → Prop
  | idle | looking _ => True
  | acting _ action => (action.mark 0).isSome = false
  | _ => False

structure Inv (world : World) : Prop where
  inert : Inert world.messages
  sources : world.history.filterMap Entry.source = []
  acting : ∀ source action, world.phase = .acting (some source) action →
    (action.mark 0).isSome = false
  between : TurnsBetween world.history
  waiting : Waiting world.history → world.phase.Quiet

variable {world : World}

theorem Inv.goes (inv : Inv world) (row : Row) {phase : Phase}
    (acting : ∀ source action, phase = .acting (some source) action →
      (action.mark 0).isSome = false)
    (quiet : Waiting world.history → phase.Quiet) :
    Inv { world with row := row, phase := phase } :=
  ⟨inv.inert, inv.sources, acting, inv.between, quiet⟩

theorem Inv.store (inv : Inv world) {message : Message} (plain : ¬message.IsLifecycle) :
    Inv { world with messages := world.messages ++ [message] } :=
  ⟨inv.inert.snoc plain, inv.sources, inv.acting, inv.between, inv.waiting⟩

theorem Inv.turn (inv : Inv world) {phase : Phase}
    (apart : ∀ source action, phase ≠ .acting source action) :
    Inv (world.turn phase) where
  inert := inv.inert
  sources := by simp [World.turn, Entry.source, inv.sources]
  acting source action same := absurd same (apart _ _)
  between := turnsBetween_append.mpr ⟨inv.between, by simp⟩
  waiting waiting := absurd waiting not_waiting_turn

theorem Inv.look {next : World} {chatRead callsRead : Bool} (inv : Inv world)
    (taken : world.look (world.found chatRead callsRead) = some next) : Inv next := by
  cases found : world.found chatRead callsRead with
  | some pair =>
      obtain ⟨source, action⟩ := pair
      have nothing := inv.inert.found found
      have acting : Inv { world with phase := .acting (some source) action } := by
        refine inv.goes world.row (fun first second same => ?_) fun _ => nothing
        obtain ⟨-, rfl⟩ : source = first ∧ action = second := by simpa using same
        exact nothing
      rw [found] at taken
      simp only [World.look] at taken
      split at taken
      all_goals first
        | cases taken; done
        | exact Option.some.inj taken ▸ acting
  | none =>
      rw [found] at taken
      simp only [World.look] at taken
      split at taken
      next turn phase =>
        obtain rfl := Option.some.inj taken
        exact inv.turn (by simp)
      next turn phase =>
        obtain rfl := Option.some.inj taken
        split
        next => exact inv.goes _ (by simp) (fun _ => trivial)
        next => exact inv.goes world.row (by simp) (fun _ => trivial)
      next phase =>
        obtain rfl := Option.some.inj taken
        exact inv.goes world.row (by simp) (fun _ => trivial)
      next => cases taken

theorem World.endTurn_cases {next : World} {turnEnd : TurnEnd}
    (taken : world.endTurn turnEnd = some next) :
    world.phase.inTurn ∧ ∃ row phase, next = { world with row := row, phase := phase } ∧
      ∀ source action, phase ≠ .acting (some source) action := by
  unfold World.endTurn at taken
  split at taken
  all_goals first
    | cases taken; done
    | obtain rfl := Option.some.inj taken
      refine ⟨?_, _, _, rfl, by simp⟩
      simp_all [Phase.inTurn]

theorem not_waiting_inTurn (inv : Inv world) (inTurn : world.phase.inTurn) :
    ¬Waiting world.history := by
  intro waiting
  have quiet := inv.waiting waiting
  cases phase : world.phase <;> simp_all [Phase.inTurn, Phase.Quiet]

theorem Inv.endTurn {next : World} {turnEnd : TurnEnd} (inv : Inv world)
    (taken : world.endTurn turnEnd = some next) : Inv next := by
  obtain ⟨inTurn, row, phase, rfl, apart⟩ := World.endTurn_cases taken
  refine inv.goes row (fun source action same => absurd same (apart source action)) ?_
  exact fun waiting => absurd waiting (not_waiting_inTurn inv inTurn)

theorem Inv.act {next : World} (inv : Inv world) (taken : world.act = some next) : Inv next := by
  unfold World.act at taken
  split at taken
  next source action phase =>
    cases marked : action.mark world.now with
    | none =>
        rw [marked] at taken
        obtain rfl := Option.some.inj taken
        exact inv.goes world.row (by simp) (fun _ => trivial)
    | some mark =>
        rw [marked] at taken
        obtain rfl := Option.some.inj taken
        have acts : (action.mark 0).isSome := by rw [← mark_isSome world.now, marked]; rfl
        have busy : ¬Waiting world.history := by
          intro waiting
          have quiet := inv.waiting waiting
          rw [phase] at quiet
          exact absurd acts (Bool.eq_false_iff.mp quiet)
        -- What does something comes from a turn.
        have fromTurn : source = none := by
          cases source with
          | none => rfl
          | some source => exact absurd acts (Bool.eq_false_iff.mp (inv.acting _ _ phase))
        refine ⟨inv.inert, ?_, by simp [World.finish], ?_, fun _ => trivial⟩
        · simp [inv.sources, Entry.source, fromTurn]
        · exact turnsBetween_append.mpr ⟨inv.between, fun _ _ _ _ => busy⟩
  next => cases taken

theorem Inv.start (inv : Inv world) (chatId description : Text) :
    Inv (world.start chatId description) := by
  unfold World.start
  split
  next => exact inv
  next =>
    split
    next empty =>
      have first : Inv { world with messages := world.messages ++ [⟨.agent, description, none⟩] } :=
        inv.store (by simp [Message.IsLifecycle, actionOf])
      rw [empty, List.nil_append] at first
      exact first.goes _ (by simp) (fun _ => trivial)
    next => exact inv.goes _ (by simp) (fun _ => trivial)

theorem Inv.step {event : Event} {next : World} (inv : Inv world)
    (taken : step event world = some next) : Inv next := by
  cases event with
  | pass seconds =>
      obtain rfl := Option.some.inj taken
      exact ⟨inv.inert, inv.sources, inv.acting, inv.between, inv.waiting⟩
  | store message =>
      simp only [AppliedEvents.step] at taken
      split at taken
      next => cases taken
      next plain =>
        obtain rfl := Option.some.inj taken
        refine inv.store fun lifecycle => plain ?_
        by_cases system : message.role = .system
        · refine ⟨system, fun none => ?_⟩
          simp [Message.IsLifecycle, actionOf, none] at lifecycle
        · simp [Message.IsLifecycle, actionOf, system] at lifecycle
  | callTool taskEvent =>
      obtain rfl := Option.some.inj taken
      exact ⟨inv.inert, inv.sources, inv.acting, inv.between, inv.waiting⟩
  | executeTask chatId description =>
      simp only [AppliedEvents.step] at taken
      split at taken
      next =>
        obtain rfl := Option.some.inj taken
        exact inv.start chatId description
      next => cases taken
  | runWithInjectedMessage systemMessage =>
      simp only [AppliedEvents.step] at taken
      split at taken
      next =>
        obtain rfl := Option.some.inj taken
        have plain : ¬Message.IsLifecycle ⟨.system, systemMessage, none⟩ := by
          simp [Message.IsLifecycle, actionOf]
        have stored := inv.store plain
        exact stored.turn (by simp)
      next => cases taken
  | look chatRead callsRead => exact inv.look taken
  | endTurn turnEnd => exact inv.endTurn taken
  | act => exact inv.act taken
  | stop =>
      obtain rfl := Option.some.inj taken
      exact inv.goes world.row (by simp) (fun _ => trivial)

theorem start_inv (row : Row) {messages : List Message} (toolCalls : List (Option TaskEvent))
    (inert : Inert messages) : Inv (start row messages toolCalls) where
  inert := inert
  sources := rfl
  acting _ _ same := by cases same
  between before source delayMinutes reason after whole := by simp [AppliedEvents.start] at whole
  waiting := by
    rintro ⟨before, source, delayMinutes, reason, since, whole, -⟩
    simp [AppliedEvents.start] at whole

end Invariant

section Redone

variable {older newer : List Message} {message : Message} {action : LifecycleAction}

def injectedRun (systemMessage : Text) : List Event :=
  [.runWithInjectedMessage systemMessage, .endTurn (.completed none), .look true true, .act]

theorem applied_again {world : World} (idle : world.phase = .idle)
    (whole : world.messages = older ++ message :: newer)
    (acts : message.Acts)
    (plain : ∀ later ∈ newer, ¬later.IsLifecycle) (systemMessage : Text) :
    ∃ next action, Machine.run step (injectedRun systemMessage) world = some next ∧
      next.phase = .idle ∧
      next.messages = older ++ message :: (newer ++ [⟨.system, systemMessage, none⟩]) ∧
      next.history = world.history ++ [.turn, .applied (some older.length) action] := by
  obtain ⟨action, same, acts⟩ := acts.with (loadDeliverables world.toolCalls)
  obtain ⟨mark, marked⟩ := Option.isSome_iff_exists.mp ((mark_isSome world.now).trans acts)
  have read : findFrom (loadDeliverables world.toolCalls)
      (⟨.system, systemMessage, none⟩ :: world.messages.reverse) =
        some (older.length, action) := by
    have silent : ∀ later ∈ ⟨.system, systemMessage, none⟩ :: newer.reverse, ¬later.IsLifecycle := by
      intro later member
      rcases List.mem_cons.mp member with rfl | member
      · simp [Message.IsLifecycle, actionOf]
      · exact plain later (List.mem_reverse.mp member)
    have newest := findFrom_newest older.reverse same silent
    simpa [whole] using newest
  refine ⟨{ world with
    messages := world.messages ++ [⟨.system, systemMessage, none⟩]
    row := mark.apply world.row
    phase := .idle
    history := world.history ++ [.turn, .applied (some older.length) action] },
    action, ?_, rfl, by simp [whole], rfl⟩
  simp [injectedRun, Machine.run, step, idle, World.turn, World.endTurn, World.found,
    findLifecycleEvent, read, World.look, World.act, marked, World.finish]

-- A chat that holds a deferral of five minutes, and two runs on it, the second one when it is due
def deferred : List Message := [⟨.system, [], some (.taskDeferred 5 ['w'])⟩]

def row : Row := ⟨.direct none, .pending, none, none, none, none⟩

def dueAgain : List Event :=
  [.executeTask ['c'] ['d'], .look true true, .act, .pass 300, .executeTask ['c'] ['d'],
    .look true true, .act]

theorem applied_twice :
    ∃ last, Machine.run step dueAgain (start row deferred []) = some last ∧
      last.row.runAt = some 600 ∧ ¬AppliedOnce last.history ∧ ¬TurnsBetween last.history := by
  refine ⟨_, rfl, rfl, by unfold AppliedOnce; decide, fun between => ?_⟩
  exact between [.applied (some 0) (.defer 5 ['w'])] (some 0) 5 ['w'] [] rfl
    ⟨[], some 0, 5, ['w'], [], rfl, by simp⟩

end Redone

/-- In every run every lifecycle event is applied once and a turn comes between two deferrals,
exactly when the newest event of the chat that the runs begin with does nothing. -/
theorem appliesOnce_iff_inert (row : Row) (messages : List Message)
    (toolCalls : List (Option TaskEvent)) :
    AppliesOnce row messages toolCalls ↔ Inert messages := by
  constructor
  · intro once older message newer whole plain acts
    obtain ⟨first, before, reached, idle, still, history⟩ :=
      applied_again (show (start row messages toolCalls).phase = .idle from rfl) whole acts plain []
    obtain ⟨second, after, again, -, -, both⟩ :=
      applied_again idle still acts (by
        intro later member
        rcases List.mem_append.mp member with old | new
        · exact plain later old
        · obtain rfl := List.mem_singleton.mp new
          simp [Message.IsLifecycle, actionOf]) []
    have twice := (once (injectedRun [] ++ injectedRun []) second
      (by rw [Machine.run_append, reached]; exact again)).1
    rw [both, history] at twice
    simp [AppliedOnce, start, List.filterMap_cons, Entry.source] at twice
  · intro inert events last reached
    have inv := Machine.invariant_every_run step Inv (fun _ _ _ inv taken => inv.step taken)
      events _ last (start_inv row toolCalls inert) reached
    exact ⟨by rw [AppliedOnce, inv.sources]; exact List.nodup_nil, inv.between⟩

end Frona.AppliedEvents
