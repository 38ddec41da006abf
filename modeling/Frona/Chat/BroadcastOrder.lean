import Frona.Chat.Broadcast

set_option autoImplicit false

namespace Frona.Broadcast

section Order

def Phase.current : Phase → Option Event
  | received event | sending event _ _ _ => some event
  | _ => none

def Hub.announced (hub : Hub) : Nat :=
  match hub.phase with
  | .received event => event.number
  | _ => hub.count

def Hub.stored (hub : Hub) : Nat :=
  match hub.phase.current with
  | some event => event.number
  | none => hub.count

structure World.Ordered (world : World) : Prop where
  current : ∀ event, world.hub.phase.current = some event → event.number < world.hub.count
  expected : ∀ sender, Ascending (world.ledger.expected sender)
  waiting : Ascending world.ledger.waiting
  announced : ∀ sender, ∀ event ∈ world.ledger.expected sender,
    event.number < world.hub.announced
  stored : ∀ event ∈ world.ledger.waiting, event.number < world.hub.stored

variable {world : World}

theorem Ascending.concat {events : List Event} {event : Event} (ascending : Ascending events)
    (below : ∀ earlier ∈ events, earlier.number < event.number) :
    Ascending (events ++ [event]) := by
  refine List.pairwise_append.mpr ⟨ascending, List.pairwise_singleton _ _, ?_⟩
  intro earlier member last here
  rw [List.mem_singleton] at here
  exact here ▸ below earlier member

theorem World.Ordered.raise (ordered : world.Ordered) {hub : Hub} {ledger : Ledger}
    (expected : ledger.expected = world.ledger.expected)
    (waiting : ledger.waiting = world.ledger.waiting)
    (current : ∀ event, hub.phase.current = some event → event.number < hub.count)
    (announced : world.hub.announced ≤ hub.announced) (stored : world.hub.stored ≤ hub.stored) :
    World.Ordered { hub, ledger } where
  current := current
  expected := by simpa [expected] using ordered.expected
  waiting := by simpa [waiting] using ordered.waiting
  announced := by
    intro sender event member
    exact Nat.lt_of_lt_of_le (ordered.announced sender event (expected ▸ member)) announced
  stored := by
    intro event member
    exact Nat.lt_of_lt_of_le (ordered.stored event (waiting ▸ member)) stored

theorem World.Ordered.still (ordered : world.Ordered) {hub : Hub} {ledger : Ledger}
    (expected : ledger.expected = world.ledger.expected)
    (waiting : ledger.waiting = world.ledger.waiting) (phase : hub.phase = world.hub.phase)
    (count : hub.count = world.hub.count) : World.Ordered { hub, ledger } := by
  refine ordered.raise expected waiting ?_ ?_ ?_
  · simpa [phase, count] using ordered.current
  · simp [Hub.announced, phase, count]
  · simp [Hub.stored, phase, count]

theorem ordered_receive (isGlobal : Bool) (ordered : world.Ordered)
    (idle : world.hub.phase = .idle) :
    World.Ordered
      { world with
        hub := { world.hub with
          phase := .received { number := world.hub.count, isGlobal }
          count := world.hub.count + 1 } } := by
  refine ordered.raise rfl rfl ?_ ?_ ?_
  · simp [Phase.current]
  · simp [Hub.announced, idle]
  · simp [Hub.stored, idle, Phase.current]

theorem ordered_take (ordered : world.Ordered) :
    World.Ordered
      { hub := { world.hub.move world.hub.joined (.holding world.hub.pending) with
          pending := none
          joined := world.hub.joined + 1 }
        ledger := world.ledger.note .take world.hub } := by
  have bounds : world.hub.stored ≤ world.hub.announced := by
    have current := ordered.current
    simp only [Hub.stored, Hub.announced]
    cases phase : world.hub.phase with
    | sending event rest index dead =>
        have less := current event (by simp [phase, Phase.current])
        exact Nat.le_of_lt less
    | _ => simp [Phase.current]
  refine ⟨ordered.current, fun sender => ?_, List.Pairwise.nil, fun sender event member => ?_,
    by simp [Ledger.note]⟩
  · by_cases same : sender = world.hub.joined
    next => simpa [Ledger.note, same] using ordered.waiting
    next => simpa [Ledger.note, same] using ordered.expected sender
  · by_cases same : sender = world.hub.joined
    next =>
      have low := ordered.stored event (by simpa [Ledger.note, same] using member)
      exact Nat.lt_of_lt_of_le low bounds
    next => exact ordered.announced sender event (by simpa [Ledger.note, same] using member)

theorem ordered_read {event : Event} (ordered : world.Ordered)
    (received : world.hub.phase = .received event) :
    World.Ordered
      { hub := world.hub.readRegistry event, ledger := world.ledger.noteGo world.hub } := by
  have number := ordered.current event (by simp [received, Phase.current])
  have announced := ordered.announced
  have stored := ordered.stored
  simp only [Hub.announced, Hub.stored, received, Phase.current] at announced stored
  have expected : (world.ledger.noteGo world.hub).expected =
      (world.ledger.announce event world.hub).expected := by
    simp only [Ledger.noteGo, received]
    split <;> rfl
  have ascends : ∀ sender, Ascending ((world.ledger.announce event world.hub).expected sender) ∧
      ∀ earlier ∈ (world.ledger.announce event world.hub).expected sender,
        earlier.number < world.hub.count := by
    intro sender
    simp only [Ledger.announce]
    split
    next =>
      refine ⟨(ordered.expected sender).concat (announced sender), fun earlier member => ?_⟩
      rcases List.mem_append.mp member with before | here
      · have less := announced sender earlier before
        omega
      · rw [List.mem_singleton.mp here]
        exact number
    next =>
      refine ⟨ordered.expected sender, fun earlier member => ?_⟩
      have less := announced sender earlier member
      omega
  cases registry : world.hub.registry with
  | some senders =>
      have reads : world.hub.readRegistry event =
          { world.hub with phase := .sending event senders 0 [] } := by
        simp [Hub.readRegistry, registry]
      have waits : (world.ledger.noteGo world.hub).waiting = world.ledger.waiting := by
        simp [Ledger.noteGo, received, registry, Ledger.announce]
      rw [reads]
      refine ⟨?_, fun sender => ?_, ?_, fun sender => ?_, ?_⟩
      · simpa [Phase.current] using number
      · simpa [expected] using (ascends sender).1
      · simpa [waits] using ordered.waiting
      · simpa [expected, Hub.announced] using (ascends sender).2
      · simpa [waits, Hub.stored, Phase.current] using stored
  | none =>
      have reads : world.hub.readRegistry event =
          { world.hub with phase := if event.isGlobal then .idle else .looking event } := by
        simp [Hub.readRegistry, registry]
      have bounds : ∀ hub : Hub, hub = world.hub.readRegistry event →
          hub.phase.current = none ∧ hub.announced = world.hub.count ∧
            hub.stored = world.hub.count := by
        rintro hub rfl
        rw [reads]
        cases event.isGlobal <;> simp [Phase.current, Hub.announced, Hub.stored]
      obtain ⟨none', top, below⟩ := bounds _ rfl
      have waits : Ascending (world.ledger.noteGo world.hub).waiting ∧
          ∀ earlier ∈ (world.ledger.noteGo world.hub).waiting,
            earlier.number < world.hub.count := by
        simp only [Ledger.noteGo, received]
        split
        next =>
          refine ⟨ordered.waiting.concat stored, fun earlier member => ?_⟩
          rcases List.mem_append.mp member with before | here
          · have less := stored earlier before
            omega
          · rw [List.mem_singleton.mp here]
            exact number
        next =>
          refine ⟨ordered.waiting, fun earlier member => ?_⟩
          have less := stored earlier member
          omega
      refine ⟨by simp [none'], fun sender => ?_, waits.1, fun sender => ?_, ?_⟩
      · simpa [expected] using (ascends sender).1
      · simpa [expected, top] using (ascends sender).2
      · simpa [below] using waits.2

theorem ordered_finish {event : Event} {index : Nat} {dead : List Nat} (ordered : world.Ordered)
    (sending : world.hub.phase = .sending event [] index dead) :
    World.Ordered
      { hub := world.hub.finishSends event dead, ledger := world.ledger.noteGo world.hub } := by
  have number := ordered.current event (by simp [sending, Phase.current])
  have stored := ordered.stored
  simp only [Hub.stored, sending, Phase.current] at stored
  have expected : (world.ledger.noteGo world.hub).expected = world.ledger.expected := by
    simp only [Ledger.noteGo, sending]
    split <;> rfl
  have bounds : (world.hub.finishSends event dead).phase.current = none ∧
      (world.hub.finishSends event dead).announced = world.hub.count ∧
        (world.hub.finishSends event dead).stored = world.hub.count := by
    simp only [Hub.finishSends, Hub.announced, Hub.stored]
    cases event.isGlobal with
    | true => simp [Phase.current]
    | false => by_cases alive : dead = [] <;> simp [Phase.current, alive]
  have announced := ordered.announced
  simp only [Hub.announced, sending] at announced
  have waits : Ascending (world.ledger.noteGo world.hub).waiting ∧
      ∀ earlier ∈ (world.ledger.noteGo world.hub).waiting,
        earlier.number < world.hub.count := by
    simp only [Ledger.noteGo, sending]
    split
    next =>
      refine ⟨ordered.waiting.concat stored, fun earlier member => ?_⟩
      rcases List.mem_append.mp member with before | here
      · have less := stored earlier before
        omega
      · rw [List.mem_singleton.mp here]
        exact number
    next =>
      refine ⟨ordered.waiting, fun earlier member => ?_⟩
      have less := stored earlier member
      omega
  obtain ⟨none', top, below⟩ := bounds
  refine ⟨by simp [none'], ?_, waits.1, ?_, ?_⟩
  · simpa [expected] using ordered.expected
  · simpa [expected, top] using announced
  · simpa [below] using waits.2

theorem ordered_later {hub : Hub} (ordered : world.Ordered) (count : hub.count = world.hub.count)
    (before : world.hub.phase.current = none) (after : hub.phase.current = none)
    (ledger : Ledger) (expected : ledger.expected = world.ledger.expected)
    (waiting : ledger.waiting = world.ledger.waiting) : World.Ordered { hub, ledger } := by
  have apart : ∀ hub : Hub, hub.phase.current = none → hub.announced = hub.count := by
    intro hub none'
    simp only [Hub.announced]
    split
    next event received => simp [received, Phase.current] at none'
    next => rfl
  refine ordered.raise expected waiting (by simp [after]) ?_ ?_
  · simp [apart hub after, apart world.hub before, count]
  · simp [Hub.stored, before, after, count]

theorem ordered_go {hub : Hub} (ordered : world.Ordered) (goes : world.hub.go = some hub) :
    World.Ordered { hub, ledger := world.ledger.noteGo world.hub } := by
  unfold Hub.go at goes
  split at goes
  next => cases goes
  next event received =>
    split at goes
    next => cases goes
    next =>
      obtain rfl := Option.some.inj goes
      exact ordered_read ordered received
  next event sender rest index dead sending =>
    obtain rfl := Option.some.inj goes
    refine ordered.raise (by simp [Ledger.noteGo, sending]) (by simp [Ledger.noteGo, sending])
      ?_ ?_ ?_
    · simpa [Hub.sendNext, Hub.send, sending, Phase.current] using ordered.current
    · simp [Hub.announced, Hub.sendNext, Hub.send, sending]
    · simp [Hub.stored, Hub.sendNext, sending, Phase.current]
  next event index dead sending =>
    obtain rfl := Option.some.inj goes
    exact ordered_finish ordered sending
  next event dead removing =>
    obtain rfl := Option.some.inj goes
    exact @ordered_later world (world.hub.removeDead event dead) ordered rfl
      (by simp [removing, Phase.current]) rfl _ (by simp [removing, Ledger.noteGo])
      (by simp [removing, Ledger.noteGo])
  next event guarded checking =>
    split at goes
    next => cases goes
    next =>
      obtain rfl := Option.some.inj goes
      refine @ordered_later world (world.hub.checkLive event) ordered rfl ?_ ?_ _ ?_ ?_
      · simp [checking, Phase.current]
      · simp only [Hub.checkLive]
        split <;> rfl
      · simp [checking, Ledger.noteGo]
      · simp [checking, Ledger.noteGo]
  next event buffering =>
    obtain rfl := Option.some.inj goes
    refine ordered_later ordered ?_ ?_ ?_ _ ?_ ?_
    · unfold Hub.getBuffer
      split <;> rfl
    · simp [buffering, Phase.current]
    · unfold Hub.getBuffer
      split <;> rfl
    · simp [buffering, Ledger.noteGo]
    · simp [buffering, Ledger.noteGo]
  next event looking =>
    obtain rfl := Option.some.inj goes
    refine ordered_later ordered ?_ ?_ ?_ _ ?_ ?_
    · unfold Hub.lookForBuffer
      split <;> rfl
    · simp [looking, Phase.current]
    · unfold Hub.lookForBuffer
      split <;> rfl
    · simp [looking, Ledger.noteGo]
    · simp [looking, Ledger.noteGo]
  next event buffer guarded pushing =>
    obtain rfl := Option.some.inj goes
    exact @ordered_later world (world.hub.push event buffer) ordered rfl
      (by simp [pushing, Phase.current]) rfl _ (by simp [pushing, Ledger.noteGo])
      (by simp [pushing, Ledger.noteGo])

theorem ordered_step {action : Action} {next : World} (ordered : world.Ordered)
    (taken : step action world = some next) : next.Ordered := by
  unfold step at taken
  split at taken
  next => cases taken
  next hub moved =>
    cases taken
    cases action with
    | receive isGlobal =>
        simp only [Hub.step] at moved
        split at moved
        next idle =>
          cases moved
          exact ordered_receive isGlobal ordered idle
        next => cases moved
    | go => exact ordered_go ordered moved
    | take =>
        cases moved
        exact ordered_take ordered
    | drain sender =>
        simp only [Hub.step, Hub.drain] at moved
        split at moved
        next =>
          cases moved
          exact ordered.still rfl rfl rfl rfl
        next => cases moved
    | feed sender =>
        simp only [Hub.step, Hub.feed] at moved
        split at moved
        next =>
          cases moved
          exact ordered.still rfl rfl rfl rfl
        next => cases moved
    | lock sender =>
        simp only [Hub.step, Hub.lock] at moved
        split at moved
        next =>
          cases moved
          exact ordered.still rfl rfl rfl rfl
        next =>
          cases moved
          exact ordered.still rfl rfl rfl rfl
        next => cases moved
    | add sender =>
        simp only [Hub.step, Hub.add] at moved
        split at moved
        next =>
          cases moved
          exact ordered.still rfl rfl rfl rfl
        next => cases moved
    | close sender =>
        cases moved
        exact ordered.still rfl rfl rfl rfl

theorem ordered_start : World.start.Ordered where
  current := by simp [World.start, Hub.start, Phase.current]
  expected := fun _ => List.Pairwise.nil
  waiting := List.Pairwise.nil
  announced := by simp [World.start, Ledger.start]
  stored := by simp [World.start, Ledger.start]

end Order

end Frona.Broadcast
