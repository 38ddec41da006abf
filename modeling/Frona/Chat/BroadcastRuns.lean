import Frona.Chat.BroadcastOrder
import Frona.Chat.BroadcastSessions
import Mathlib.Data.List.Perm.Subperm

set_option autoImplicit false

namespace Frona.Broadcast

section Dispatcher

variable {world : World}

theorem World.Consistent.no_holder (consistent : world.Consistent)
    (loose : world.ledger.loose ≠ none) (sender : Nat) :
    world.hub.stage sender = .absent ∨ world.hub.stage sender = .added := by
  by_contra registering
  rw [not_or] at registering
  exact loose (consistent.stored_of_registering sender registering.1 registering.2)

theorem World.Kept.isPrefix {sender : Nat} (kept : world.Kept sender) :
    world.hub.sent sender <+: world.ledger.expected sender := by
  unfold World.Kept at kept
  split at kept
  next => simp [kept.1]
  next => simp [kept.1]
  next => simp [kept.1]
  next => simp [kept]
  next => simp [kept]
  next => exact kept.1

theorem World.Consistent.rephase {phase : Phase} {expected : Nat → List Event}
    (consistent : world.Consistent)
    (kept : ∀ sender, World.Kept
      { hub := { world.hub with phase }, ledger := { world.ledger with expected } } sender)
    (knows : World.Knows
      { hub := { world.hub with phase }, ledger := { world.ledger with expected } }) :
    World.Consistent
      { hub := { world.hub with phase }, ledger := { world.ledger with expected } } :=
  ⟨consistent.fresh, kept, consistent.entry, consistent.listed, consistent.quiet,
    consistent.stored, consistent.bound, consistent.armed, consistent.unarmed, consistent.gap,
    knows⟩

theorem World.Consistent.waits {event : Event} {phase : Phase} {expected : Nat → List Event}
    (consistent : world.Consistent) (stored : world.ledger.loose = none)
    (quiet : world.hub.Quiet)
    (kept : ∀ sender, World.Kept
      { hub := { world.hub with phase }, ledger := { world.ledger with expected } } sender)
    (knows : World.Knows
      { hub := { world.hub with phase }
        ledger := Ledger.wait event { world.ledger with expected } }) :
    World.Consistent
      { hub := { world.hub with phase }
        ledger := Ledger.wait event { world.ledger with expected } } := by
  refine ⟨consistent.fresh, kept, consistent.entry, consistent.listed, fun _ => quiet, ?_,
    consistent.bound, fun _ => rfl, fun unarmed => ?_, fun _ _ loose => ?_, knows⟩
  · have waits := consistent.stored
    simp only [stored, Option.toList, List.append_nil] at waits
    simp [Ledger.wait, waits, Hub.buffered]
  · cases unarmed
  · cases loose

theorem kept_announce {event : Event} {phase : Phase} (consistent : world.Consistent)
    (before : ∀ sender, world.hub.phase.due sender = [])
    (due : ∀ sender senders, world.hub.registry = some senders → sender ∈ senders →
      phase.due sender = [event]) (sender : Nat) :
    World.Kept
      { hub := { world.hub with phase }, ledger := world.ledger.announce event world.hub }
      sender := by
  have kept := consistent.kept sender
  simp only [World.Kept, Ledger.announce] at kept ⊢
  cases stage : world.hub.stage sender with
  | added =>
      simp only [stage, if_true] at kept ⊢
      refine ⟨kept.1.trans (List.prefix_append _ _), fun opened => ?_⟩
      obtain ⟨senders, registry, member⟩ := consistent.listed sender stage opened
      rw [due sender senders registry member, kept.2 opened, before, List.append_nil]
  | holding buffer => cases buffer <;> simpa [stage] using kept
  | _ => simpa [stage] using kept

theorem kept_rephase {phase : Phase} {registry : Option (List Nat)}
    (consistent : world.Consistent) (before : ∀ sender, world.hub.phase.due sender = [])
    (after : ∀ sender, phase.due sender = []) (sender : Nat) :
    World.Kept { world with hub := { world.hub with phase, registry } } sender := by
  have kept := consistent.kept sender
  simpa only [World.Kept, before, after] using kept

theorem consistent_read {event : Event} (consistent : world.Consistent)
    (received : world.hub.phase = .received event) (calm : world.CalmGo) :
    World.Consistent
      { hub := world.hub.readRegistry event, ledger := world.ledger.noteGo world.hub } := by
  have nothing : ∀ sender, world.hub.phase.due sender = [] := by simp [received, Phase.due]
  have stored : world.ledger.loose = none := by
    simpa [World.Knows, received] using consistent.knows
  simp only [World.CalmGo, received] at calm
  cases registry : world.hub.registry with
  | some senders =>
      have reads : world.hub.readRegistry event =
          { world.hub with phase := .sending event senders 0 [] } := by
        simp [Hub.readRegistry, registry]
      have notes : world.ledger.noteGo world.hub = world.ledger.announce event world.hub := by
        simp [Ledger.noteGo, received, registry]
      rw [reads, notes]
      refine consistent.rephase (kept_announce consistent nothing ?_) ?_
      · intro sender others listed member
        obtain rfl := Option.some.inj (registry.symm.trans listed)
        simp [Phase.due, member]
      · exact ⟨stored, [], registry, rfl, ⟨List.Pairwise.nil, by simp⟩, by simp⟩
  | none =>
      have noOne : ∀ (phase : Phase) (sender : Nat) (senders : List Nat),
          world.hub.registry = some senders → sender ∈ senders → phase.due sender = [event] := by
        intro phase sender senders listed
        simp [registry] at listed
      have reads : world.hub.readRegistry event =
          { world.hub with phase := if event.isGlobal then .idle else .looking event } := by
        simp [Hub.readRegistry, registry]
      by_cases waits : event.isGlobal = false ∧ world.ledger.armed = true
      next =>
        have notes : world.ledger.noteGo world.hub =
            (world.ledger.announce event world.hub).wait event := by
          simp [Ledger.noteGo, received, registry, waits]
        have quiet := calm registry waits.1 waits.2
        rw [reads, notes]
        refine consistent.waits stored quiet (kept_announce consistent nothing (noOne _)) ?_
        simp only [waits.1]
        exact Or.inl ⟨rfl, consistent.gap registry quiet stored waits.2⟩
      next =>
        have notes : world.ledger.noteGo world.hub = world.ledger.announce event world.hub := by
          simp [Ledger.noteGo, received, waits]
        rw [reads, notes]
        refine consistent.rephase (kept_announce consistent nothing (noOne _)) ?_
        cases isGlobal : event.isGlobal with
        | true => exact stored
        | false =>
            have unarmed : world.ledger.armed = false := by simpa [isGlobal] using waits
            exact Or.inr ⟨stored, consistent.unarmed unarmed⟩

theorem consistent_send {event : Event} {sender index : Nat} {rest dead : List Nat}
    (consistent : world.Consistent)
    (sending : world.hub.phase = .sending event (sender :: rest) index dead) :
    World.Consistent
      { world with hub := world.hub.sendNext event sender rest index dead } := by
  have knows := consistent.knows
  simp only [World.Knows, sending] at knows
  obtain ⟨stored, before, registry, length, ⟨ascending, closed⟩, below⟩ := knows
  obtain ⟨_, nodup, added⟩ := consistent.entry _ registry
  have stage : world.hub.stage sender = .added := added sender (by simp)
  have once : sender ∉ rest := by
    have later := (List.nodup_append.mp nodup).2.1
    exact (List.nodup_cons.mp later).1
  have place : (before ++ sender :: rest)[index]? = some sender := by
    rw [← length]
    simp
  refine ⟨consistent.fresh, fun other => ?_, consistent.entry, consistent.listed,
    consistent.quiet, consistent.stored, consistent.bound, consistent.armed, consistent.unarmed,
    consistent.gap, ?_⟩
  · have kept := consistent.kept other
    simp only [World.Kept, Hub.sendNext, Hub.send, sending, Phase.due] at kept ⊢
    by_cases same : other = sender
    next =>
      subst same
      simp only [stage, List.mem_cons, true_or, if_true] at kept
      simp only [stage, Function.update_self, once, if_false, List.append_nil]
      cases gone : world.hub.closed other with
      | true => simpa using kept.1
      | false => simp [kept.2 gone]
    next => simpa [same] using kept
  · refine ⟨stored, before ++ [sender], ?_, by simp [length], ?_, ?_⟩
    · simpa [Hub.sendNext, Hub.send] using registry
    · simp only [List.append_assoc, List.singleton_append]
      cases gone : world.hub.closed sender with
      | false => exact ⟨ascending, closed⟩
      | true =>
          refine ⟨?_, fun at' member => ?_⟩
          · simp only [if_true, List.pairwise_append]
            refine ⟨ascending, by simp, fun early member last here => ?_⟩
            rw [List.mem_singleton] at here
            have smaller := below early member
            omega
          · simp only [if_true, List.mem_append, List.mem_singleton] at member
            rcases member with early | rfl
            · exact closed at' early
            · exact ⟨sender, place, gone⟩
    · intro at' member
      split at member
      next =>
        rcases List.mem_append.mp member with early | here
        · have smaller := below at' early
          omega
        · rw [List.mem_singleton] at here
          omega
      next =>
        have smaller := below at' member
        omega

theorem covers_of_length {dead : List Nat} {bound : Nat} (ascending : dead.Pairwise (· < ·))
    (below : ∀ index ∈ dead, index < bound) :
    dead.length = bound ↔ ∀ index < bound, index ∈ dead := by
  have nodup : dead.Nodup := ascending.imp fun less => Nat.ne_of_lt less
  have inside : dead.Subperm (List.range bound) :=
    nodup.subperm fun index member => List.mem_range.mpr (below index member)
  constructor
  next =>
    intro length index less
    have perm := inside.perm_of_length_le (by simp [length])
    exact perm.mem_iff.mpr (List.mem_range.mpr less)
  next =>
    intro covered
    have outside : (List.range bound).Subperm dead :=
      List.nodup_range.subperm fun index member => covered index (List.mem_range.mp member)
    have atMost := inside.length_le
    have atLeast := outside.length_le
    simp only [List.length_range] at atMost atLeast
    omega

theorem consistent_finish {event : Event} {index : Nat} {dead : List Nat}
    (consistent : world.Consistent) (sending : world.hub.phase = .sending event [] index dead)
    (calm : world.CalmGo) :
    World.Consistent
      { hub := world.hub.finishSends event dead, ledger := world.ledger.noteGo world.hub } := by
  have knows := consistent.knows
  simp only [World.Knows, sending, List.append_nil] at knows
  obtain ⟨stored, senders, registry, rfl, ⟨ascending, closed⟩, below⟩ := knows
  obtain ⟨nonempty, _, _⟩ := consistent.entry _ registry
  have nothing : ∀ sender, world.hub.phase.due sender = [] := by simp [sending, Phase.due]
  have covers := covers_of_length ascending below
  simp only [World.CalmGo, sending] at calm
  simp only [Hub.finishSends, Ledger.noteGo, sending]
  cases isGlobal : event.isGlobal with
  | true =>
      simp only [if_true, Bool.true_eq_false, false_and, if_false]
      exact consistent.rephase (kept_rephase consistent nothing (by simp [Phase.due])) stored
  | false =>
      obtain ⟨quiet, unblocked⟩ := calm isGlobal
      simp only [Bool.false_eq_true, if_false, true_and]
      by_cases alive : dead = []
      next =>
        have accepted : dead.length ≠ senders.length := by
          intro same
          rw [alive] at same
          exact nonempty (List.length_eq_zero_iff.mp same.symm)
        rw [if_pos alive, if_neg accepted]
        exact consistent.rephase (kept_rephase consistent nothing (by simp [Phase.due]))
          ⟨fun _ => ⟨unblocked alive, stored⟩, Or.inr ⟨stored, by simp [registry]⟩⟩
      next =>
        rw [if_neg alive]
        by_cases all : dead.length = senders.length
        next =>
          rw [if_pos all]
          exact consistent.waits stored (quiet all)
            (kept_rephase consistent nothing (by simp [Phase.due]))
            ⟨senders, registry, ⟨ascending, closed⟩, Or.inl ⟨rfl, covers.mp all⟩⟩
        next =>
          rw [if_neg all]
          refine consistent.rephase (kept_rephase consistent nothing (by simp [Phase.due]))
            ⟨senders, registry, ⟨ascending, closed⟩, Or.inr ⟨stored, ?_⟩⟩
          by_contra reached
          refine all (covers.mpr fun index less => ?_)
          by_contra missing
          exact reached ⟨index, less, missing⟩

theorem consistent_remove {event : Event} {dead : List Nat} (consistent : world.Consistent)
    (removing : world.hub.phase = .removing event dead) :
    World.Consistent { world with hub := world.hub.removeDead event dead } := by
  have knows := consistent.knows
  simp only [World.Knows, removing] at knows
  obtain ⟨senders, registry, ⟨ascending, closed⟩, reach⟩ := knows
  obtain ⟨_, nodup, added⟩ := consistent.entry _ registry
  obtain ⟨distinct, members⟩ := Machine.swapRemoveAll_spec nodup ascending
  have nothing : ∀ sender, world.hub.phase.due sender = [] := by simp [removing, Phase.due]
  -- Only closed senders go.
  have stays : ∀ sender ∈ senders, world.hub.closed sender = false →
      sender ∈ Machine.swapRemoveAll dead senders := by
    intro sender member opened
    refine (members sender).mpr ⟨member, fun index fell found => ?_⟩
    obtain ⟨other, place, gone⟩ := closed index fell
    rw [found] at place
    obtain rfl := Option.some.inj place
    rw [opened] at gone
    cases gone
  simp only [Hub.removeDead, registry]
  rcases left : Machine.swapRemoveAll dead senders with _ | ⟨first, others⟩
  · have loose : world.ledger.loose = some event := by
      rcases reach with ⟨loose, _⟩ | ⟨_, index, less, alive⟩
      · exact loose
      · have member : senders[index] ∈ Machine.swapRemoveAll dead senders := by
          refine (members _).mpr ⟨List.getElem_mem less, fun other fell found => ?_⟩
          obtain ⟨inside, same⟩ := List.getElem?_eq_some_iff.mp found
          have clash := (List.Nodup.getElem_inj_iff nodup).mp same
          exact alive (clash ▸ fell)
        rw [left] at member
        cases member
    refine ⟨consistent.fresh, kept_rephase consistent nothing (by simp [Phase.due]), by simp,
      fun sender here opened => ?_, consistent.quiet, consistent.stored, consistent.bound,
      consistent.armed, consistent.unarmed, fun _ _ none' => absurd none' (by simp [loose]), by simp, Or.inl ⟨loose, rfl⟩⟩
    obtain ⟨listed, same, member⟩ := consistent.listed sender here opened
    obtain rfl := Option.some.inj (registry.symm.trans same)
    have remains := stays sender member opened
    rw [left] at remains
    cases remains
  · have stored : world.ledger.loose = none := by
      rcases reach with ⟨_, all⟩ | ⟨stored, _⟩
      · have member := (members first).mp (by simp [left])
        obtain ⟨index, less, found⟩ := List.mem_iff_getElem.mp member.1
        exact absurd (by simp [less, found]) (member.2 index (all index less))
      · exact stored
    refine ⟨consistent.fresh, kept_rephase consistent nothing (by simp [Phase.due]),
      fun entry same => ?_, fun sender here opened => ?_,
      consistent.quiet, consistent.stored, consistent.bound, consistent.armed,
      consistent.unarmed, by simp, by simp, Or.inr ⟨stored, by simp⟩⟩
    · obtain rfl := Option.some.inj same
      rw [← left]
      exact ⟨by simp [left], distinct, fun sender member =>
        added sender ((members sender).mp member).1⟩
    · obtain ⟨listed, same, member⟩ := consistent.listed sender here opened
      obtain rfl := Option.some.inj (registry.symm.trans same)
      exact ⟨_, rfl, left ▸ stays sender member opened⟩

theorem consistent_check {event : Event} {guarded : Bool} (consistent : world.Consistent)
    (checking : world.hub.phase = .checking event guarded) :
    World.Consistent { world with hub := world.hub.checkLive event } := by
  have knows := consistent.knows
  simp only [World.Knows, checking] at knows
  obtain ⟨_, reach⟩ := knows
  have nothing : ∀ sender, world.hub.phase.due sender = [] := by simp [checking, Phase.due]
  refine consistent.rephase (kept_rephase consistent nothing ?_) ?_
  · split <;> simp [Phase.due]
  · rcases reach with ⟨loose, gone⟩ | ⟨stored, present⟩
    · simp [World.Knows, Hub.hasLive, gone, loose]
    · cases registry : world.hub.registry with
      | none => exact absurd registry present
      | some senders =>
          have nonempty := (consistent.entry senders registry).1
          have live : senders.isEmpty = false := by simpa using nonempty
          simp [World.Knows, Hub.hasLive, registry, live, stored]

theorem kept_unsent {hub : Hub} {ledger : Ledger} (consistent : world.Consistent)
    (loose : world.ledger.loose ≠ none) (nothing : ∀ sender, world.hub.phase.due sender = [])
    (stage : hub.stage = world.hub.stage) (sent : hub.sent = world.hub.sent)
    (closed : hub.closed = world.hub.closed) (still : ∀ sender, hub.phase.due sender = [])
    (expected : ledger.expected = world.ledger.expected) (sender : Nat) :
    World.Kept { hub, ledger } sender := by
  have kept := consistent.kept sender
  simp only [World.Kept, stage, sent, closed, still, expected] at kept ⊢
  rcases consistent.no_holder loose sender with here | here
  · simpa only [here] using kept
  · simpa only [here, nothing] using kept

theorem consistent_getBuffer {event : Event} (consistent : world.Consistent)
    (buffering : world.hub.phase = .buffering event) :
    World.Consistent { world with hub := world.hub.getBuffer event } := by
  have loose : world.ledger.loose = some event := by
    simpa [World.Knows, buffering] using consistent.knows
  have nothing : ∀ sender, world.hub.phase.due sender = [] := by simp [buffering, Phase.due]
  have armed := consistent.armed (by simp [loose])
  unfold Hub.getBuffer
  split
  next buffer pending =>
    exact consistent.rephase (kept_unsent consistent (by simp [loose]) nothing rfl rfl rfl
      (by simp [Phase.due]) rfl) ⟨loose, pending⟩
  next pending =>
    refine ⟨consistent.fresh, kept_unsent consistent (by simp [loose]) nothing rfl rfl rfl
      (by simp [Phase.due]) rfl, consistent.entry, consistent.listed, consistent.quiet, ?_,
      ?_, consistent.armed, fun unarmed => ?_, by simp, loose, rfl⟩
    · have waits := consistent.stored
      simpa [Hub.buffered, pending] using waits
    · intro buffer same
      obtain rfl := Option.some.inj same
      exact Nat.lt_succ_self _
    · rw [armed] at unarmed
      cases unarmed

theorem consistent_look {event : Event} (consistent : world.Consistent)
    (looking : world.hub.phase = .looking event) :
    World.Consistent { world with hub := world.hub.lookForBuffer event } := by
  have knows := consistent.knows
  simp only [World.Knows, looking] at knows
  have nothing : ∀ sender, world.hub.phase.due sender = [] := by simp [looking, Phase.due]
  unfold Hub.lookForBuffer
  split
  next buffer pending =>
    have loose : world.ledger.loose = some event := by
      rcases knows with ⟨loose, _⟩ | ⟨_, none'⟩
      · exact loose
      · rw [pending] at none'
        cases none'
    exact consistent.rephase (kept_rephase consistent nothing (by simp [Phase.due]))
      ⟨loose, pending⟩
  next pending =>
    have stored : world.ledger.loose = none := by
      rcases knows with ⟨_, some'⟩ | ⟨stored, _⟩
      · exact absurd pending some'
      · exact stored
    exact consistent.rephase (kept_rephase consistent nothing (by simp [Phase.due])) stored

theorem consistent_push {event : Event} {buffer : Nat} {guarded : Bool}
    (consistent : world.Consistent)
    (pushing : world.hub.phase = .pushing event buffer guarded) :
    World.Consistent
      { hub := world.hub.push event buffer, ledger := { world.ledger with loose := none } } := by
  have knows := consistent.knows
  simp only [World.Knows, pushing] at knows
  obtain ⟨loose, pending⟩ := knows
  have nothing : ∀ sender, world.hub.phase.due sender = [] := by simp [pushing, Phase.due]
  refine ⟨consistent.fresh, kept_unsent consistent (by simp [loose]) nothing rfl rfl rfl
    (by simp [Hub.push, Phase.due]) rfl, consistent.entry, consistent.listed, by simp, ?_,
    consistent.bound, by simp, consistent.unarmed, ?_, rfl⟩
  · have waits := consistent.stored
    simpa [Hub.buffered, Hub.push, pending, loose] using waits
  · intro _ _ _ _
    simp [Hub.push, pending]

theorem consistent_go {hub : Hub} (consistent : world.Consistent) (calm : world.CalmGo)
    (goes : world.hub.go = some hub) :
    World.Consistent { hub, ledger := world.ledger.noteGo world.hub } := by
  unfold Hub.go at goes
  split at goes
  next => cases goes
  next event received =>
    split at goes
    next => cases goes
    next =>
      obtain rfl := Option.some.inj goes
      exact consistent_read consistent received calm
  next event sender rest index dead sending =>
    obtain rfl := Option.some.inj goes
    simpa [Ledger.noteGo, sending] using consistent_send consistent sending
  next event index dead sending =>
    obtain rfl := Option.some.inj goes
    exact consistent_finish consistent sending calm
  next event dead removing =>
    obtain rfl := Option.some.inj goes
    simpa [Ledger.noteGo, removing] using consistent_remove consistent removing
  next event guarded checking =>
    split at goes
    next => cases goes
    next =>
      obtain rfl := Option.some.inj goes
      simpa [Ledger.noteGo, checking] using consistent_check consistent checking
  next event buffering =>
    obtain rfl := Option.some.inj goes
    simpa [Ledger.noteGo, buffering] using consistent_getBuffer consistent buffering
  next event looking =>
    obtain rfl := Option.some.inj goes
    simpa [Ledger.noteGo, looking] using consistent_look consistent looking
  next event buffer guarded pushing =>
    obtain rfl := Option.some.inj goes
    simpa [Ledger.noteGo, pushing] using consistent_push consistent pushing

theorem consistent_step {action : Action} {next : World} (consistent : world.Consistent)
    (calm : Calm action world) (taken : step action world = some next) : next.Consistent := by
  unfold step at taken
  split at taken
  next => cases taken
  next hub moved =>
    cases taken
    cases action with
    | receive isGlobal =>
        simp only [Hub.step] at moved
        split at moved
        next idle =>
          cases moved
          exact consistent_receive isGlobal consistent idle
        next => cases moved
    | go => exact consistent_go consistent calm moved
    | take =>
        cases moved
        exact consistent_take consistent calm
    | drain sender =>
        simp only [Hub.step, Hub.drain] at moved
        split at moved
        next buffer holding =>
          cases moved
          exact consistent_drain consistent holding
        next => cases moved
    | feed sender =>
        simp only [Hub.step, Hub.feed] at moved
        split at moved
        next event rest draining =>
          cases moved
          simp only [Calm, World.CalmFeed, draining] at calm
          exact consistent_feed consistent draining calm
        next => cases moved
    | lock sender =>
        simp only [Hub.step, Hub.lock] at moved
        split at moved
        next holding =>
          cases moved
          exact consistent_lock consistent (Or.inl holding) calm
        next draining =>
          cases moved
          exact consistent_lock consistent (Or.inr draining) calm
        next => cases moved
    | add sender =>
        simp only [Hub.step, Hub.add] at moved
        split at moved
        next ready =>
          cases moved
          exact consistent_add consistent ready.1 ready.2
        next => cases moved
    | close sender =>
        cases moved
        exact consistent_close sender consistent

end Dispatcher

section Streams

variable {world : World}

theorem World.Consistent.sound (consistent : world.Consistent) (ordered : world.Ordered) :
    world.Sound where
  running := by
    intro event checking
    have knows := consistent.knows
    simp only [World.Knows, checking] at knows
    exact (knows.1 trivial).1
  order := by
    intro sender
    exact (ordered.expected sender).sublist (consistent.kept sender).isPrefix.sublist
  delivered := by
    intro idle sender added opened
    have kept := consistent.kept sender
    simp only [World.Kept, added, idle, Phase.due, List.append_nil] at kept
    exact (kept.2 opened).symm
  drained := by
    intro sender locking
    have kept := consistent.kept sender
    simpa only [World.Kept, locking] using kept
  buffered := by
    intro idle
    have knows := consistent.knows
    simp only [World.Knows, idle] at knows
    simpa [knows] using consistent.stored.symm

/-- In a run whose steps all meet the condition the events of a user reach every open sender in
their order, and the others wait for the next sender. -/
theorem streams_sound (actions : List Action) (last : World)
    (calm : Machine.Guarded step Calm actions World.start)
    (reached : Machine.run step actions World.start = some last) : last.Sound := by
  have kept := Machine.invariant_run step Calm (fun world => world.Consistent ∧ world.Ordered)
    (fun _ _ _ holds calm taken =>
      ⟨consistent_step holds.1 calm taken, ordered_step holds.2 taken⟩)
    actions World.start last ⟨consistent_start, ordered_start⟩ calm reached
  exact kept.1.sound kept.2

def World.Stuck (event : Event) (world : World) : Prop :=
  world.hub.phase = .checking event true ∧ world.hub.Blocked

theorem stuck_step {event : Event} {action : Action} {next : World} (stuck : world.Stuck event)
    (taken : step action world = some next) : next.Stuck event := by
  obtain ⟨checking, writer, below, locking⟩ := stuck
  have blocked : world.hub.Blocked := ⟨writer, below, locking⟩
  -- The writer in the queue has no step of its own but the one that the guard keeps it from.
  have elsewhere : ∀ {sender : Nat} {stage : Stage}, world.hub.stage sender = stage →
      stage ≠ .locking → writer ≠ sender := by
    rintro sender stage here free rfl
    exact free (here.symm.trans locking)
  unfold step at taken
  split at taken
  next => cases taken
  next hub moved =>
    cases taken
    cases action with
    | receive isGlobal => simp [Hub.step, checking] at moved
    | go => simp [Hub.step, Hub.go, checking, blocked] at moved
    | take =>
        cases moved
        have apart : writer ≠ world.hub.joined := by omega
        exact ⟨checking, writer, Nat.lt_succ_of_lt below, by simp [Hub.move, apart, locking]⟩
    | drain sender =>
        simp only [Hub.step, Hub.drain] at moved
        split at moved
        next buffer holding =>
          cases moved
          exact ⟨checking, writer, below, by
            simp [Hub.move, elsewhere holding (by simp), locking]⟩
        next => cases moved
    | feed sender =>
        simp only [Hub.step, Hub.feed] at moved
        split at moved
        next event rest draining =>
          cases moved
          exact ⟨checking, writer, below, by
            simp [Hub.move, Hub.send, elsewhere draining (by simp), locking]⟩
        next => cases moved
    | lock sender =>
        simp only [Hub.step, Hub.lock] at moved
        split at moved
        next holding =>
          cases moved
          exact ⟨checking, writer, below, by
            simp [Hub.move, elsewhere holding (by simp), locking]⟩
        next draining =>
          cases moved
          exact ⟨checking, writer, below, by
            simp [Hub.move, elsewhere draining (by simp), locking]⟩
        next => cases moved
    | add sender => simp [Hub.step, Hub.add, checking, Phase.guarded] at moved
    | close sender =>
        cases moved
        exact ⟨checking, writer, below, locking⟩

theorem stuck_run {event : Event} (actions : List Action) (last : World)
    (stuck : world.Stuck event) (reached : Machine.run step actions world = some last) :
    last.Stuck event :=
  Machine.invariant_every_run step (World.Stuck event) (fun _ _ _ => stuck_step) actions world
    last stuck reached

end Streams

-- The stream of sender 0 breaks off, and sender 1 gets what came in between.
def reconnect : List Action :=
  [.take, .lock 0, .add 0, .close 0, .receive false, .go, .go, .go, .go, .go, .go, .go,
    .receive false, .go, .go, .go, .take, .drain 1, .feed 1, .feed 1, .lock 1, .add 1,
    .receive false, .go, .go, .go, .go]

theorem reconnect_sound : ∃ last, Machine.run step reconnect World.start = some last ∧
    last.hub.sent 1 = [⟨0, false⟩, ⟨1, false⟩, ⟨2, false⟩] ∧ last.Sound := by
  have sent : (Machine.run step reconnect World.start).map (fun world => world.hub.sent 1) =
      some [⟨0, false⟩, ⟨1, false⟩, ⟨2, false⟩] := by decide
  obtain ⟨last, reached, got⟩ := Option.map_eq_some_iff.mp sent
  exact ⟨last, reached, got, streams_sound reconnect last (by decide) reached⟩

-- Event 1 is dispatched after sender 1 has taken the buffer and before it is registered.
def reconnectTooSlow : List Action :=
  [.take, .lock 0, .add 0, .close 0, .receive false, .go, .go, .go, .go, .go, .go, .go,
    .take, .drain 1, .feed 1, .receive false, .go, .go, .lock 1, .add 1, .take, .lock 2, .add 2]

theorem event_lost : ∃ last, Machine.run step reconnectTooSlow World.start = some last ∧
    last.hub.phase = .idle ∧ (∀ sender < 3, ⟨1, false⟩ ∉ last.hub.sent sender) ∧
      ¬ last.Sound := by
  have facts : (Machine.run step reconnectTooSlow World.start).map (fun world =>
      (world.hub.phase, (List.range 3).map world.hub.sent, world.hub.stage 2,
        world.hub.closed 2, world.ledger.expected 2)) =
      some (.idle, [[], [⟨0, false⟩], []], .added, false, [⟨1, false⟩]) := by decide
  obtain ⟨last, reached, found⟩ := Option.map_eq_some_iff.mp facts
  simp only [Prod.mk.injEq] at found
  obtain ⟨idle, sent, added, opened, expected⟩ := found
  simp only [List.range, List.range.loop, List.map_cons, List.map_nil, List.cons.injEq] at sent
  refine ⟨last, reached, idle, fun sender below => ?_, fun sound => ?_⟩
  · have cases' : sender = 0 ∨ sender = 1 ∨ sender = 2 := by omega
    rcases cases' with rfl | rfl | rfl <;> simp [sent]
  · have delivered := sound.delivered idle 2 added opened
    rw [expected] at delivered
    simp [sent] at delivered

-- A registration asks for the lock while the dispatcher sends to an open sender.
example : (Machine.run step
    [.take, .lock 0, .add 0, .receive false, .go, .take, .lock 1, .go, .go] World.start).map
      (fun last => (last.hub.phase, decide last.hub.Blocked)) =
        some (.checking ⟨0, false⟩ true, true) := by
  decide +kernel

end Frona.Broadcast
