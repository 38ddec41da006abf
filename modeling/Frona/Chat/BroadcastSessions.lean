import Frona.Chat.Broadcast

set_option autoImplicit false

namespace Frona.Broadcast

def Phase.due (sender : Nat) : Phase → List Event
  | sending event rest _ _ => if sender ∈ rest then [event] else []
  | _ => []

/-- How far a sender is with what is for it. -/
def World.Kept (world : World) (sender : Nat) : Prop :=
  match world.hub.stage sender with
  | .absent => world.hub.sent sender = [] ∧ world.ledger.expected sender = []
  | .holding none => world.hub.sent sender = [] ∧ world.ledger.expected sender = []
  | .holding (some buffer) =>
      world.hub.sent sender = [] ∧
        world.ledger.expected sender = world.hub.contents buffer ∧
        buffer < world.hub.buffers ∧ world.hub.pending ≠ some buffer ∧
        ∀ other, world.hub.stage other = .holding (some buffer) → other = sender
  | .draining rest => world.ledger.expected sender = world.hub.sent sender ++ rest
  | .locking => world.hub.sent sender = world.ledger.expected sender
  | .added =>
      world.hub.sent sender <+: world.ledger.expected sender ∧
        (world.hub.closed sender = false → world.ledger.expected sender =
          world.hub.sent sender ++ world.hub.phase.due sender)

def Hub.Dead (hub : Hub) (senders dead : List Nat) : Prop :=
  dead.Pairwise (· < ·) ∧
    ∀ index ∈ dead, ∃ sender, senders[index]? = some sender ∧ hub.closed sender = true

def World.Knows (world : World) : Prop :=
  match world.hub.phase with
  | .idle | .received _ => world.ledger.loose = none
  | .sending _ rest index dead =>
      world.ledger.loose = none ∧ ∃ before, world.hub.registry = some (before ++ rest) ∧
        before.length = index ∧ world.hub.Dead (before ++ rest) dead ∧ ∀ at' ∈ dead, at' < index
  | .removing event dead =>
      ∃ senders, world.hub.registry = some senders ∧ world.hub.Dead senders dead ∧
        ((world.ledger.loose = some event ∧ ∀ index < senders.length, index ∈ dead) ∨
          (world.ledger.loose = none ∧ ∃ index < senders.length, index ∉ dead))
  | .checking event guarded =>
      (guarded = true → ¬ world.hub.Blocked ∧ world.ledger.loose = none) ∧
        ((world.ledger.loose = some event ∧ world.hub.registry = none) ∨
          (world.ledger.loose = none ∧ world.hub.registry ≠ none))
  | .buffering event => world.ledger.loose = some event
  | .looking event =>
      (world.ledger.loose = some event ∧ world.hub.pending ≠ none) ∨
        (world.ledger.loose = none ∧ world.hub.pending = none)
  | .pushing event buffer _ =>
      world.ledger.loose = some event ∧ world.hub.pending = some buffer

structure World.Consistent (world : World) : Prop where
  fresh : ∀ sender, world.hub.stage sender = .absent ↔ world.hub.joined ≤ sender
  kept : ∀ sender, world.Kept sender
  entry : ∀ senders, world.hub.registry = some senders →
    senders ≠ [] ∧ senders.Nodup ∧ ∀ sender ∈ senders, world.hub.stage sender = .added
  listed : ∀ sender, world.hub.stage sender = .added → world.hub.closed sender = false →
    ∃ senders, world.hub.registry = some senders ∧ sender ∈ senders
  quiet : world.ledger.loose ≠ none → world.hub.Quiet
  stored : world.ledger.waiting = world.hub.buffered ++ world.ledger.loose.toList
  bound : ∀ buffer, world.hub.pending = some buffer → buffer < world.hub.buffers
  armed : world.ledger.loose ≠ none → world.ledger.armed = true
  unarmed : world.ledger.armed = false → world.hub.pending = none
  gap : world.hub.registry = none → world.hub.Quiet → world.ledger.loose = none →
    world.ledger.armed = true → world.hub.pending ≠ none
  knows : world.Knows

theorem consistent_start : World.start.Consistent where
  fresh := by simp [World.start, Hub.start]
  kept := by
    intro sender
    exact ⟨rfl, rfl⟩
  entry := by simp [World.start, Hub.start]
  listed := by simp [World.start, Hub.start]
  quiet := by simp [World.start, Ledger.start]
  stored := by simp [World.start, Hub.start, Hub.buffered, Ledger.start]
  bound := by simp [World.start, Hub.start]
  armed := by simp [World.start, Ledger.start]
  unarmed := by simp [World.start, Hub.start]
  gap := by simp [World.start, Ledger.start]
  knows := rfl

section Steps

variable {world : World}

theorem World.Consistent.stored_of_registering (consistent : world.Consistent) (sender : Nat)
    (present : world.hub.stage sender ≠ .absent) (registering : world.hub.stage sender ≠ .added) :
    world.ledger.loose = none := by
  by_contra loose
  have quiet := consistent.quiet loose
  have below : sender < world.hub.joined := by
    have fresh := consistent.fresh sender
    by_contra beyond
    exact present (fresh.mpr (by omega))
  exact registering (quiet sender below)

theorem consistent_receive (isGlobal : Bool) (consistent : world.Consistent)
    (idle : world.hub.phase = .idle) :
    World.Consistent
      { world with
        hub := { world.hub with
          phase := .received { number := world.hub.count, isGlobal }
          count := world.hub.count + 1 } } := by
  have knows := consistent.knows
  simp only [World.Knows, idle] at knows
  refine ⟨consistent.fresh, fun sender => ?_, consistent.entry, consistent.listed,
    consistent.quiet, consistent.stored, consistent.bound, consistent.armed, consistent.unarmed,
    consistent.gap, knows⟩
  have kept := consistent.kept sender
  simpa only [World.Kept, idle, Phase.due] using kept

theorem consistent_close (sender : Nat) (consistent : world.Consistent) :
    World.Consistent
      { world with
        hub := { world.hub with closed := Function.update world.hub.closed sender true } } := by
  have closes : ∀ other, Function.update world.hub.closed sender true other = false →
      world.hub.closed other = false := by
    intro other opened
    by_cases same : other = sender
    next => simp [same] at opened
    next => simpa [same] using opened
  have stays : ∀ other, world.hub.closed other = true →
      Function.update world.hub.closed sender true other = true := by
    intro other closed
    by_cases same : other = sender
    next => simp [same]
    next => simpa [same] using closed
  refine ⟨consistent.fresh, fun other => ?_, consistent.entry, fun other added opened => ?_,
    consistent.quiet, consistent.stored, consistent.bound, consistent.armed, consistent.unarmed,
    consistent.gap, ?_⟩
  · have kept := consistent.kept other
    simp only [World.Kept] at kept ⊢
    split <;> rename_i stage <;> simp only [stage] at kept
    case h_6 => exact ⟨kept.1, fun opened => kept.2 (closes other opened)⟩
    all_goals exact kept
  · exact consistent.listed other added (closes other opened)
  · have knows := consistent.knows
    have dead : ∀ senders dead, world.hub.Dead senders dead →
        Hub.Dead { world.hub with closed := Function.update world.hub.closed sender true }
          senders dead := by
      intro senders dead known
      refine ⟨known.1, fun index member => ?_⟩
      obtain ⟨other, found, closed⟩ := known.2 index member
      exact ⟨other, found, stays other closed⟩
    simp only [World.Knows] at knows ⊢
    split <;> rename_i phase <;> simp only [phase] at knows
    case h_3 =>
      obtain ⟨loose, before, entry, length, known, below⟩ := knows
      exact ⟨loose, before, entry, length, dead _ _ known, below⟩
    case h_4 =>
      obtain ⟨senders, entry, known, rest⟩ := knows
      exact ⟨senders, entry, dead _ _ known, rest⟩
    all_goals exact knows

theorem consistent_take (consistent : world.Consistent) (stored : world.ledger.loose = none) :
    World.Consistent
      { hub := { world.hub.move world.hub.joined (.holding world.hub.pending) with
          pending := none
          joined := world.hub.joined + 1 }
        ledger := world.ledger.note .take world.hub } := by
  have absent : world.hub.stage world.hub.joined = .absent :=
    (consistent.fresh _).mpr (Nat.le_refl _)
  have waiting : world.ledger.waiting = world.hub.buffered := by
    simpa [stored] using consistent.stored
  have elsewhere : ∀ {other : Nat} {stage : Stage}, world.hub.stage other = stage →
      stage ≠ .absent → other ≠ world.hub.joined := by
    rintro other stage here present rfl
    exact present (here.symm.trans absent)
  refine ⟨fun other => ?_, fun other => ?_, fun senders entry => ?_, fun other added => ?_,
    fun loose => absurd stored loose, ?_, by simp, fun loose => absurd stored loose, fun _ => rfl,
    fun _ quiet => ?_, ?_⟩
  · have fresh := consistent.fresh other
    by_cases same : other = world.hub.joined
    next => simp [Hub.move, same]
    next =>
      simp only [Hub.move, Function.update_of_ne same, fresh]
      omega
  · by_cases same : other = world.hub.joined
    next =>
      subst same
      have kept := consistent.kept world.hub.joined
      simp only [World.Kept, absent] at kept
      cases pending : world.hub.pending with
      | none =>
          simp only [Hub.buffered, pending] at waiting
          simp [World.Kept, Hub.move, Ledger.note, pending, kept.1, waiting]
      | some buffer =>
          simp only [Hub.buffered, pending] at waiting
          have bound := consistent.bound buffer pending
          simp only [World.Kept, Hub.move, Ledger.note, pending, Function.update_self, kept.1,
            waiting]
          refine ⟨trivial, trivial, bound, by simp, fun other held => ?_⟩
          by_contra different
          rw [Function.update_of_ne different] at held
          -- The buffer of another registration left the cache before.
          have out := consistent.kept other
          simp only [World.Kept, held] at out
          exact out.2.2.2.1 pending
    next =>
      have kept := consistent.kept other
      simp only [World.Kept, Hub.move, Ledger.note, Function.update_of_ne same] at kept ⊢
      split <;> rename_i stage <;> simp only [stage] at kept
      case h_3 buffer =>
        obtain ⟨sent, expected, bound, cached, unique⟩ := kept
        refine ⟨sent, expected, bound, by simp, fun third held => ?_⟩
        by_cases taken : third = world.hub.joined
        next =>
          simp only [taken, Function.update_self, Stage.holding.injEq] at held
          exact absurd held cached
        next => exact unique third (by simpa [taken] using held)
      all_goals exact kept
  · obtain ⟨nonempty, nodup, added⟩ := consistent.entry senders entry
    refine ⟨nonempty, nodup, fun other member => ?_⟩
    have here := added other member
    simpa [Hub.move, elsewhere here (by simp)] using here
  · intro opened
    by_cases same : other = world.hub.joined
    next => simp [Hub.move, same] at added
    next => exact consistent.listed other (by simpa [Hub.move, same] using added) opened
  · simp [Ledger.note, stored, Hub.buffered]
  · have last := quiet world.hub.joined (by simp)
    simp [Hub.move] at last
  · have knows := consistent.knows
    have free : ∀ hub : Hub, (¬ world.hub.Blocked) → hub.joined = world.hub.joined + 1 →
        hub.stage = Function.update world.hub.stage world.hub.joined
          (.holding world.hub.pending) → ¬ hub.Blocked := by
      rintro hub unblocked joined stage ⟨other, below, locking⟩
      rw [stage] at locking
      by_cases same : other = world.hub.joined
      next => simp [same] at locking
      next =>
        refine unblocked ⟨other, by omega, by simpa [same] using locking⟩
    simp only [World.Knows, Ledger.note, Hub.move] at knows ⊢
    split <;> rename_i phase <;> simp only [phase, stored] at knows
    case h_5 =>
      refine ⟨fun guarded => ⟨?_, stored⟩, Or.inr ⟨stored, by simpa using knows.2⟩⟩
      exact free _ (knows.1 guarded).1 rfl rfl
    all_goals simp_all [Hub.Dead]

theorem knows_move {hub : Hub} (consistent : world.Consistent) (stored : world.ledger.loose = none)
    (phase : hub.phase = world.hub.phase) (registry : hub.registry = world.hub.registry)
    (pending : hub.pending = world.hub.pending) (closed : hub.closed = world.hub.closed)
    (unblocked : ∀ event, world.hub.phase = .checking event true → ¬ world.hub.Blocked →
      ¬ hub.Blocked) :
    World.Knows { world with hub } := by
  have knows := consistent.knows
  simp only [World.Knows, phase, registry, pending, Hub.Dead, closed] at knows ⊢
  split <;> rename_i here <;> simp only [here] at knows
  case h_5 event guarded =>
    refine ⟨fun held => ⟨?_, stored⟩, knows.2⟩
    subst held
    exact unblocked event here (knows.1 rfl).1
  all_goals exact knows

theorem below_joined (consistent : world.Consistent) {sender : Nat}
    (present : world.hub.stage sender ≠ .absent) : sender < world.hub.joined := by
  by_contra beyond
  exact present ((consistent.fresh sender).mpr (by omega))

theorem fresh_move (consistent : world.Consistent) {sender : Nat} {stage : Stage}
    (present : world.hub.stage sender ≠ .absent) (stays : stage ≠ .absent) (other : Nat) :
    (world.hub.move sender stage).stage other = .absent ↔ world.hub.joined ≤ other := by
  have below := below_joined consistent present
  by_cases same : other = sender
  next =>
    subst same
    simp only [Hub.move, Function.update_self, stays, false_iff]
    omega
  next => simpa [Hub.move, same] using consistent.fresh other

theorem not_quiet (consistent : world.Consistent) {sender : Nat} {stage : Stage}
    (present : world.hub.stage sender ≠ .absent) (registering : stage ≠ .added) :
    ¬ (world.hub.move sender stage).Quiet := by
  intro quiet
  have here := quiet sender (below_joined consistent present)
  exact registering (by simpa [Hub.move] using here)

theorem not_blocked_move {sender : Nat} {stage : Stage} (free : stage ≠ .locking)
    (unblocked : ¬ world.hub.Blocked) : ¬ (world.hub.move sender stage).Blocked := by
  rintro ⟨other, below, locking⟩
  by_cases same : other = sender
  next =>
    rw [same] at locking
    exact free (by simpa [Hub.move] using locking)
  next => exact unblocked ⟨other, below, by simpa [Hub.move, same] using locking⟩

theorem kept_move (consistent : world.Consistent) {sender other : Nat} {stage : Stage}
    {sent : Nat → List Event} (different : other ≠ sender)
    (same : sent other = world.hub.sent other)
    (free : ∀ buffer, stage ≠ .holding (some buffer)) :
    World.Kept { world with hub := { world.hub.move sender stage with sent } } other := by
  have kept := consistent.kept other
  simp only [World.Kept, Hub.move, Function.update_of_ne different, same] at kept ⊢
  split <;> rename_i here <;> simp only [here] at kept
  case h_3 buffer =>
    obtain ⟨empty, expected, bound, cached, unique⟩ := kept
    refine ⟨empty, expected, bound, cached, fun third held => ?_⟩
    by_cases moved : third = sender
    next =>
      rw [moved, Function.update_self] at held
      exact absurd held (free buffer)
    next => exact unique third (by simpa [moved] using held)
  all_goals exact kept

theorem consistent_move {sender : Nat} {stage : Stage} {sent : Nat → List Event}
    (consistent : world.Consistent)
    (present : world.hub.stage sender ≠ .absent) (unadded : world.hub.stage sender ≠ .added)
    (free : ∀ buffer, stage ≠ .holding (some buffer)) (stays : stage ≠ .absent)
    (unfinished : stage ≠ .added)
    (others : ∀ other, other ≠ sender → sent other = world.hub.sent other)
    (kept : World.Kept { world with hub := { world.hub.move sender stage with sent } } sender)
    (unblocked : stage = .locking → ∀ event, world.hub.phase ≠ .checking event true) :
    World.Consistent { world with hub := { world.hub.move sender stage with sent } } := by
  have stored := consistent.stored_of_registering sender present unadded
  have still : ∀ other, (world.hub.move sender stage).stage other = .added ↔
      world.hub.stage other = .added := by
    intro other
    by_cases same : other = sender
    next => simp [Hub.move, same, unfinished, unadded]
    next => simp [Hub.move, same]
  refine ⟨fresh_move consistent present stays, fun other => ?_, fun senders entry => ?_,
    fun other added => consistent.listed other ((still other).mp added),
    fun loose => absurd stored loose, consistent.stored, consistent.bound, consistent.armed,
    consistent.unarmed, fun _ quiet => absurd quiet (not_quiet consistent present unfinished), ?_⟩
  · by_cases same : other = sender
    next => exact same ▸ kept
    next => exact kept_move consistent same (others other same) free
  · obtain ⟨nonempty, nodup, added⟩ := consistent.entry senders entry
    exact ⟨nonempty, nodup, fun other member => (still other).mpr (added other member)⟩
  · refine knows_move consistent stored rfl rfl rfl rfl fun event checking open' => ?_
    exact not_blocked_move (fun locking => unblocked locking event checking) open'

theorem consistent_feed {sender : Nat} {event : Event} {rest : List Event}
    (consistent : world.Consistent)
    (draining : world.hub.stage sender = .draining (event :: rest))
    (opened : world.hub.closed sender = false) :
    World.Consistent
      { world with hub := (world.hub.send sender event).move sender (.draining rest) } := by
  have kept := consistent.kept sender
  simp only [World.Kept, draining] at kept
  refine @consistent_move world sender (.draining rest) (world.hub.send sender event).sent
    consistent (by simp [draining]) (by simp [draining]) (by simp) (by simp) (by simp)
    (fun other different => by simp [Hub.send, different]) ?_ (by simp)
  simp [World.Kept, Hub.move, Hub.send, opened, kept]

theorem consistent_lock {sender : Nat} (consistent : world.Consistent)
    (done : world.hub.stage sender = .holding none ∨ world.hub.stage sender = .draining [])
    (calm : world.CalmLock) :
    World.Consistent { world with hub := world.hub.move sender .locking } := by
  have kept := consistent.kept sender
  refine @consistent_move world sender .locking world.hub.sent consistent ?_ ?_
    (by simp) (by simp) (by simp) (fun _ _ => rfl) ?_ ?_
  · rcases done with here | here <;> simp [here]
  · rcases done with here | here <;> simp [here]
  · rcases done with here | here <;> simp only [World.Kept, here] at kept
    next => simp [World.Kept, Hub.move, kept]
    next => simp [World.Kept, Hub.move, kept]
  · intro _ event checking
    simp [World.CalmLock, checking] at calm

theorem consistent_drain {sender buffer : Nat} (consistent : world.Consistent)
    (holding : world.hub.stage sender = .holding (some buffer)) :
    World.Consistent
      { world with
        hub := { world.hub.move sender (.draining (world.hub.contents buffer)) with
          contents := Function.update world.hub.contents buffer [] } } := by
  have kept := consistent.kept sender
  simp only [World.Kept, holding] at kept
  obtain ⟨empty, expected, bound, cached, unique⟩ := kept
  have moved : World.Consistent
      { world with hub := world.hub.move sender (.draining (world.hub.contents buffer)) } := by
    refine @consistent_move world sender _ world.hub.sent consistent (by simp [holding])
      (by simp [holding]) (by simp) (by simp) (by simp) (fun _ _ => rfl) ?_ (by simp)
    simp [World.Kept, Hub.move, empty, expected]
  obtain ⟨fresh, keeps, entry, listed, quiet, stored, within, armed, unarmed, gap, knows⟩ := moved
  refine ⟨fresh, fun other => ?_, entry, listed, quiet, ?_, within, armed, unarmed, gap, knows⟩
  · have here := keeps other
    by_cases same : other = sender
    next =>
      subst same
      simpa [World.Kept, Hub.move] using here
    next =>
      have before := consistent.kept other
      simp only [World.Kept, Hub.move, Function.update_of_ne same] at here before ⊢
      split <;> rename_i stage <;> simp only [stage] at here before
      case h_3 held =>
        have apart : held ≠ buffer := by
          rintro rfl
          exact same (unique other stage)
        simpa [apart] using here
      all_goals exact here
  · have apart : ∀ cached', world.hub.pending = some cached' → cached' ≠ buffer := by
      rintro cached' here rfl
      exact cached here
    simp only [Hub.buffered, Hub.move] at stored ⊢
    cases pending : world.hub.pending with
    | none => simpa [pending] using stored
    | some cached' => simpa [pending, apart cached' pending] using stored

theorem consistent_add {sender : Nat} (consistent : world.Consistent)
    (locking : world.hub.stage sender = .locking) (free : world.hub.phase.guarded = false) :
    World.Consistent
      { world with
        hub := { world.hub.move sender .added with
          registry := some (world.hub.registry.getD [] ++ [sender]) } } := by
  have stored := consistent.stored_of_registering sender (by simp [locking]) (by simp [locking])
  have kept := consistent.kept sender
  simp only [World.Kept, locking] at kept
  have still : ∀ other, world.hub.stage other = .added →
      (world.hub.move sender .added).stage other = .added := by
    intro other added
    by_cases same : other = sender
    next => simp [Hub.move, same]
    next => simpa [Hub.move, same] using added
  have old : ∀ other ∈ world.hub.registry.getD [], world.hub.stage other = .added := by
    intro other member
    cases registry : world.hub.registry with
    | none => simp [registry] at member
    | some senders =>
        rw [registry] at member
        exact (consistent.entry senders registry).2.2 other member
  refine ⟨fresh_move consistent (by simp [locking]) (by simp), fun other => ?_,
    fun senders entry => ?_, fun other added opened => ?_, fun loose => absurd stored loose,
    consistent.stored, consistent.bound, consistent.armed, consistent.unarmed, by simp, ?_⟩
  · by_cases same : other = sender
    next =>
      subst same
      have nothing : world.hub.phase.due other = [] := by
        cases phase : world.hub.phase with
        | sending => simp [phase, Phase.guarded] at free
        | _ => rfl
      simp [World.Kept, Hub.move, kept, nothing]
    next =>
      have moved := @kept_move world consistent sender other .added world.hub.sent same rfl
        (by simp)
      exact moved
  · obtain rfl := Option.some.inj entry
    refine ⟨by simp, ?_, fun other member => ?_⟩
    · rw [List.nodup_append]
      refine ⟨?_, by simp, fun other member last here => ?_⟩
      · cases registry : world.hub.registry with
        | none => simp
        | some senders => exact (consistent.entry senders registry).2.1
      · have added := old other member
        rw [List.mem_singleton] at here
        rintro rfl
        rw [here, locking] at added
        cases added
    · rcases List.mem_append.mp member with before | last
      · exact still other (old other before)
      · simp [Hub.move, List.mem_singleton.mp last]
  · refine ⟨_, rfl, ?_⟩
    by_cases same : other = sender
    next => simp [same]
    next =>
      obtain ⟨senders, registry, member⟩ :=
        consistent.listed other (by simpa [Hub.move, same] using added) opened
      simp [registry, member]
  · have knows := consistent.knows
    simp only [World.Knows, Hub.move] at knows ⊢
    split <;> rename_i phase <;> simp only [phase, stored] at knows
    case h_4 event dead =>
      obtain ⟨senders, registry, ⟨ascending, closed⟩, rest⟩ := knows
      simp only [reduceCtorEq, false_and, false_or, true_and] at rest
      obtain ⟨index, below, alive⟩ := rest
      refine ⟨senders ++ [sender], by simp [registry], ⟨ascending, fun index member => ?_⟩,
        Or.inr ⟨stored, index, by simp; omega, alive⟩⟩
      obtain ⟨other, found, gone⟩ := closed index member
      obtain ⟨inside, _⟩ := List.getElem?_eq_some_iff.mp found
      exact ⟨other, by rw [List.getElem?_append_left inside, found], gone⟩
    case h_5 event guarded =>
      refine ⟨fun held => ?_, Or.inr ⟨stored, by simp⟩⟩
      simp [phase, Phase.guarded, held] at free
    all_goals simp_all [Phase.guarded]

end Steps

end Frona.Broadcast
