import Frona.Machine.Lists
import Frona.Machine.Run
import Frona.Text.Utf8
import Mathlib.Data.List.Nodup

set_option autoImplicit false

namespace Frona.SsoStates

open Utf8 (Text)

-- `STATE_TTL_MINUTES`
def stateTtl : Nat := 10 * 60 * 1000000000

structure PendingState where
  state : Text
  expiry : Nat
  deriving DecidableEq

abbrev PendingStates := List PendingState

namespace PendingStates

def prune (states : PendingStates) (now : Nat) : PendingStates :=
  states.filter fun pending => now < pending.expiry

def remove (states : PendingStates) (state : Text) : PendingStates :=
  states.filter fun pending => pending.state ≠ state

def insert (states : PendingStates) (pending : PendingState) : PendingStates :=
  states.remove pending.state ++ [pending]

end PendingStates

def invalidState : Text := "Invalid or expired SSO state".toList

def takeState (states : PendingStates) (state : Text) : PendingStates × Except Text PendingState :=
  match states.find? fun pending => pending.state = state with
  | some pending => (states.remove state, .ok pending)
  | none => (states, .error invalidState)

structure Issued where
  state : Text
  expiry : Nat
  time : Nat

structure World where
  now : Nat
  states : PendingStates
  -- The calls of `get_authorization_url` that have drawn a state, and wait for the lock
  waiting : List PendingState
  drawn : List Text
  -- What was handed out, and the callbacks that got through. No step reads these.
  issued : List Issued
  accepted : List (Text × Nat)

inductive Event where
  | pass (time : Nat)
  | authorize (state : Text)
  | store (index : Nat)
  | callback (state : Text)

namespace World

variable (world : World)

def store (pending : PendingState) : World :=
  { world with
    states := (world.states.prune world.now).insert pending
    waiting := world.waiting.erase pending
    issued := world.issued ++ [⟨pending.state, pending.expiry, world.now⟩] }

def callback (state : Text) : World :=
  match takeState world.states state with
  | (states, .ok _) =>
      { world with states := states, accepted := world.accepted ++ [(state, world.now)] }
  | (_, .error _) => world

end World

def step : Event → World → Option World
  | .pass time, world => some { world with now := world.now + time }
  | .authorize state, world =>
      if state ∈ world.drawn then none
      else some { world with
        waiting := world.waiting ++ [⟨state, world.now + stateTtl⟩]
        drawn := state :: world.drawn }
  | .store index, world => world.waiting[index]?.map world.store
  | .callback state, world => some (world.callback state)

def start : World := ⟨0, [], [], [], [], []⟩

/-- States that were handed out are accepted, each of them once and within ten minutes, and after
each authorization there are no more of them than were handed out in the ten minutes before it. -/
structure Sound (world : World) : Prop where
  fresh : ∀ use ∈ world.accepted, ∃ issued ∈ world.issued, issued.state = use.1 ∧
    issued.time ≤ use.2 ∧ use.2 ≤ issued.time + stateTtl
  once : (world.accepted.map Prod.fst).Nodup
  bounded : ∀ last ∈ world.issued.getLast?, world.states.length ≤
    (world.issued.filter fun issued => last.time < issued.time + stateTtl).length

def Unpruned (all : List Issued) (issued : Issued) : Prop :=
  ∃ before after, all = before ++ issued :: after ∧ ∀ later ∈ after, later.time < issued.expiry

/-- The callback does not come late, unless the state was used or another one was handed out from
when it expired. -/
def Timely : Event → World → Prop
  | .callback state, world => ∀ issued, Unpruned world.issued issued → issued.state = state →
      state ∉ world.accepted.map Prod.fst → world.now ≤ issued.time + stateTtl
  | _, _ => True

section Pruning

variable {all : List Issued} {issued new : Issued}

theorem unpruned_append : Unpruned (all ++ [new]) issued ↔
    issued = new ∨ Unpruned all issued ∧ new.time < issued.expiry := by
  constructor
  · rintro ⟨before, after, whole, alive⟩
    rcases List.eq_nil_or_concat after with rfl | ⟨init, last, rfl⟩
    · exact .inl (List.append_inj_right' whole rfl |> List.cons.inj |>.1 |> Eq.symm)
    · rw [List.concat_eq_append, ← List.cons_append, ← List.append_assoc] at whole
      obtain ⟨rfl, same⟩ := List.append_inj' whole rfl
      obtain rfl := (List.cons.inj same).1
      refine .inr ⟨⟨before, init, rfl, fun later member => alive later (by simp [member])⟩, ?_⟩
      exact alive new (by simp)
  · rintro (rfl | ⟨⟨before, after, rfl, alive⟩, later⟩)
    · exact ⟨all, [], rfl, by simp⟩
    · refine ⟨before, after ++ [new], by simp, fun other member => ?_⟩
      rcases List.mem_append.mp member with inside | last
      · exact alive other inside
      · obtain rfl := List.mem_singleton.mp last
        exact later

theorem Unpruned.mem (unpruned : Unpruned all issued) : issued ∈ all := by
  obtain ⟨before, after, rfl, -⟩ := unpruned
  simp

theorem Unpruned.last (unpruned : Unpruned all issued) {last : Issued}
    (ends : last ∈ all.getLast?) : issued = last ∨ last.time < issued.expiry := by
  obtain ⟨init, rfl⟩ := List.getLast?_eq_some_iff.mp ends
  exact (unpruned_append.mp unpruned).imp id And.right

end Pruning

structure Tracked (world : World) : Prop where
  states : ∀ pending, pending ∈ world.states ↔ ∃ issued, Unpruned world.issued issued ∧
    issued.state = pending.state ∧ issued.expiry = pending.expiry ∧
    pending.state ∉ world.accepted.map Prod.fst
  single : (world.states.map PendingState.state).Nodup
  distinct : (world.waiting.map PendingState.state ++ world.issued.map Issued.state).Nodup
  drawn : ∀ state ∈ world.waiting.map PendingState.state ++ world.issued.map Issued.state,
    state ∈ world.drawn
  waiting : ∀ pending ∈ world.waiting, pending.expiry ≤ world.now + stateTtl
  issued : ∀ issued ∈ world.issued, issued.time ≤ world.now ∧ issued.expiry ≤ issued.time + stateTtl
  used : ∀ state ∈ world.accepted.map Prod.fst, state ∈ world.issued.map Issued.state
  once : (world.accepted.map Prod.fst).Nodup

section Steps

variable {world : World}

theorem Tracked.bounded (tracked : Tracked world) : ∀ last ∈ world.issued.getLast?,
    world.states.length ≤
      (world.issued.filter fun issued => last.time < issued.time + stateTtl).length := by
  intro last ends
  have subset : world.states.map PendingState.state ⊆
      (world.issued.filter fun issued => last.time < issued.time + stateTtl).map Issued.state := by
    intro state member
    obtain ⟨pending, stored, rfl⟩ := List.mem_map.mp member
    obtain ⟨issued, unpruned, same, -⟩ := (tracked.states pending).mp stored
    have bounds := tracked.issued issued unpruned.mem
    refine List.mem_map.mpr ⟨issued, List.mem_filter.mpr ⟨unpruned.mem, ?_⟩, same⟩
    have positive : 0 < stateTtl := by decide
    rcases unpruned.last ends with rfl | alive <;> simp <;> omega
  simpa using tracked.single.length_le_of_subset subset

theorem issued_eq (tracked : Tracked world) {first second : Issued} (inside : first ∈ world.issued)
    (inside' : second ∈ world.issued) (same : first.state = second.state) : first = second :=
  List.inj_on_of_nodup_map (List.nodup_append.mp tracked.distinct).2.1 inside inside' same

theorem Tracked.pass (tracked : Tracked world) (time : Nat) :
    Tracked { world with now := world.now + time } where
  __ := tracked
  waiting pending member := (tracked.waiting pending member).trans (by simp)
  issued issued member := ⟨(tracked.issued issued member).1.trans (by simp),
    (tracked.issued issued member).2⟩

theorem Tracked.authorize (tracked : Tracked world) {state : Text} (fresh : state ∉ world.drawn) :
    Tracked { world with
      waiting := world.waiting ++ [⟨state, world.now + stateTtl⟩]
      drawn := state :: world.drawn } := by
  have moved : ((world.waiting ++ [⟨state, world.now + stateTtl⟩] : PendingStates).map
      PendingState.state ++
      world.issued.map Issued.state).Perm
      (state :: (world.waiting.map PendingState.state ++ world.issued.map Issued.state)) := by
    simp [List.perm_middle]
  refine { tracked with distinct := ?_, drawn := ?_, waiting := ?_ }
  · rw [moved.nodup_iff, List.nodup_cons]
    exact ⟨fun member => fresh (tracked.drawn state member), tracked.distinct⟩
  · intro other member
    rcases List.mem_cons.mp (moved.mem_iff.mp member) with rfl | known
    · exact List.mem_cons_self
    · exact List.mem_cons_of_mem _ (tracked.drawn other known)
  · intro pending member
    rcases List.mem_append.mp member with known | new
    · exact tracked.waiting pending known
    · obtain rfl := List.mem_singleton.mp new
      exact Nat.le_refl _

theorem Tracked.apart (tracked : Tracked world) {pending : PendingState}
    (waits : pending ∈ world.waiting) {issued : Issued} (inside : issued ∈ world.issued) :
    issued.state ≠ pending.state :=
  fun same => (List.nodup_append.mp tracked.distinct).2.2 _ (List.mem_map_of_mem waits) _
    (List.mem_map_of_mem inside) same.symm

theorem Tracked.store (tracked : Tracked world) {pending : PendingState}
    (waits : pending ∈ world.waiting) : Tracked (world.store pending) := by
  have moved : ((world.waiting.erase pending).map PendingState.state ++
      (world.store pending).issued.map Issued.state).Perm
      (world.waiting.map PendingState.state ++ world.issued.map Issued.state) := by
    have waiting := ((List.perm_cons_erase waits).map PendingState.state).append_right
      (world.issued.map Issued.state)
    refine List.Perm.trans ?_ waiting.symm
    rw [World.store, List.map_append, ← List.append_assoc]
    exact List.perm_append_singleton _ _
  have unused : pending.state ∉ world.accepted.map Prod.fst := by
    intro member
    obtain ⟨issued, inside, same⟩ := List.mem_map.mp (tracked.used _ member)
    exact tracked.apart waits inside same
  have others : ∀ other, other ∈ (world.states.prune world.now).remove pending.state ↔
      other ∈ world.states ∧ world.now < other.expiry := by
    intro other
    simp only [PendingStates.remove, PendingStates.prune, List.mem_filter, decide_eq_true_eq]
    refine ⟨And.left, fun kept => ⟨kept, fun same => ?_⟩⟩
    obtain ⟨issued, unpruned, same', -⟩ := (tracked.states other).mp kept.1
    exact tracked.apart waits unpruned.mem (same'.trans same)
  refine { states := ?_, single := ?_, distinct := ?_, drawn := ?_, waiting := ?_, issued := ?_,
           used := ?_, once := tracked.once }
  · intro other
    simp only [World.store, PendingStates.insert, List.mem_append, others, List.mem_singleton,
      unpruned_append]
    constructor
    · rintro (⟨stored, alive⟩ | rfl)
      · obtain ⟨issued, unpruned, same, expiry, free⟩ := (tracked.states other).mp stored
        exact ⟨issued, .inr ⟨unpruned, expiry ▸ alive⟩, same, expiry, free⟩
      · exact ⟨_, .inl rfl, rfl, rfl, unused⟩
    · rintro ⟨issued, rfl | ⟨unpruned, alive⟩, same, expiry, free⟩
      · obtain ⟨state, until_⟩ := other
        obtain rfl : pending.state = state := same
        obtain rfl : pending.expiry = until_ := expiry
        exact .inr rfl
      · exact .inl ⟨(tracked.states other).mpr ⟨issued, unpruned, same, expiry, free⟩,
          expiry ▸ alive⟩
  · simp only [World.store, PendingStates.insert, List.map_append, List.map_cons, List.map_nil]
    refine Machine.nodup_snoc.mpr ⟨?_, fun member => ?_⟩
    · exact tracked.single.sublist ((List.filter_sublist.trans List.filter_sublist).map _)
    · obtain ⟨kept, inside, same⟩ := List.mem_map.mp member
      exact absurd same (by simpa [PendingStates.remove] using (List.mem_filter.mp inside).2)
  · exact moved.nodup_iff.mpr tracked.distinct
  · exact fun state member => tracked.drawn state (moved.mem_iff.mp member)
  · exact fun other member => tracked.waiting other (List.mem_of_mem_erase member)
  · intro issued member
    rcases List.mem_append.mp member with known | new
    · exact tracked.issued issued known
    · obtain rfl := List.mem_singleton.mp new
      exact ⟨Nat.le_refl _, tracked.waiting pending waits⟩
  · intro state member
    simp only [World.store, List.map_append, List.mem_append]
    exact .inl (tracked.used state member)

theorem callback_cases (world : World) (state : Text) :
    (∃ pending ∈ world.states, pending.state = state ∧
      world.callback state = { world with
        states := world.states.remove state
        accepted := world.accepted ++ [(state, world.now)] }) ∨
    (∀ pending ∈ world.states, pending.state ≠ state) ∧ world.callback state = world := by
  unfold World.callback takeState
  cases found : world.states.find? fun pending => pending.state = state with
  | some pending =>
      have same : pending.state = state := by simpa using List.find?_some found
      exact .inl ⟨pending, List.mem_of_find?_eq_some found, same, rfl⟩
  | none =>
      refine .inr ⟨fun pending member => ?_, rfl⟩
      simpa using List.find?_eq_none.mp found pending member

theorem Tracked.take (tracked : Tracked world) {pending : PendingState}
    (stored : pending ∈ world.states) :
    Tracked { world with
      states := world.states.remove pending.state
      accepted := world.accepted ++ [(pending.state, world.now)] } := by
  obtain ⟨issued, unpruned, same, -, unused⟩ := (tracked.states pending).mp stored
  refine { tracked with states := ?_, single := ?_, used := ?_, once := ?_ }
  · intro other
    simp only [PendingStates.remove, List.mem_filter, tracked.states other, List.map_append,
      List.mem_append, decide_eq_true_eq, List.map_cons, List.map_nil, List.mem_singleton, not_or]
    constructor
    · rintro ⟨⟨first, unpruned, same, expiry, free⟩, apart⟩
      exact ⟨first, unpruned, same, expiry, free, apart⟩
    · rintro ⟨first, unpruned, same, expiry, free, apart⟩
      exact ⟨⟨first, unpruned, same, expiry, free⟩, apart⟩
  · exact tracked.single.sublist (List.filter_sublist.map _)
  · intro state member
    rw [List.map_append] at member
    rcases List.mem_append.mp member with known | new
    · exact tracked.used state known
    · obtain rfl := List.mem_singleton.mp new
      exact same ▸ List.mem_map_of_mem unpruned.mem
  · rw [List.map_append]
    exact Machine.nodup_snoc.mpr ⟨tracked.once, unused⟩

theorem Tracked.step (tracked : Tracked world) {event : Event} {next : World}
    (taken : step event world = some next) : Tracked next := by
  cases event with
  | pass time =>
      obtain rfl := Option.some.inj taken
      exact tracked.pass time
  | authorize state =>
      simp only [SsoStates.step] at taken
      split at taken
      next => cases taken
      next fresh =>
        obtain rfl := Option.some.inj taken
        exact tracked.authorize fresh
  | store index =>
      obtain ⟨pending, waits, rfl⟩ := Option.map_eq_some_iff.mp taken
      exact tracked.store (List.mem_of_getElem? waits)
  | callback state =>
      obtain rfl := Option.some.inj taken
      rcases callback_cases world state with ⟨pending, stored, rfl, same⟩ | ⟨-, same⟩
      · rw [same]
        exact tracked.take stored
      · rwa [same]

end Steps

section Runs

/-- Each state that got through was handed out at most ten minutes before. -/
def Fresh (world : World) : Prop :=
  ∀ use ∈ world.accepted, ∃ issued ∈ world.issued, issued.state = use.1 ∧
    issued.time ≤ use.2 ∧ use.2 ≤ issued.time + stateTtl

theorem Tracked.sound {world : World} (tracked : Tracked world) (fresh : Fresh world) :
    Sound world :=
  ⟨fresh, tracked.once, tracked.bounded⟩

theorem tracked_start : Tracked start where
  states := by simp [start, Unpruned]
  single := by simp [start]
  distinct := by simp [start]
  drawn := by simp [start]
  waiting := by simp [start]
  issued := by simp [start]
  used := by simp [start]
  once := by simp [start]

theorem Fresh.step {world next : World} {event : Event} (fresh : Fresh world)
    (tracked : Tracked world) (timely : Timely event world) (taken : step event world = some next) :
    Fresh next := by
  cases event with
  | pass time =>
      obtain rfl := Option.some.inj taken
      exact fresh
  | authorize state =>
      simp only [SsoStates.step] at taken
      split at taken
      next => cases taken
      next =>
        obtain rfl := Option.some.inj taken
        exact fresh
  | store index =>
      obtain ⟨pending, -, rfl⟩ := Option.map_eq_some_iff.mp taken
      intro use member
      obtain ⟨issued, inside, known⟩ := fresh use member
      exact ⟨issued, List.mem_append_left _ inside, known⟩
  | callback state =>
      obtain rfl := Option.some.inj taken
      rcases callback_cases world state with ⟨pending, stored, rfl, same⟩ | ⟨-, same⟩
      · rw [same]
        intro use member
        rcases List.mem_append.mp member with known | new
        · exact fresh use known
        · obtain rfl := List.mem_singleton.mp new
          obtain ⟨issued, unpruned, named, -, unused⟩ := (tracked.states pending).mp stored
          exact ⟨issued, unpruned.mem, named, (tracked.issued issued unpruned.mem).1,
            timely issued unpruned named unused⟩
      · rwa [same]

theorem timely_of_fresh {world next : World} {event : Event} (tracked : Tracked world)
    (taken : step event world = some next) (fresh : Fresh next) : Timely event world := by
  cases event with
  | pass | authorize | store => trivial
  | callback state =>
      obtain rfl := Option.some.inj taken
      intro issued unpruned named unused
      rcases callback_cases world state with ⟨pending, stored, rfl, same⟩ | ⟨absent, -⟩
      · rw [same] at fresh
        obtain ⟨other, inside, named', -, soon⟩ := fresh (pending.state, world.now) (by simp)
        obtain rfl := issued_eq tracked inside unpruned.mem (named'.trans named.symm)
        exact soon
      · have stored : (⟨state, issued.expiry⟩ : PendingState) ∈ world.states :=
          (tracked.states _).mpr ⟨issued, unpruned, named, rfl, unused⟩
        exact absurd rfl (absent _ stored)

/-- States are accepted as they should be throughout a run exactly when no callback comes with one
that is too old and that nothing has removed. -/
theorem sound_iff_timely (events : List Event) (last : World)
    (reached : Machine.run step events start = some last) :
    Machine.Always step Sound events start ↔ Machine.Guarded step Timely events start :=
  Machine.always_iff_guarded_of
    (fun (world : World) (known : Tracked world ∧ Fresh world) => known.1.sound known.2)
    (fun _ _ _ known taken timely => ⟨known.1.step taken, known.2.step known.1 timely taken⟩)
    (fun _ _ _ known taken sound => timely_of_fresh known.1 taken sound.fresh)
    events start last ⟨tracked_start, by simp [Fresh, start]⟩ reached

def stateA : Text := "a".toList

-- A state that is used when its ten minutes end
def inTime : List Event := [.authorize stateA, .store 0, .pass stateTtl, .callback stateA]

-- Nothing else was handed out, so the state is still there an hour later.
def late : List Event := [.authorize stateA, .store 0, .pass (6 * stateTtl), .callback stateA]

theorem sound_iff_timely_inTime : Machine.Always step Sound inTime start :=
  (sound_iff_timely inTime _ rfl).mpr
    ⟨trivial, trivial, trivial, fun _ _ _ _ => Nat.le_add_left _ _, trivial⟩

theorem late_accepted : ¬Machine.Always step Sound late start := by
  intro always
  have sound := always.2.2.2.2
  obtain ⟨issued, inside, -, -, soon⟩ := sound.fresh (stateA, 0 + 6 * stateTtl) (by decide)
  obtain rfl := List.mem_singleton.mp inside
  exact absurd soon (by decide)

end Runs

end Frona.SsoStates
