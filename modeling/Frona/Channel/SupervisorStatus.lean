import Frona.Channel.Supervisor
import Frona.Machine.Lists

set_option autoImplicit false

namespace Frona.ChannelSupervisor

open Utf8 (Text)
open Frona.ChannelService (Channel ChannelCall ChannelField)

section Told

/-- The status of a channel that nothing connects any more. -/
def Final (row : Channel) : Prop :=
  (row.status = .failed ∨ row.status = .disconnected) ∧ row.setup = none

/-- What the row tells while the manager is in a phase. -/
def Phase.Tells (row : Channel) : Phase → Prop
  | .building | .connecting | .waiting | .connected => row.status = .connecting
  | .clearing | .maintaining => row.status = .connected
  | .pausing => row.status = .reconnecting
  | .finishing => row.status = .failed ∨ row.status = .disconnected
  | .ended true => Final row
  | .opening | .marking | .tearing .. | .failing _ | .retrying _ | .stopping | .disconnecting
  | .ended false => True

/-- The phases in which `run` writes the status or ends; there a failed write changes nothing. -/
def Phase.writes : Phase → Bool
  | .marking | .connected | .failing _ | .retrying _ | .disconnecting | .finishing => true
  | _ => false

/-- No manager starts while another of its channel has not ended, the status is written without
fail, and no other call sets it or the setup, or writes them back as they were before. -/
def Calm (event : Event) (world : World) : Prop :=
  match event with
  | .start id _ => ∀ n manager, world.managers n = some manager → manager.channelId = id →
      world.channels id = none → manager.phase.isEnded = true
  | .advance n input => ∀ manager, world.managers n = some manager →
      manager.phase.writes = true → ∀ reason, input ≠ .error reason
  | .write number => ∀ id call seen, world.calls number = some (id, call, seen) →
      call.sets seen .status = false ∧ call.sets seen .setup = false ∧
        ∀ row, (id, row) ∈ world.rows → seen.status = row.status ∧ seen.setup = row.setup
  | .create id _ => ∀ n manager, world.managers n = some manager → manager.channelId ≠ id
  | .stop _ | .cancel _ | .look _ | .panic _ | .release _ | .shutdown | .read .. | .delete _ => True

structure Told (world : World) : Prop where
  distinct : (world.rows.map Prod.fst).Nodup
  fresh : ∀ n manager row seen, world.managers n = some manager →
    (manager.channelId, row) ∈ world.rows → manager.phase.isEnded = false →
    manager.seen = some seen → seen.status = row.status ∧ seen.setup = row.setup
  alone : ∀ n n' manager manager', world.managers n = some manager →
    world.managers n' = some manager' → manager.channelId = manager'.channelId →
    manager.phase.isEnded = false → manager'.phase.isEnded = false → n = n'
  running : ∀ n manager row, world.managers n = some manager →
    (manager.channelId, row) ∈ world.rows → manager.phase.isEnded = false →
    manager.phase.Tells row
  finished : ∀ n manager row, world.managers n = some manager →
    (manager.channelId, row) ∈ world.rows →
    (∀ n' manager', world.managers n' = some manager' → manager'.channelId = manager.channelId →
      manager'.phase = .ended true) → Final row

end Told

section Writes

def written (write : Option ChannelCall) (row : Channel) : Channel :=
  (write.bind fun call => call.change row).getD row

@[simp] theorem ids_writeRow (id : Text) (call : ChannelCall) (seen : Channel)
    (rows : List (Text × Channel)) :
    (writeRow id call seen rows).map Prod.fst = rows.map Prod.fst := by
  simp only [writeRow, List.map_map]
  refine List.map_congr_left fun row _ => ?_
  by_cases here : row.1 = id <;> simp [here]

theorem mem_writeRow {id other : Text} {call : ChannelCall} {seen : Channel}
    {rows : List (Text × Channel)} {new : Channel} :
    (other, new) ∈ writeRow id call seen rows ↔
      ∃ row, (other, row) ∈ rows ∧
        new = if other = id then (call.change seen).getD row else row := by
  simp only [writeRow, List.mem_map, Prod.exists]
  constructor
  next =>
    rintro ⟨key, row, member, same⟩
    by_cases here : key = id
    next =>
      simp only [here, if_true, Prod.mk.injEq] at same
      refine ⟨row, ?_, ?_⟩
      next => rwa [← same.1, ← here]
      next => simp [same.1.symm, same.2.symm]
    next =>
      simp only [here, if_false, Prod.mk.injEq] at same
      refine ⟨row, ?_, ?_⟩
      next => rwa [← same.1]
      next => simp [same.1.symm, same.2.symm, here]
  next =>
    rintro ⟨row, member, rfl⟩
    refine ⟨other, row, member, ?_⟩
    by_cases here : other = id <;> simp [here]

@[simp] theorem written_none (row : Channel) : written none row = row := rfl

@[simp] theorem markStatus_status (status : ChannelService.ChannelStatus) (error : Option Text)
    (now : Int) (row : Channel) :
    (written (some (.markStatus status error now)) row).status = status := rfl

@[simp] theorem clearSetup_status (now : Int) (row : Channel) :
    (written (some (.clearSetup now)) row).status = row.status := by
  simp only [written, ChannelCall.change, ChannelService.clearSetup, Option.bind_some]
  split <;> rfl

@[simp] theorem clearSetup_setup (now : Int) (row : Channel) :
    (written (some (.clearSetup now)) row).setup = none := by
  simp only [written, ChannelCall.change, ChannelService.clearSetup, Option.bind_some]
  split
  next clear => simpa using clear
  next => rfl

@[simp] theorem setSetup_status (setup : ChannelService.SetupConfig) (now : Int) (row : Channel) :
    (written (some (.setSetup setup now)) row).status = row.status := rfl

theorem written_seen {call : ChannelCall} {seen row : Channel}
    (fresh : seen.status = row.status ∧ seen.setup = row.setup) :
    ((call.change seen).getD row).status = (written (some call) seen).status ∧
      ((call.change seen).getD row).setup = (written (some call) seen).setup := by
  simp only [written, Option.bind_some]
  cases call.change seen with
  | none => exact ⟨fresh.1.symm, fresh.2.symm⟩
  | some new => exact ⟨rfl, rfl⟩

theorem written_keeps (call : ChannelCall) (row : Channel)
    (status : call.sets row .status = false) (setup : call.sets row .setup = false) :
    (written (some call) row).status = row.status ∧
      (written (some call) row).setup = row.setup := by
  simp only [written, Option.bind_some]
  cases changed : call.change row with
  | none => exact ⟨rfl, rfl⟩
  | some new =>
      exact ⟨call.keeps row new .status changed status, call.keeps row new .setup changed setup⟩

theorem tells_onSignal {manager : ChannelManager} {signal : ChannelSignal} {now : Int}
    {done : Bool} {row : Channel}
    (listens : manager.phase = .waiting ∨ manager.phase = .maintaining)
    (tells : manager.phase.Tells row) :
    (manager.onSignal signal now done).1.phase.Tells
      (written (manager.onSignal signal now done).2 row) := by
  cases signal with
  | setupReady config =>
      cases listens <;> cases done <;> simp_all [ChannelManager.onSignal, Phase.Tells]
  | linked => cases listens <;> cases done <;> simp_all [ChannelManager.onSignal, Phase.Tells]
  | connected =>
      cases listens <;> simp_all [ChannelManager.onSignal, Phase.Tells, ChannelManager.goTo]
  | disconnected kind reason => simp [ChannelManager.onSignal, Phase.Tells, ChannelManager.goTo]

theorem tells_advance {manager : ChannelManager} {shutdown : Bool} {input : Input}
    {went : ChannelManager × Option ChannelCall} {row : Channel}
    (goes : manager.advance shutdown input = some went)
    (calm : manager.phase.writes = true → ∀ reason, input ≠ .error reason)
    (tells : manager.phase.Tells row) : went.1.phase.Tells (written went.2 row) := by
  unfold ChannelManager.advance at goes
  split at goes
  all_goals try split at goes
  all_goals cases goes
  case h_9 waits => exact tells_onSignal (.inl waits) tells
  case h_10 maintains => exact tells_onSignal (.inr maintains) tells
  all_goals simp_all [Phase.Tells, Phase.writes, ChannelManager.goTo, Final]

end Writes

section Steps

theorem Phase.Tells.congr {phase : Phase} {row other : Channel} (tells : phase.Tells row)
    (status : other.status = row.status) (setup : other.setup = row.setup) : phase.Tells other := by
  cases phase with
  | ended settled => cases settled <;> simp_all [Phase.Tells, Final]
  | _ => simp_all [Phase.Tells]

namespace Told

variable {world next : World}

def view (manager : ChannelManager) : Text × Phase × Option Channel :=
  (manager.channelId, manager.phase, manager.seen)

theorem new (rows : List (Text × Channel)) (distinct : (rows.map Prod.fst).Nodup) :
    Told (.new rows) where
  distinct := distinct
  fresh n manager row seen held := by cases held
  alone n n' manager manager' held := by cases held
  running n manager row held := by cases held
  finished n manager row held := by cases held

theorem exists_view (managers : ∀ n, (next.managers n).map view = (world.managers n).map view)
    {n : Nat} {manager : ChannelManager} (held : next.managers n = some manager) :
    ∃ old, world.managers n = some old ∧ old.channelId = manager.channelId ∧
      old.phase = manager.phase ∧ old.seen = manager.seen := by
  have same := managers n
  rw [held, Option.map_some] at same
  obtain ⟨old, found, viewed⟩ := Option.map_eq_some_iff.mp same.symm
  simp only [view, Prod.mk.injEq] at viewed
  exact ⟨old, found, viewed⟩

theorem frame (told : Told world)
    (managers : ∀ n, (next.managers n).map view = (world.managers n).map view)
    (distinct : (next.rows.map Prod.fst).Nodup)
    (rows : ∀ n manager row, next.managers n = some manager →
      (manager.channelId, row) ∈ next.rows → ∃ old, (manager.channelId, old) ∈ world.rows ∧
        row.status = old.status ∧ row.setup = old.setup) : Told next := by
  refine ⟨distinct, ?_, ?_, ?_, ?_⟩
  next =>
    intro n manager row seen held member running read
    obtain ⟨old, found, channel, phase, same⟩ := exists_view managers held
    obtain ⟨before, there, status, setup⟩ := rows n manager row held member
    have fresh := told.fresh n old before seen found (channel ▸ there) (by rw [phase, running])
      (same.trans read)
    exact ⟨fresh.1.trans status.symm, fresh.2.trans setup.symm⟩
  next =>
    intro n n' manager manager' held held' same running running'
    obtain ⟨old, found, channel, phase, -⟩ := exists_view managers held
    obtain ⟨old', found', channel', phase', -⟩ := exists_view managers held'
    exact told.alone n n' old old' found found' (by rw [channel, channel', same])
      (by rw [phase, running]) (by rw [phase', running'])
  next =>
    intro n manager row held member running
    obtain ⟨old, found, channel, phase, -⟩ := exists_view managers held
    obtain ⟨before, there, status, setup⟩ := rows n manager row held member
    have tells := told.running n old before found (channel ▸ there) (by rw [phase, running])
    exact (phase ▸ tells).congr status setup
  next =>
    intro n manager row held member ended
    obtain ⟨old, found, channel, phase, -⟩ := exists_view managers held
    obtain ⟨before, there, status, setup⟩ := rows n manager row held member
    have final := told.finished n old before found (channel ▸ there) (by
      intro m other here same
      obtain ⟨later, after, channel', phase', -⟩ := exists_view (fun n => (managers n).symm) here
      rw [← phase']
      exact ended m later after (by rw [channel', same, channel]))
    simpa [Final, status, setup] using final

theorem start (told : Told world) {id : Text} {n : Nat} (unused : world.managers n = none)
    (finished : ∀ m manager, world.managers m = some manager → manager.channelId = id →
      manager.phase.isEnded = true) : Told (world.setManager n (.new id)) := by
  have cases : ∀ m manager, (world.setManager n (.new id)).managers m = some manager →
      (m = n ∧ manager = .new id) ∨ world.managers m = some manager := by
    intro m manager held
    by_cases this : m = n
    next => exact .inl ⟨this, by simpa [World.setManager, this, eq_comm] using held⟩
    next => exact .inr (by simpa [World.setManager, this] using held)
  refine ⟨told.distinct, ?_, ?_, ?_, ?_⟩
  next =>
    intro m manager row seen held member running read
    cases cases m manager held with
    | inl first => simp [first.2, ChannelManager.new] at read
    | inr old => exact told.fresh m manager row seen old member running read
  next =>
    intro m m' manager manager' held held' same running running'
    cases cases m manager held with
    | inl first =>
        cases cases m' manager' held' with
        | inl second => exact first.1.trans second.1.symm
        | inr second =>
            have channel : manager'.channelId = id := by
              simpa [first.2, ChannelManager.new] using same.symm
            have ended := finished m' manager' second channel
            simp [running'] at ended
    | inr first =>
        cases cases m' manager' held' with
        | inl second =>
            have channel : manager.channelId = id := by
              simpa [second.2, ChannelManager.new] using same
            have ended := finished m manager first channel
            simp [running] at ended
        | inr second => exact told.alone m m' manager manager' first second same running running'
  next =>
    intro m manager row held member running
    cases cases m manager held with
    | inl first => simp [first.2, ChannelManager.new, Phase.Tells]
    | inr old => exact told.running m manager row old member running
  next =>
    intro m manager row held member ended
    have other : manager.channelId ≠ id := by
      intro same
      have this := ended n (.new id) (by simp [World.setManager]) same.symm
      simp [ChannelManager.new] at this
    cases cases m manager held with
    | inl first => simp [first.2, ChannelManager.new] at other
    | inr old =>
        refine told.finished m manager row old member fun k later there same => ?_
        refine ended k later ?_ same
        have apart : k ≠ n := fun same => by simp [same, unused] at there
        simpa [World.setManager, apart] using there

theorem advance (told : Told world) {n : Nat} {manager went : ChannelManager}
    {rows : List (Text × Channel)} (held : world.managers n = some manager)
    (running : manager.phase.isEnded = false) (channel : went.channelId = manager.channelId)
    (forgets : went.phase.isEnded = false → went.seen = none)
    (distinct : (rows.map Prod.fst).Nodup)
    (here : ∀ row, (manager.channelId, row) ∈ rows → went.phase.Tells row)
    (elsewhere : ∀ id row, id ≠ manager.channelId → (id, row) ∈ rows → (id, row) ∈ world.rows) :
    Told { world.setManager n went with rows } := by
  have cases : ∀ m other, (world.setManager n went).managers m = some other →
      (m = n ∧ other = went) ∨ (m ≠ n ∧ world.managers m = some other) := by
    intro m other found
    by_cases this : m = n
    next => exact .inl ⟨this, by simpa [World.setManager, this, eq_comm] using found⟩
    next => exact .inr ⟨this, by simpa [World.setManager, this] using found⟩
  -- The other managers of the channel have ended.
  have outside : ∀ m other, m ≠ n → world.managers m = some other →
      other.phase.isEnded = false → other.channelId ≠ manager.channelId :=
    fun m other apart found there same =>
      apart (told.alone m n other manager found held same there running)
  refine ⟨distinct, ?_, ?_, ?_, ?_⟩
  next =>
    intro m other row seen found member there read
    cases cases m other found with
    | inl this =>
        rw [this.2] at there read
        rw [forgets there] at read
        cases read
    | inr this =>
        have apart := outside m other this.1 this.2 there
        exact told.fresh m other row seen this.2 (elsewhere _ row apart member) there read
  next =>
    intro m m' other other' found found' same first second
    cases cases m other found with
    | inl this =>
        cases cases m' other' found' with
        | inl that => exact this.1.trans that.1.symm
        | inr that =>
            exact absurd (by rw [← same, this.2, channel]) (outside m' other' that.1 that.2 second)
    | inr this =>
        cases cases m' other' found' with
        | inl that =>
            exact absurd (by rw [same, that.2, channel]) (outside m other this.1 this.2 first)
        | inr that => exact told.alone m m' other other' this.2 that.2 same first second
  next =>
    intro m other row found member there
    cases cases m other found with
    | inl this =>
        rw [this.2] at member ⊢
        exact here row (channel ▸ member)
    | inr this =>
        have apart := outside m other this.1 this.2 there
        exact told.running m other row this.2 (elsewhere _ row apart member) there
  next =>
    intro m other row found member ended
    by_cases same : other.channelId = manager.channelId
    next =>
      have final := ended n went (by simp [World.setManager]) (channel.trans same.symm)
      have tells := here row (same ▸ member)
      rwa [final] at tells
    next =>
      cases cases m other found with
      | inl this => exact absurd (by rw [this.2, channel]) same
      | inr this =>
          refine told.finished m other row this.2 (elsewhere _ row same member) ?_
          intro k later there at'
          have apart : k ≠ n := by
            intro this
            rw [this, held, Option.some.injEq] at there
            exact same (by rw [there, at'])
          exact ended k later (by simpa [World.setManager, apart] using there) at'

theorem view_update {n : Nat} {manager next : ChannelManager}
    (held : world.managers n = some manager) (same : view next = view manager) (m : Nat) :
    ((world.setManager n next).managers m).map view = (world.managers m).map view := by
  by_cases this : m = n
  next =>
    subst this
    simp [World.setManager, held, same]
  next => simp [World.setManager, this]

theorem look (told : Told world) {n : Nat} {manager : ChannelManager}
    (held : world.managers n = some manager) :
    Told (world.setManager n { manager with seen := findById manager.channelId world.rows }) := by
  have before : ∀ m other,
      (world.setManager n { manager with seen := findById manager.channelId world.rows }).managers
        m = some other → ∃ old, world.managers m = some old ∧ old.channelId = other.channelId ∧
          old.phase = other.phase ∧
            (other.seen = old.seen ∨ other.seen = findById other.channelId world.rows) := by
    intro m other found
    by_cases this : m = n
    next =>
      subst this
      simp only [World.setManager, Function.update_self, Option.some.injEq] at found
      subst found
      exact ⟨manager, held, rfl, rfl, .inr rfl⟩
    next => exact ⟨other, by simpa [World.setManager, this] using found, rfl, rfl, .inl rfl⟩
  refine ⟨told.distinct, ?_, ?_, ?_, ?_⟩
  next =>
    intro m other row seen found member running read
    obtain ⟨old, there, channel, phase, same | looked⟩ := before m other found
    next =>
      exact told.fresh m old row seen there (channel ▸ member) (by rw [phase, running])
        (same ▸ read)
    next =>
      have row_is := Machine.find_key Prod.fst told.distinct _ member
      have here : findById other.channelId world.rows = some row := by simp [findById, row_is]
      rw [looked, here] at read
      obtain rfl := Option.some.inj read
      exact ⟨rfl, rfl⟩
  next =>
    intro m m' other other' found found' same running running'
    obtain ⟨old, there, channel, phase, -⟩ := before m other found
    obtain ⟨old', there', channel', phase', -⟩ := before m' other' found'
    exact told.alone m m' old old' there there' (by rw [channel, channel', same])
      (by rw [phase, running]) (by rw [phase', running'])
  next =>
    intro m other row found member running
    obtain ⟨old, there, channel, phase, -⟩ := before m other found
    rw [← phase]
    exact told.running m old row there (channel ▸ member) (by rw [phase, running])
  next =>
    intro m other row found member ended
    obtain ⟨old, there, channel, -, -⟩ := before m other found
    refine told.finished m old row there (channel ▸ member) fun k later here same => ?_
    by_cases this : k = n
    next =>
      subst this
      rw [held, Option.some.injEq] at here
      subst here
      exact ended k { manager with seen := findById manager.channelId world.rows }
        (by simp [World.setManager]) (same.trans channel)
    next =>
      exact ended k later (by simpa [World.setManager, this] using here) (by rw [same, channel])

theorem step {event : Event} (told : Told world)
    (calm : Calm event world) (taken : World.step event world = some next) : Told next := by
  cases event with
  | start id n =>
      simp only [World.step] at taken
      split at taken
      next => cases taken
      next unused =>
        split at taken <;> cases taken
        next => exact told
        next absent =>
          have started := told.start (by simpa using unused) fun m manager held channel =>
            calm m manager held channel (by simpa using absent)
          exact started.frame (fun _ => rfl) started.distinct
            fun _ _ row _ member => ⟨row, member, rfl, rfl⟩
  | stop id =>
      simp only [World.step] at taken
      split at taken <;> cases taken
      next => exact told
      next n entry =>
        refine told.frame (fun m => ?_) told.distinct fun _ _ row _ member => ⟨row, member, rfl, rfl⟩
        by_cases this : m = n
        next =>
          subst this
          cases world.managers m <;> simp [view]
        next => simp [this]
  | cancel n =>
      simp only [World.step] at taken
      split at taken
      next => cases taken
      next manager held =>
        split at taken <;> cases taken
        exact told.frame (view_update held rfl) told.distinct
          fun _ _ row _ member => ⟨row, member, rfl, rfl⟩
  | advance n input =>
      simp only [World.step] at taken
      split at taken
      next => cases taken
      next manager held =>
        split at taken <;> cases taken
        next went goes =>
          have running := ChannelManager.advance_running goes
          refine told.advance held running (ChannelManager.advance_frame goes).1 (fun _ => rfl)
            told.distinct ?_ fun _ _ _ member => member
          intro row member
          exact tells_advance goes (calm manager held)
            (told.running n manager row held member running)
        next went call seen goes read =>
          have running := ChannelManager.advance_running goes
          refine told.advance held running (ChannelManager.advance_frame goes).1 (fun _ => rfl)
            (by simpa using told.distinct) ?_ ?_
          next =>
            intro row member
            obtain ⟨old, there, rfl⟩ := mem_writeRow.mp member
            have fresh := told.fresh n manager old seen held there running read
            have tells := (told.running n manager old held there running).congr fresh.1 fresh.2
            have told := tells_advance goes (calm manager held) tells
            have same := @written_seen call seen old fresh
            rw [if_pos rfl]
            exact told.congr same.1 same.2
          next =>
            intro id row apart member
            obtain ⟨old, there, rfl⟩ := mem_writeRow.mp member
            rwa [if_neg apart]
  | look n =>
      simp only [World.step] at taken
      split at taken
      next => cases taken
      next manager held =>
        cases taken
        exact told.look held
  | panic n =>
      simp only [World.step] at taken
      split at taken
      next => cases taken
      next manager held =>
        split at taken <;> cases taken
        next running =>
          exact told.advance held (by simpa using running) rfl (fun live => by cases live)
            told.distinct (fun row _ => trivial) fun _ _ _ member => member
  | release n =>
      simp only [World.step] at taken
      split at taken
      next => cases taken
      next manager held =>
        split at taken <;> cases taken
        exact told.frame (view_update held rfl) told.distinct
          fun _ _ row _ member => ⟨row, member, rfl, rfl⟩
  | shutdown =>
      cases taken
      exact told.frame (fun _ => rfl) told.distinct fun _ _ row _ member => ⟨row, member, rfl, rfl⟩
  | read number id call =>
      simp only [World.step] at taken
      split at taken <;> cases taken
      exact told.frame (fun _ => rfl) told.distinct fun _ _ row _ member => ⟨row, member, rfl, rfl⟩
  | write number =>
      simp only [World.step] at taken
      split at taken <;> cases taken
      next id call seen waits =>
        obtain ⟨status, setup, current⟩ := calm id call seen waits
        refine told.frame (fun _ => rfl) (by simpa using told.distinct)
          fun n manager row held member => ?_
        obtain ⟨old, there, rfl⟩ := mem_writeRow.mp member
        refine ⟨old, there, ?_⟩
        split
        next here =>
          have fresh := current old (here ▸ there)
          have same := @written_seen call seen old fresh
          have kept := written_keeps call seen status setup
          exact ⟨same.1.trans (kept.1.trans fresh.1), same.2.trans (kept.2.trans fresh.2)⟩
        next => exact ⟨rfl, rfl⟩
  | create id row =>
      simp only [World.step] at taken
      split at taken <;> cases taken
      next fresh =>
        refine told.frame (fun _ => rfl) ?_ fun n manager other held member => ?_
        next =>
          rw [List.map_append, List.map_singleton]
          exact Machine.nodup_snoc.mpr ⟨told.distinct, fresh⟩
        next =>
          have apart := calm n manager held
          exact ⟨other, by simpa [apart] using member, rfl, rfl⟩
  | delete id =>
      cases taken
      refine told.frame (fun _ => rfl) ?_ fun n manager row held member => ?_
      next => exact told.distinct.sublist (List.filter_sublist.map Prod.fst)
      next => exact ⟨row, List.mem_of_mem_filter member, rfl, rfl⟩

end Told

end Steps

section Runs

/-- In a run in which no manager of a channel starts before the others have ended, the status is
written without fail and nothing else sets it or the setup, the row of a channel tells the phase of
its manager; and once all its managers have ended with their last write, it is failed or
disconnected and shows no setup. -/
theorem status_tells_phase (events : List Event) (rows : List (Text × Channel)) (world : World)
    (distinct : (rows.map Prod.fst).Nodup)
    (calm : Machine.Guarded World.step Calm events (.new rows))
    (reached : Machine.run World.step events (.new rows) = some world) (n : Nat)
    (manager : ChannelManager) (row : Channel) (held : world.managers n = some manager)
    (member : (manager.channelId, row) ∈ world.rows) :
    (manager.phase.isEnded = false → manager.phase.Tells row) ∧
      ((∀ n' manager', world.managers n' = some manager' →
        manager'.channelId = manager.channelId → manager'.phase = .ended true) → Final row) := by
  have told := Machine.invariant_run World.step Calm Told
    (fun event world next told calm taken => told.step calm taken) events _ world (.new rows distinct)
    calm reached
  exact ⟨told.running n manager row held member, told.finished n manager row held member⟩

def failing : List Event :=
  [.start ['a'] 0, .advance 0 (.done 1), .look 0, .advance 0 (.done 2), .advance 0 (.done 3),
    .advance 0 (.done 4), .advance 0 (.signal .connected 5 true), .look 0, .advance 0 (.done 6),
    .look 0, .advance 0 (.done 7), .advance 0 (.signal (.disconnected .terminal ['r']) 8 true),
    .advance 0 (.done 9), .look 0, .advance 0 (.done 10), .look 0, .advance 0 (.done 11)]

theorem status_tells_phase_failing : ∃ world row,
    Machine.run World.step failing (.new [(['a'], online)]) = some world ∧
      (['a'], row) ∈ world.rows ∧ row.errorMessage = some ['r'] ∧ Final row := by
  have done (now : Int) (world : World) : Calm (.advance 0 (.done now)) world :=
    fun _ _ _ _ => nofun
  have heard (signal : ChannelSignal) (now : Int) (world : World) :
      Calm (.advance 0 (.signal signal now true)) world := fun _ _ _ _ => nofun
  have calm : Machine.Guarded World.step Calm failing
      (.new [(['a'], online)]) :=
    .cons (fun _ _ held => by cases held) rfl (.cons (done 1 _) rfl (.cons trivial rfl
      (.cons (done 2 _) rfl (.cons (done 3 _) rfl (.cons (done 4 _) rfl (.cons (heard _ 5 _) rfl
      (.cons trivial rfl (.cons (done 6 _) rfl (.cons trivial rfl (.cons (done 7 _) rfl
      (.cons (heard _ 8 _) rfl (.cons (done 9 _) rfl (.cons trivial rfl (.cons (done 10 _) rfl
      (.cons trivial rfl (.cons (done 11 _) rfl trivial))))))))))))))))
  refine ⟨_, _, rfl, .head _, rfl, ?_⟩
  refine (status_tells_phase failing _ _ (by decide) calm rfl 0 _ _ rfl (.head _)).2 ?_
  intro n manager held _
  by_cases first : n = 0
  next =>
    subst first
    cases held
    rfl
  next => simp [first, World.setManager, World.new] at held

end Runs

end Frona.ChannelSupervisor
