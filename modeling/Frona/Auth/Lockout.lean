import Frona.Machine.Lists
import Frona.Machine.Run
import Frona.Text.Visible

set_option autoImplicit false

namespace Frona.Lockout

open Utf8 (Text)
open Frona.Text (trim)

def minute : Nat := 60 * 1000000000

-- `max_capacity`
def maxCapacity : Nat := 10000

inductive LockStatus where
  | opened
  | locked (retryAfter : Nat)

structure Attempt where
  failures : Nat
  lockedUntil : Option Nat

structure LoginAttemptTracker where
  maxAttempts : UInt32
  lockout : Nat
  -- Of the cache
  timeToIdle : Nat

def LoginAttemptTracker.new (maxAttempts : UInt32) (lockoutMinutes : Nat) :
    Option LoginAttemptTracker :=
  let lockout := min (lockoutMinutes * 60) (2 ^ 64 - 1) * 1000000000
  let timeToIdle := max lockout minute
  if timeToIdle ≤ 1000 * 365 * 24 * 60 * minute then some ⟨maxAttempts, lockout, timeToIdle⟩
  else none

inductive Operation where
  | check (identifier : Text)
  | recordFailure (identifier : Text)
  | clear (identifier : Text)

def Operation.identifier : Operation → Text
  | check identifier | recordFailure identifier | clear identifier => identifier

inductive Answer where
  | status (status : LockStatus)
  -- Whether this failure is the one that engages the lock
  | engaged (locks : Bool)
  | cleared

structure Entry where
  key : Text
  attempt : Attempt
  lastAccess : Nat

structure Record where
  time : Nat
  operation : Operation
  answer : Answer

structure World where
  now : Nat
  entries : List Entry
  log : List Record

inductive Event where
  | pass (time : Nat)
  | call (operation : Operation)
  -- The cache removes what has been idle too long, and more when it is too full.
  | purge (key : Text)
  | evict (key : Text)

section Calls

-- `str::to_lowercase`
variable (lowercase : Text → Text) (tracker : LoginAttemptTracker)

def normalize (identifier : Text) : Text := lowercase (trim identifier)

def settle (attempt : Attempt) (now : Nat) : Attempt :=
  if attempt.lockedUntil.any (· ≤ now) then ⟨0, none⟩ else attempt

def Attempt.status (attempt : Attempt) (now : Nat) : LockStatus :=
  match attempt.lockedUntil with
  | some untilTime => .locked (untilTime - now)
  | none => .opened

def Attempt.fail (attempt : Attempt) (now : Nat) : Attempt × Bool :=
  let failures := min (attempt.failures + 1) (2 ^ 32 - 1)
  if tracker.maxAttempts.toNat ≤ failures ∧ attempt.lockedUntil = none then
    (⟨failures, some (now + tracker.lockout)⟩, true)
  else (⟨failures, attempt.lockedUntil⟩, false)

namespace World

variable (world : World)

def live (key : Text) (entry : Entry) : Bool :=
  decide (entry.key = key ∧ world.now < entry.lastAccess + tracker.timeToIdle)

def get (key : Text) : Option Attempt :=
  (world.entries.find? (world.live tracker key)).map Entry.attempt

def others (key : Text) : List Entry := world.entries.filter fun entry => entry.key ≠ key

def hold (key : Text) (attempt : Attempt) : World :=
  { world with entries := world.others key ++ [⟨key, attempt, world.now⟩] }

def answer (operation : Operation) (answer : Answer) : World :=
  { world with log := world.log ++ [⟨world.now, operation, answer⟩] }

def call (operation : Operation) : World :=
  let key := normalize lowercase operation.identifier
  match operation with
  | .check _ =>
      if tracker.maxAttempts = 0 then world.answer operation (.status .opened)
      else match world.get tracker key with
      | none => world.answer operation (.status .opened)
      | some attempt =>
          let attempt := settle attempt world.now
          (world.hold key attempt).answer operation (.status (attempt.status world.now))
  | .recordFailure _ =>
      if tracker.maxAttempts = 0 then world.answer operation (.engaged false)
      else
        let attempt := settle ((world.get tracker key).getD ⟨0, none⟩) world.now
        let failed := attempt.fail tracker world.now
        (world.hold key failed.1).answer operation (.engaged failed.2)
  | .clear _ => { world with entries := world.others key }.answer operation .cleared

end World

def step : Event → World → Option World
  | .pass time, world => some { world with now := world.now + time }
  | .call operation, world => some (world.call lowercase tracker operation)
  | .purge key, world =>
      if (world.entries.any fun entry => entry.key = key) ∧
          ∀ entry ∈ world.entries, entry.key = key →
            entry.lastAccess + tracker.timeToIdle ≤ world.now then
        some { world with entries := world.others key }
      else none
  | .evict key, world =>
      if maxCapacity < world.entries.length then some { world with entries := world.others key }
      else none

def start : World := ⟨0, [], []⟩

end Calls

section Accounts

structure Account where
  failures : Nat
  lockedUntil : Option Nat
  seen : Option Nat

variable (maxAttempts lockout : Nat)

def Account.unknown : Account := ⟨0, none, none⟩

def Account.reset (account : Account) (now : Nat) : Account :=
  if account.lockedUntil.any (· ≤ now) ∨ account.seen.any (· + lockout ≤ now) then .unknown
  else account

def Account.step (account : Account) (now : Nat) : Operation → Account × Answer
  | .check _ =>
      let account := account.reset lockout now
      ({ account with seen := some now }, .status (match account.lockedUntil with
        | some untilTime => .locked (untilTime - now)
        | none => .opened))
  | .recordFailure _ =>
      let account := account.reset lockout now
      let failures := account.failures + 1
      if account.lockedUntil = none ∧ failures = maxAttempts then
        (⟨failures, some (now + lockout), some now⟩, .engaged true)
      else (⟨failures, account.lockedUntil, some now⟩, .engaged false)
  | .clear _ => (.unknown, .cleared)

def accountOf (normal : Text → Text) (key : Text) (log : List Record) : Account :=
  (log.filter fun record => normal record.operation.identifier = key).foldl
    (fun account record => (account.step maxAttempts lockout record.time record.operation).1)
    .unknown

/-- Each call was answered by what the calls for its identifier say. -/
def Exact (normal : Text → Text) (log : List Record) : Prop :=
  ∀ before record after, log = before ++ record :: after →
    record.answer = ((accountOf maxAttempts lockout normal
      (normal record.operation.identifier) before).step maxAttempts lockout record.time
        record.operation).2

end Accounts

section Resets

variable {maxAttempts lockout : Nat} {account : Account} {now : Nat}

def Account.Blank (account : Account) : Prop := account.failures = 0 ∧ account.lockedUntil = none

theorem Account.reset_cases (account : Account) (lockout now : Nat) :
    account.reset lockout now = .unknown ∨ account.reset lockout now = account := by
  unfold Account.reset
  split
  next => exact .inl rfl
  next => exact .inr rfl

theorem Account.Blank.reset (blank : account.Blank) (now : Nat) :
    (account.reset lockout now).Blank := by
  rcases account.reset_cases lockout now with same | same
  · rw [same]
    exact ⟨rfl, rfl⟩
  · rwa [same]

theorem Account.Blank.later (blank : (account.reset lockout now).Blank) (time : Nat) :
    (account.reset lockout (now + time)).Blank := by
  unfold Account.reset at blank
  split at blank
  next gone =>
    have still : account.lockedUntil.any (· ≤ now + time) ∨
        account.seen.any (· + lockout ≤ now + time) := by
      refine gone.imp (fun ended => ?_) fun quiet => ?_
      · obtain ⟨untilTime, found, le⟩ := (Option.any_eq_true _ _).mp ended
        exact (Option.any_eq_true _ _).mpr ⟨untilTime, found, by simp at le ⊢; omega⟩
      · obtain ⟨last, found, le⟩ := (Option.any_eq_true _ _).mp quiet
        exact (Option.any_eq_true _ _).mpr ⟨last, found, by simp at le ⊢; omega⟩
    rw [Account.reset, if_pos still]
    exact ⟨rfl, rfl⟩
  next => exact blank.reset _

theorem Account.reset_seen {time : Nat} (seen : account.seen = some time)
    (recent : now < time + lockout) :
    account.reset lockout now =
      if account.lockedUntil.any (· ≤ now) then .unknown else account := by
  have loud : ¬account.seen.any (· + lockout ≤ now) := by simp [seen, recent]
  simp [Account.reset, loud]

end Resets

section Accounting

variable {maxAttempts lockout : Nat} {normal : Text → Text} {key : Text} {log : List Record}
  {record : Record}

theorem accountOf_own (maxAttempts lockout : Nat) (log : List Record) (record : Record)
    (same : normal record.operation.identifier = key) :
    accountOf maxAttempts lockout normal key (log ++ [record]) =
      ((accountOf maxAttempts lockout normal key log).step maxAttempts lockout record.time
        record.operation).1 := by
  simp [accountOf, List.filter_append, same]

theorem accountOf_other (other : normal record.operation.identifier ≠ key) :
    accountOf maxAttempts lockout normal key (log ++ [record]) =
      accountOf maxAttempts lockout normal key log := by
  simp [accountOf, List.filter_append, other]

theorem exact_append :
    Exact maxAttempts lockout normal (log ++ [record]) ↔ Exact maxAttempts lockout normal log ∧
      record.answer = ((accountOf maxAttempts lockout normal
        (normal record.operation.identifier) log).step maxAttempts lockout record.time
          record.operation).2 := by
  constructor
  · intro exact
    exact ⟨fun before old after whole => exact before old (after ++ [record]) (by simp [whole]),
      exact log record [] rfl⟩
  · rintro ⟨exact, new⟩ before old after whole
    rcases Machine.split_concat whole with ⟨rfl, rfl, -⟩ | ⟨rest, -, split⟩
    · exact new
    · exact exact before old rest split

end Accounting

section Invariant

variable (lowercase : Text → Text) (tracker : LoginAttemptTracker) (world : World)

def World.account (key : Text) : Account :=
  accountOf tracker.maxAttempts.toNat tracker.lockout (normalize lowercase) key world.log

structure Attempt.Agrees (attempt : Attempt) (account : Account) : Prop where
  lockedUntil : attempt.lockedUntil = account.lockedUntil
  failures : account.lockedUntil = none → attempt.failures = account.failures

structure Inv : Prop where
  keys : (world.entries.map Entry.key).Nodup
  few : world.entries.length ≤ maxCapacity
  below : ∀ key, (world.account lowercase tracker key).lockedUntil = none →
    (world.account lowercase tracker key).failures < tracker.maxAttempts.toNat
  held : ∀ entry ∈ world.entries, world.now < entry.lastAccess + tracker.lockout →
    entry.attempt.Agrees (world.account lowercase tracker entry.key) ∧
      (world.account lowercase tracker entry.key).seen = some entry.lastAccess
  dropped : ∀ key, (∀ entry ∈ world.entries, entry.key = key →
      entry.lastAccess + tracker.lockout ≤ world.now) →
    ((world.account lowercase tracker key).reset tracker.lockout world.now).Blank
  exact : Exact tracker.maxAttempts.toNat tracker.lockout (normalize lowercase) world.log

end Invariant

section Kept

variable {lowercase : Text → Text} {tracker : LoginAttemptTracker} {world : World}

theorem Inv.pass (inv : Inv lowercase tracker world) (time : Nat) :
    Inv lowercase tracker { world with now := world.now + time } := by
  refine { inv with held := ?_, dropped := ?_ }
  · intro entry stored live
    have now : world.now + time < entry.lastAccess + tracker.lockout := live
    exact inv.held entry stored (by omega)
  · intro key idle
    by_cases live : ∃ entry ∈ world.entries, entry.key = key ∧
        world.now < entry.lastAccess + tracker.lockout
    · obtain ⟨entry, stored, rfl, live⟩ := live
      have seen := (inv.held entry stored live).2
      have quiet : entry.lastAccess + tracker.lockout ≤ world.now + time := idle entry stored rfl
      have reset : (world.account lowercase tracker entry.key).reset tracker.lockout
          (world.now + time) = .unknown := by
        rw [Account.reset, if_pos (.inr (by simp [seen, quiet]))]
      change ((world.account lowercase tracker entry.key).reset _ _).Blank
      rw [reset]
      exact ⟨rfl, rfl⟩
    · refine Account.Blank.later (inv.dropped key fun entry stored same => ?_) time
      by_contra recent
      exact live ⟨entry, stored, same, by omega⟩

theorem others_nodup (inv : Inv lowercase tracker world) (key : Text) :
    ((world.others key).map Entry.key).Nodup :=
  inv.keys.sublist (List.filter_sublist.map _)

theorem mem_others {key : Text} {entry : Entry} :
    entry ∈ world.others key ↔ entry ∈ world.entries ∧ entry.key ≠ key := by
  simp [World.others]

theorem Inv.purge (inv : Inv lowercase tracker world) {key : Text}
    (idle : ∀ entry ∈ world.entries, entry.key = key →
      entry.lastAccess + tracker.lockout ≤ world.now) :
    Inv lowercase tracker { world with entries := world.others key } := by
  refine { inv with keys := ?_, few := ?_, held := ?_, dropped := ?_ }
  · exact others_nodup inv key
  · exact (List.length_filter_le _ _).trans inv.few
  · exact fun entry stored => inv.held entry (mem_others.mp stored).1
  · intro other quiet
    refine inv.dropped other fun entry stored same => ?_
    by_cases here : entry.key = key
    · exact idle entry stored here
    · exact quiet entry (mem_others.mpr ⟨stored, here⟩) same

theorem Inv.get (inv : Inv lowercase tracker world) (idle : tracker.timeToIdle = tracker.lockout)
    (key : Text) :
    (settle ((world.get tracker key).getD ⟨0, none⟩) world.now).Agrees
      ((world.account lowercase tracker key).reset tracker.lockout world.now) := by
  unfold World.get
  cases found : world.entries.find? (world.live tracker key) with
  | some entry =>
      have ⟨same, live⟩ : entry.key = key ∧ world.now < entry.lastAccess + tracker.timeToIdle := by
        simpa [World.live] using List.find?_some found
      rw [idle] at live
      obtain ⟨agrees, seen⟩ := inv.held entry (List.mem_of_find?_eq_some found) live
      rw [same] at agrees seen
      rw [Account.reset_seen seen live]
      change (settle entry.attempt world.now).Agrees _
      unfold settle
      rw [agrees.lockedUntil]
      split
      next => exact ⟨rfl, fun _ => rfl⟩
      next => exact agrees
  | none =>
      have blank := inv.dropped key fun entry stored same => by
        have dead := List.find?_eq_none.mp found entry stored
        simp only [World.live, same, true_and, decide_eq_true_eq, idle] at dead
        omega
      exact ⟨blank.2.symm, fun _ => blank.1.symm⟩

theorem Inv.answer (inv : Inv lowercase tracker world) {operation : Operation} {answer : Answer}
    {entries : List Entry} {account : Account} (keys : (entries.map Entry.key).Nodup)
    (few : entries.length ≤ maxCapacity)
    (others : ∀ entry, entry.key ≠ normalize lowercase operation.identifier →
      (entry ∈ entries ↔ entry ∈ world.entries))
    (stepped : (world.account lowercase tracker (normalize lowercase operation.identifier)).step
      tracker.maxAttempts.toNat tracker.lockout world.now operation = (account, answer))
    (below : account.lockedUntil = none → account.failures < tracker.maxAttempts.toNat)
    (held : ∀ entry ∈ entries, entry.key = normalize lowercase operation.identifier →
      world.now < entry.lastAccess + tracker.lockout →
        entry.attempt.Agrees account ∧ account.seen = some entry.lastAccess)
    (dropped : (∀ entry ∈ entries, entry.key = normalize lowercase operation.identifier →
      entry.lastAccess + tracker.lockout ≤ world.now) →
        (account.reset tracker.lockout world.now).Blank) :
    Inv lowercase tracker ({ world with entries := entries }.answer operation answer) := by
  have own : World.account lowercase tracker ({ world with entries := entries }.answer operation
      answer) (normalize lowercase operation.identifier) = account := by
    have := accountOf_own tracker.maxAttempts.toNat tracker.lockout world.log
      ⟨world.now, operation, answer⟩ (show normalize lowercase operation.identifier = _ from rfl)
    exact this.trans (congrArg Prod.fst stepped)
  have other {key : Text} (apart : key ≠ normalize lowercase operation.identifier) :
      World.account lowercase tracker ({ world with entries := entries }.answer operation answer)
        key = world.account lowercase tracker key :=
    accountOf_other (fun same => apart same.symm)
  refine { keys := keys, few := few, below := ?_, held := ?_, dropped := ?_, exact := ?_ }
  · intro key
    by_cases here : key = normalize lowercase operation.identifier
    · subst here
      rw [own]
      exact below
    · rw [other here]
      exact inv.below key
  · intro entry stored live
    by_cases here : entry.key = normalize lowercase operation.identifier
    · have known := held entry stored here live
      rwa [here, own]
    · rw [other here]
      exact inv.held entry ((others entry here).mp stored) live
  · intro key idle
    by_cases here : key = normalize lowercase operation.identifier
    · subst here
      rw [own]
      exact dropped idle
    · rw [other here]
      exact inv.dropped key fun entry stored same =>
        idle entry ((others entry (same ▸ here)).mpr stored) same
  · exact exact_append.mpr ⟨inv.exact, (congrArg Prod.snd stepped).symm⟩

section Calls

theorem Inv.hold (inv : Inv lowercase tracker world) (positive : 0 < tracker.lockout)
    (operation : Operation) {key : Text} (same : normalize lowercase operation.identifier = key)
    {answer : Answer} {attempt : Attempt} {account : Account}
    (room : (world.others key).length < maxCapacity)
    (stepped : (world.account lowercase tracker key).step tracker.maxAttempts.toNat
      tracker.lockout world.now operation = (account, answer))
    (below : account.lockedUntil = none → account.failures < tracker.maxAttempts.toNat)
    (agrees : attempt.Agrees account) (seen : account.seen = some world.now) :
    Inv lowercase tracker ((world.hold key attempt).answer operation answer) := by
  subst same
  refine inv.answer ?_ ?_ ?_ stepped below ?_ ?_
  · rw [List.map_append]
    refine Machine.nodup_snoc.mpr ⟨others_nodup inv _, fun member => ?_⟩
    obtain ⟨entry, stored, same⟩ := List.mem_map.mp member
    exact (mem_others.mp stored).2 same
  · rw [List.length_append]
    exact room
  · intro entry apart
    rw [List.mem_append, mem_others, List.mem_singleton]
    constructor
    · rintro (⟨stored, -⟩ | rfl)
      · exact stored
      · exact absurd rfl apart
    · exact fun stored => .inl ⟨stored, apart⟩
  · intro entry stored here live
    rcases List.mem_append.mp stored with other | new
    · exact absurd here (mem_others.mp other).2
    · obtain rfl := List.mem_singleton.mp new
      exact ⟨agrees, seen⟩
  · intro idle
    have ended : world.now + tracker.lockout ≤ world.now :=
      idle ⟨_, attempt, world.now⟩ (List.mem_append_right _ (List.mem_singleton.mpr rfl)) rfl
    omega

theorem below_reset (inv : Inv lowercase tracker world) (enabled : tracker.maxAttempts ≠ 0)
    (key : Text) :
    ((world.account lowercase tracker key).reset tracker.lockout world.now).lockedUntil = none →
      ((world.account lowercase tracker key).reset tracker.lockout world.now).failures <
        tracker.maxAttempts.toNat := by
  rcases (world.account lowercase tracker key).reset_cases tracker.lockout world.now with
    same | same
  · rw [same]
    intro _
    have : tracker.maxAttempts.toNat ≠ 0 := fun zero => enabled (UInt32.toNat_inj.mp zero)
    exact Nat.pos_of_ne_zero this
  · rw [same]
    exact inv.below key

theorem others_room (inv : Inv lowercase tracker world) {entry : Entry}
    (stored : entry ∈ world.entries) : (world.others entry.key).length < maxCapacity := by
  refine lt_of_lt_of_le ?_ inv.few
  exact List.length_filter_lt_length_iff_exists.mpr ⟨entry, stored, by simp⟩

theorem get_some {key : Text} {attempt : Attempt}
    (found : world.get tracker key = some attempt) :
    ∃ entry ∈ world.entries, entry.key = key := by
  obtain ⟨entry, found, -⟩ := Option.map_eq_some_iff.mp found
  have live : entry.key = key ∧ world.now < entry.lastAccess + tracker.timeToIdle := by
    simpa [World.live] using List.find?_some found
  exact ⟨entry, List.mem_of_find?_eq_some found, live.1⟩

theorem get_none {key : Text} (missing : world.get tracker key = none) :
    ∀ entry ∈ world.entries, entry.key = key →
      entry.lastAccess + tracker.timeToIdle ≤ world.now := by
  intro entry stored same
  have dead := List.find?_eq_none.mp (Option.map_eq_none_iff.mp missing) entry stored
  simp only [World.live, same, true_and, decide_eq_true_eq] at dead
  omega

theorem Inv.check (inv : Inv lowercase tracker world) (enabled : tracker.maxAttempts ≠ 0)
    (idle : tracker.timeToIdle = tracker.lockout) (positive : 0 < tracker.lockout)
    (identifier : Text) :
    Inv lowercase tracker (world.call lowercase tracker (.check identifier)) := by
  have agrees := inv.get idle (normalize lowercase identifier)
  have below := below_reset inv enabled (normalize lowercase identifier)
  have stepped (status : LockStatus)
      (answered : (settle ((world.get tracker (normalize lowercase identifier)).getD ⟨0, none⟩)
        world.now).status world.now = status) :
      (world.account lowercase tracker (normalize lowercase identifier)).step
        tracker.maxAttempts.toNat tracker.lockout world.now (.check identifier) =
      ({ (world.account lowercase tracker (normalize lowercase identifier)).reset tracker.lockout
          world.now with seen := some world.now }, .status status) := by
    rw [← answered, Attempt.status, agrees.lockedUntil]
    rfl
  cases found : world.get tracker (normalize lowercase identifier) with
  | none =>
      rw [found] at agrees stepped
      have same : world.call lowercase tracker (.check identifier) =
          world.answer (.check identifier) (.status .opened) := by
        simp [World.call, Operation.identifier, enabled, found]
      have blank : Account.Blank { (world.account lowercase tracker
          (normalize lowercase identifier)).reset tracker.lockout world.now with
            seen := some world.now } :=
        ⟨(agrees.failures agrees.lockedUntil.symm).symm, agrees.lockedUntil.symm⟩
      rw [same]
      refine inv.answer inv.keys inv.few (fun _ _ => Iff.rfl) (stepped .opened rfl) below ?_ ?_
      · intro entry stored here live
        have := get_none found entry stored here
        omega
      · exact fun _ => blank.reset _
  | some attempt =>
      rw [found] at agrees stepped
      obtain ⟨entry, stored, here⟩ := get_some found
      have same : world.call lowercase tracker (.check identifier) =
          (world.hold (normalize lowercase identifier) (settle attempt world.now)).answer
            (.check identifier) (.status ((settle attempt world.now).status world.now)) := by
        simp [World.call, Operation.identifier, enabled, found]
      rw [same]
      exact inv.hold positive (.check identifier) rfl (here ▸ others_room inv stored)
        (stepped _ rfl) below ⟨agrees.lockedUntil, agrees.failures⟩ rfl

theorem Inv.recordFailure (inv : Inv lowercase tracker world) (enabled : tracker.maxAttempts ≠ 0)
    (idle : tracker.timeToIdle = tracker.lockout) (positive : 0 < tracker.lockout)
    {identifier : Text}
    (room : (world.others (normalize lowercase identifier)).length < maxCapacity) :
    Inv lowercase tracker (world.call lowercase tracker (.recordFailure identifier)) := by
  have agrees := inv.get idle (normalize lowercase identifier)
  have below := below_reset inv enabled (normalize lowercase identifier)
  have same : world.call lowercase tracker (.recordFailure identifier) =
      (world.hold (normalize lowercase identifier)
        ((settle ((world.get tracker (normalize lowercase identifier)).getD ⟨0, none⟩)
          world.now).fail tracker world.now).1).answer (.recordFailure identifier)
        (.engaged ((settle ((world.get tracker (normalize lowercase identifier)).getD ⟨0, none⟩)
          world.now).fail tracker world.now).2) := by
    simp [World.call, Operation.identifier, enabled]
  rw [same]
  generalize settle ((world.get tracker (normalize lowercase identifier)).getD ⟨0, none⟩)
    world.now = attempt at agrees
  have bound := tracker.maxAttempts.toNat_lt
  generalize reset : (world.account lowercase tracker (normalize lowercase identifier)).reset
    tracker.lockout world.now = account at agrees below
  cases locked : account.lockedUntil with
  | some untilTime =>
      -- The failure is counted, and nothing else.
      have counted : attempt.fail tracker world.now =
          (⟨min (attempt.failures + 1) (2 ^ 32 - 1), some untilTime⟩, false) := by
        simp [Attempt.fail, agrees.lockedUntil, locked]
      have stepped : (world.account lowercase tracker (normalize lowercase identifier)).step
          tracker.maxAttempts.toNat tracker.lockout world.now (.recordFailure identifier) =
          (⟨account.failures + 1, some untilTime, some world.now⟩, .engaged false) := by
        simp [Account.step, reset, locked]
      rw [counted]
      exact inv.hold positive (.recordFailure identifier) rfl room stepped (by simp)
        ⟨rfl, by simp⟩ rfl
  | none =>
      have failures := agrees.failures locked
      have low := below locked
      have few : min (attempt.failures + 1) (2 ^ 32 - 1) = account.failures + 1 := by omega
      by_cases last : account.failures + 1 = tracker.maxAttempts.toNat
      · have counted : attempt.fail tracker world.now =
            (⟨account.failures + 1, some (world.now + tracker.lockout)⟩, true) := by
          rw [Attempt.fail, few, if_pos ⟨last.ge, agrees.lockedUntil.trans locked⟩]
        have stepped : (world.account lowercase tracker (normalize lowercase identifier)).step
            tracker.maxAttempts.toNat tracker.lockout world.now (.recordFailure identifier) =
            (⟨account.failures + 1, some (world.now + tracker.lockout), some world.now⟩,
              .engaged true) := by
          simp [Account.step, reset, locked, last]
        rw [counted]
        exact inv.hold positive (.recordFailure identifier) rfl room stepped (by simp)
          ⟨rfl, by simp⟩ rfl
      · have counted : attempt.fail tracker world.now =
            (⟨account.failures + 1, none⟩, false) := by
          have : ¬(tracker.maxAttempts.toNat ≤ account.failures + 1 ∧
              attempt.lockedUntil = none) := by omega
          rw [Attempt.fail, few, if_neg this, agrees.lockedUntil, locked]
        have stepped : (world.account lowercase tracker (normalize lowercase identifier)).step
            tracker.maxAttempts.toNat tracker.lockout world.now (.recordFailure identifier) =
            (⟨account.failures + 1, none, some world.now⟩, .engaged false) := by
          simp [Account.step, reset, locked, last]
        rw [counted]
        refine inv.hold positive (.recordFailure identifier) rfl room stepped (fun _ => ?_)
          ⟨rfl, fun _ => rfl⟩ rfl
        simp only
        omega

theorem Inv.clear (inv : Inv lowercase tracker world) (enabled : tracker.maxAttempts ≠ 0)
    (identifier : Text) :
    Inv lowercase tracker (world.call lowercase tracker (.clear identifier)) := by
  refine inv.answer (others_nodup inv _) ((List.length_filter_le _ _).trans inv.few) ?_ rfl ?_ ?_ ?_
  · exact fun entry apart => mem_others.trans (and_iff_left apart)
  · intro _
    exact Nat.pos_of_ne_zero fun zero => enabled (UInt32.toNat_inj.mp zero)
  · exact fun entry stored here _ => absurd here (mem_others.mp stored).2
  · exact fun _ => Account.Blank.reset ⟨rfl, rfl⟩ _

end Calls

end Kept

section Runs

variable (lowercase : Text → Text)

/-- There is room for a new identifier, so that nothing has to go for it. -/
def Careful : Event → World → Prop
  | .call (.recordFailure identifier), world =>
      (world.others (normalize lowercase identifier)).length < maxCapacity
  | _, _ => True

variable {lowercase} {tracker : LoginAttemptTracker}

theorem Inv.step {world next : World} {event : Event} (inv : Inv lowercase tracker world)
    (enabled : tracker.maxAttempts ≠ 0) (idle : tracker.timeToIdle = tracker.lockout)
    (positive : 0 < tracker.lockout) (careful : Careful lowercase event world)
    (taken : step lowercase tracker event world = some next) : Inv lowercase tracker next := by
  cases event with
  | pass time =>
      obtain rfl := Option.some.inj taken
      exact inv.pass time
  | call operation =>
      obtain rfl := Option.some.inj taken
      cases operation with
      | check identifier => exact inv.check enabled idle positive identifier
      | recordFailure identifier => exact inv.recordFailure enabled idle positive careful
      | clear identifier => exact inv.clear enabled identifier
  | purge key =>
      simp only [Lockout.step] at taken
      split at taken
      next quiet =>
        obtain rfl := Option.some.inj taken
        exact inv.purge fun entry stored same => idle ▸ quiet.2 entry stored same
      next => cases taken
  | evict key =>
      simp only [Lockout.step] at taken
      split at taken
      next full => exact absurd inv.few (by omega)
      next => cases taken

theorem start_inv (enabled : tracker.maxAttempts ≠ 0) : Inv lowercase tracker start where
  keys := List.nodup_nil
  few := Nat.zero_le _
  below _ _ := Nat.pos_of_ne_zero fun zero => enabled (UInt32.toNat_inj.mp zero)
  held _ stored := by cases stored
  dropped _ _ := Account.Blank.reset ⟨rfl, rfl⟩ _
  exact := by
    intro before record after whole
    simp [start] at whole

theorem new_lockout {maxAttempts : UInt32} {lockoutMinutes : Nat} (long : lockoutMinutes ≠ 0)
    (built : LoginAttemptTracker.new maxAttempts lockoutMinutes = some tracker) :
    tracker.maxAttempts = maxAttempts ∧ tracker.timeToIdle = tracker.lockout ∧
      0 < tracker.lockout := by
  unfold LoginAttemptTracker.new at built
  dsimp only at built
  split at built
  next =>
    obtain rfl := Option.some.inj built
    refine ⟨rfl, ?_, ?_⟩ <;> simp only [minute] <;> omega
  next => cases built

/-- Lockouts are exact in every state of a run in which the cache never has to drop an identifier
for another. -/
theorem exact_of_careful {maxAttempts : UInt32} {lockoutMinutes : Nat}
    (enabled : maxAttempts ≠ 0) (long : lockoutMinutes ≠ 0)
    (built : LoginAttemptTracker.new maxAttempts lockoutMinutes = some tracker)
    (events : List Event) (last : World)
    (careful : Machine.Guarded (step lowercase tracker) (Careful lowercase) events start)
    (reached : Machine.run (step lowercase tracker) events start = some last) :
    Exact maxAttempts.toNat tracker.lockout (normalize lowercase) last.log := by
  obtain ⟨rfl, idle, positive⟩ := new_lockout long built
  exact (Machine.invariant_run (step lowercase tracker) (Careful lowercase)
    (Inv lowercase tracker)
    (fun _ _ _ inv careful taken => inv.step enabled idle positive careful taken) events start last
    (start_inv enabled) careful reached).exact

end Runs

section Locks

variable {maxAttempts lockout : Nat}

structure Account.Locked (account : Account) (lockout untilTime since : Nat) : Prop where
  lockedUntil : account.lockedUntil = some untilTime
  seen : account.seen = some since
  recent : untilTime ≤ since + lockout

theorem Account.Locked.step {account : Account} {untilTime since now : Nat} {operation : Operation}
    (locked : account.Locked lockout untilTime since) (later : since ≤ now)
    (early : now < untilTime)
    (kept : ∀ identifier, operation ≠ .clear identifier) :
    ((account.step maxAttempts lockout now operation).1).Locked lockout untilTime now ∧
      ∀ identifier, operation = .check identifier →
        (account.step maxAttempts lockout now operation).2 =
          .status (.locked (untilTime - now)) := by
  have still : account.reset lockout now = account := by
    rw [Account.reset_seen locked.seen (by have := locked.recent; omega), locked.lockedUntil,
      if_neg (by simp; omega)]
  have := locked.recent
  cases operation with
  | check identifier =>
      simp only [Account.step, still, locked.lockedUntil]
      exact ⟨⟨rfl, rfl, by omega⟩, fun _ _ => trivial⟩
  | recordFailure identifier =>
      simp only [Account.step, still, locked.lockedUntil]
      exact ⟨⟨rfl, rfl, by omega⟩, fun _ same => by cases same⟩
  | clear identifier => exact absurd rfl (kept identifier)

theorem Account.locks {account : Account} {now : Nat} {identifier : Text}
    (engaged : (account.step maxAttempts lockout now (.recordFailure identifier)).2 =
      .engaged true) :
    ((account.step maxAttempts lockout now (.recordFailure identifier)).1).Locked lockout
      (now + lockout) now ∧ (account.reset lockout now).failures + 1 = maxAttempts := by
  simp only [Account.step] at engaged ⊢
  split at engaged
  next reached =>
    rw [if_pos reached]
    exact ⟨⟨rfl, rfl, Nat.le_refl _⟩, reached.2⟩
  next => cases engaged

end Locks

section Flood

def lower (text : Text) : Text := text.map Char.toLower

-- One attempt, and a quarter of an hour
def strict : LoginAttemptTracker := ⟨1, 15 * minute, 15 * minute⟩

def named (number : Nat) : Text := List.replicate (number + 1) 'a'

theorem named_inj {first second : Nat} (same : named first = named second) : first = second := by
  have := congrArg List.length same
  simpa [named] using this

theorem normalize_named (number : Nat) : normalize lower (named number) = named number := by
  have trimmed : trim (named number) = named number := by
    have solid : Text.Solid Text.isVisible (named number) :=
      ⟨⟨'a', _, rfl, by decide⟩, ⟨_, 'a', List.replicate_succ', by decide⟩⟩
    simpa using Text.trim_solid [] (named number) [] (by simp [Text.Unmarked])
      (by simp [Text.Unmarked]) solid
  rw [normalize, trimmed, lower, named, List.map_replicate]
  rfl

def failed (number : Nat) : Event := .call (.recordFailure (named number))

def lockedEntry (number : Nat) : Entry := ⟨named number, ⟨1, some (15 * minute)⟩, 0⟩

structure Flooded (number : Nat) (world : World) : Prop where
  now : world.now = 0
  entries : world.entries = (List.range number).map lockedEntry
  account : world.account lower strict (named 0) =
    if number = 0 then .unknown else ⟨1, some (15 * minute), some 0⟩

theorem Flooded.get {number other : Nat} {world : World} (flooded : Flooded number world)
    (new : number ≤ other) : ∀ entry ∈ world.entries, entry.key ≠ named other := by
  intro entry stored same
  rw [flooded.entries] at stored
  obtain ⟨held, below, rfl⟩ := List.mem_map.mp stored
  have := named_inj same
  have := List.mem_range.mp below
  omega

theorem Flooded.step {number : Nat} {world : World} (flooded : Flooded number world) :
    ∃ next, step lower strict (failed number) world = some next ∧ Flooded (number + 1) next := by
  refine ⟨_, rfl, ?_⟩
  have new := flooded.get (Nat.le_refl number)
  have missing : world.get strict (named number) = none := by
    rw [World.get, Option.map_eq_none_iff, List.find?_eq_none]
    exact fun entry stored => by simp [World.live, new entry stored]
  have others : world.others (named number) = world.entries := by
    rw [World.others, List.filter_eq_self]
    exact fun entry stored => by simpa using new entry stored
  have called : world.call lower strict (.recordFailure (named number)) =
      { now := 0
        entries := world.entries ++ [lockedEntry number]
        log := world.log ++ [⟨0, .recordFailure (named number), .engaged true⟩] } := by
    simp only [World.call, Operation.identifier, normalize_named, missing, World.hold, others,
      World.answer, flooded.now]
    rfl
  rw [called]
  refine ⟨rfl, by simp [flooded.entries, List.range_succ], ?_⟩
  by_cases first : number = 0
  · subst first
    have account := accountOf_own 1 (15 * minute) world.log
      ⟨0, .recordFailure (named 0), .engaged true⟩ (normalize_named 0)
    refine account.trans ?_
    have unknown : accountOf 1 (15 * minute) (normalize lower) (named 0) world.log = .unknown :=
      flooded.account
    rw [unknown]
    rfl
  · have apart : normalize lower (named number) ≠ named 0 := by
      rw [normalize_named]
      exact fun same => first (named_inj same)
    refine (accountOf_other apart).trans (flooded.account.trans ?_)
    rw [if_neg first, if_neg (Nat.succ_ne_zero number)]

theorem flood (number : Nat) :
    ∃ world, Machine.run (step lower strict) ((List.range number).map failed) start = some world ∧
      Flooded number world := by
  induction number with
  | zero => exact ⟨start, rfl, rfl, rfl, rfl⟩
  | succ number ih =>
      obtain ⟨world, reached, flooded⟩ := ih
      obtain ⟨next, taken, flooded'⟩ := flooded.step
      refine ⟨next, ?_, flooded'⟩
      rw [List.range_succ, List.map_append, Machine.run_append, reached]
      simp [Machine.run, taken]

theorem lock_evicted :
    LoginAttemptTracker.new 1 15 = some strict ∧
    ∃ last, Machine.run (Lockout.step lower strict)
      ((List.range (maxCapacity + 1)).map failed ++ [.evict (named 0), .call (.check (named 0))])
        start = some last ∧
      ¬Exact 1 strict.lockout (normalize lower) last.log := by
  refine ⟨rfl, ?_⟩
  obtain ⟨world, reached, flooded⟩ := flood (maxCapacity + 1)
  have full : maxCapacity < world.entries.length := by simp [flooded.entries]
  have missing : World.get strict { world with entries := world.others (named 0) } (named 0) =
      none := by
    rw [World.get, Option.map_eq_none_iff, List.find?_eq_none]
    exact fun entry stored => by simp [World.live, (mem_others.mp stored).2]
  have called : World.call lower strict { world with entries := world.others (named 0) }
      (.check (named 0)) = World.answer { world with entries := world.others (named 0) }
        (.check (named 0)) (.status .opened) := by
    simp only [World.call, Operation.identifier, normalize_named, missing]
    rfl
  refine ⟨World.answer { world with entries := world.others (named 0) } (.check (named 0))
    (.status .opened), ?_, fun exact => ?_⟩
  · rw [Machine.run_append, reached]
    simp only [Option.bind_some, Machine.run, step, if_pos full, called]
  have answered := (exact_append.mp exact).2
  have account : accountOf 1 strict.lockout (normalize lower) (normalize lower (named 0))
      world.log = ⟨1, some (15 * minute), some 0⟩ := by
    rw [normalize_named]
    exact flooded.account
  rw [Operation.identifier, account] at answered
  simp [flooded.now, Account.step, Account.reset, strict, minute] at answered

-- A lock that is asked for before it ends, and when it does
def oneLock : List Event :=
  [failed 0, .call (.check (named 0)), .pass (15 * minute), .call (.check (named 0))]

theorem exact_of_careful_oneLock :
    ∃ last, Machine.run (Lockout.step lower strict) oneLock start = some last ∧
      Exact 1 strict.lockout (normalize lower) last.log := by
  have built : LoginAttemptTracker.new 1 15 = some strict := rfl
  have careful : Machine.Guarded (Lockout.step lower strict) (Careful lower) oneLock start :=
    ⟨Nat.zero_lt_succ _, trivial, trivial, trivial, trivial⟩
  exact ⟨_, rfl, exact_of_careful (show (1 : UInt32) ≠ 0 by decide) (show 15 ≠ 0 by decide) built
    oneLock _ careful rfl⟩

end Flood

end Frona.Lockout
