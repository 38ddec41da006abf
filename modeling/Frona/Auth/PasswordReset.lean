import Frona.Machine.Lists
import Frona.Machine.Run
import Frona.Text.Utf8
import Mathlib.Data.List.MinMax
import Mathlib.Data.List.Nodup

set_option autoImplicit false

namespace Frona.PasswordReset

open Utf8 (Text)

/-- A row of `password_reset_token`. The secret itself is not stored. -/
structure PasswordResetToken where
  tokenHash : Text
  expiresAt : Nat
  createdAt : Nat
  deriving DecidableEq

inductive Call where
  | idle
  -- `issue_if_allowed`: the read of the last row, the deletion of all, the new row
  | checking
  | deciding (last : Option Nat)
  | creating
  -- `consume`
  | taking (secret : Text)
  | burning
  | invalidating
  deriving DecidableEq

def Call.issuing : Call → Bool
  | deciding _ | creating => true
  | _ => false

structure World where
  now : Nat
  rows : List PasswordResetToken
  calls : Nat → Call
  -- What was issued and redeemed, and the hashes issued before the last `consume` that succeeded.
  -- No step reads these.
  issued : List PasswordResetToken
  redeemed : List (Text × Nat)
  burned : List Text

inductive Event where
  | pass (time : Nat)
  | issue (id : Nat)
  | consume (id : Nat) (secret : Text)
  | invalidate (id : Nat)
  -- The next call to the repository, with the secret that is drawn if one is
  | go (id : Nat) (secret : Text)
  | fail (id : Nat)

section Steps

-- SHA-256, in hexadecimal
variable (hash : Text → Text) (expiry cooldown : Nat)

namespace World

variable (world : World)

def put (id : Nat) (call : Call) : World :=
  { world with calls := Function.update world.calls id call }

def begin (id : Nat) (call : Call) : Option World :=
  if world.calls id = .idle then some (world.put id call) else none

def latestCreatedAt : Option Nat := (world.rows.map PasswordResetToken.createdAt).max?

def deleteByUserId : World := { world with rows := [] }

def create (secret : Text) : World :=
  let token : PasswordResetToken := ⟨hash secret, world.now + expiry, world.now⟩
  { world with rows := world.rows ++ [token], issued := world.issued ++ [token] }

def redeems (secret : Text) (row : PasswordResetToken) : Bool :=
  decide (row.tokenHash = hash secret ∧ world.now < row.expiresAt)

def takeByHash (secret : Text) : World :=
  { world with
    rows := world.rows.filter fun row => !world.redeems hash secret row
    redeemed := world.redeemed ++ [(hash secret, world.now)] }

def coolingDown (last : Option Nat) : Bool :=
  last.any fun last => decide (last ≤ world.now ∧ world.now < last + cooldown)

def go (id : Nat) (secret : Text) : Call → Option World
  | .idle => none
  | .checking => some (world.put id (.deciding world.latestCreatedAt))
  | .deciding last =>
      if world.coolingDown cooldown last then some (world.put id .idle)
      else some (world.deleteByUserId.put id .creating)
  | .creating =>
      -- A secret that was never drawn before
      if hash secret ∈ world.issued.map PasswordResetToken.tokenHash then none
      else some ((world.create hash expiry secret).put id .idle)
  | .taking secret =>
      if world.rows.any (world.redeems hash secret) then
        some ((world.takeByHash hash secret).put id .burning)
      else some (world.put id .idle)
  | .burning =>
      some ({ world.deleteByUserId with
        burned := world.issued.map PasswordResetToken.tokenHash }.put id .idle)
  | .invalidating => some (world.deleteByUserId.put id .idle)

end World

def step : Event → World → Option World
  | .pass time, world => some { world with now := world.now + time }
  | .issue id, world => world.begin id .checking
  | .consume id secret, world => world.begin id (.taking secret)
  | .invalidate id, world => world.begin id .invalidating
  | .go id secret, world => world.go hash expiry cooldown id secret (world.calls id)
  | .fail id, world => if world.calls id = .idle then none else some (world.put id .idle)

def start : World := ⟨0, [], fun _ => .idle, [], [], []⟩

end Steps

section Claims

variable (cooldown : Nat)

structure Sound (world : World) : Prop where
  once : (world.redeemed.map Prod.fst).Nodup
  inTime : ∀ use ∈ world.redeemed, ∃ token ∈ world.issued,
    token.tokenHash = use.1 ∧ use.2 < token.expiresAt
  burned : ∀ row ∈ world.rows, row.tokenHash ∉ world.burned
  single : (∀ id, world.calls id = .idle) →
    (world.rows.filter fun row => world.now < row.expiresAt).length ≤ 1
  spaced : world.issued.Pairwise fun first second => first.createdAt + cooldown ≤ second.createdAt

/-- No two calls issue at once, and the last secret is looked for only if its row is still there or
its cooldown is past. -/
def Careful : Event → World → Prop
  | .go id _, world => world.calls id = .checking →
      (∀ other, (world.calls other).issuing = false) ∧
      ∀ last ∈ world.issued.getLast?, last ∈ world.rows ∨ last.createdAt + cooldown ≤ world.now
  | _, _ => True

end Claims

section Invariant

variable (cooldown : Nat) (world : World)

def Call.Knows : Call → Prop
  | .deciding last => (∀ time ∈ last, time ≤ world.now) ∧ ∀ token ∈ world.issued,
      (∃ time ∈ last, token.createdAt ≤ time) ∨ token.createdAt + cooldown ≤ world.now
  | .creating => world.rows = [] ∧
      ∀ token ∈ world.issued, token.createdAt + cooldown ≤ world.now
  | _ => True

structure Inv : Prop where
  stored : world.rows.Sublist world.issued
  fresh : (world.issued.map PasswordResetToken.tokenHash).Nodup
  past : ∀ token ∈ world.issued, token.createdAt ≤ world.now
  few : world.rows.length ≤ 1
  used : ∀ use ∈ world.redeemed, (∃ token ∈ world.issued,
    token.tokenHash = use.1 ∧ use.2 < token.expiresAt) ∧ ∀ row ∈ world.rows, row.tokenHash ≠ use.1
  once : (world.redeemed.map Prod.fst).Nodup
  known : ∀ tokenHash ∈ world.burned, tokenHash ∈ world.issued.map PasswordResetToken.tokenHash
  burned : ∀ row ∈ world.rows, row.tokenHash ∉ world.burned
  spaced : world.issued.Pairwise fun first second => first.createdAt + cooldown ≤ second.createdAt
  alone : ∀ first second, (world.calls first).issuing = true →
    (world.calls second).issuing = true → first = second
  calls : ∀ id, (world.calls id).Knows cooldown world

end Invariant

section Kept

variable {cooldown expiry : Nat} {hash : Text → Text} {world : World} {id : Nat}

theorem Call.knows_of_not_issuing {call : Call} (other : call.issuing = false) :
    call.Knows cooldown world := by
  cases call with
  | deciding | creating => cases other
  | idle | checking | taking | burning | invalidating => trivial

theorem Inv.put (inv : Inv cooldown world) {call : Call} (knows : call.Knows cooldown world)
    (alone : call.issuing = true → ∀ other ≠ id, (world.calls other).issuing = false) :
    Inv cooldown (world.put id call) := by
  refine { inv with alone := ?_, calls := ?_ }
  · intro first second
    simp only [World.put, Function.update_apply]
    split <;> split
    next here there => exact fun _ _ => here.trans there.symm
    next here there =>
      intro issues issues'
      rw [alone issues second there] at issues'
      cases issues'
    next here there =>
      intro issues issues'
      rw [alone issues' first here] at issues
      cases issues
    next => exact inv.alone first second
  · exact @Machine.forall_update _ _ _ _ (fun _ (call : Call) => call.Knows cooldown world)
      inv.calls knows

theorem Inv.quiet (inv : Inv cooldown world) {call : Call} (other : call.issuing = false) :
    Inv cooldown (world.put id call) :=
  inv.put (Call.knows_of_not_issuing other) fun issues => by simp [other] at issues

theorem Inv.pass (inv : Inv cooldown world) (time : Nat) :
    Inv cooldown { world with now := world.now + time } := by
  refine { inv with past := ?_, calls := ?_ }
  · exact fun token member => (inv.past token member).trans (Nat.le_add_right _ _)
  · intro id
    have knows := inv.calls id
    cases stage : world.calls id with
    | deciding last =>
        rw [stage] at knows
        refine ⟨fun time' member => (knows.1 time' member).trans (Nat.le_add_right _ _), ?_⟩
        exact fun token member => (knows.2 token member).imp_right
          fun past => past.trans (Nat.le_add_right _ _)
    | creating =>
        rw [stage] at knows
        exact ⟨knows.1, fun token member => (knows.2 token member).trans (Nat.le_add_right _ _)⟩
    | idle | checking | taking | burning | invalidating => trivial

theorem Inv.fewer (inv : Inv cooldown world) {rows : List PasswordResetToken}
    (fewer : rows.Sublist world.rows) : Inv cooldown { world with rows := rows } := by
  refine { inv with stored := ?_, few := ?_, used := ?_, burned := ?_, calls := ?_ }
  · exact fewer.trans inv.stored
  · exact fewer.length_le.trans inv.few
  · exact fun use member => ⟨(inv.used use member).1,
      fun row stored => (inv.used use member).2 row (fewer.subset stored)⟩
  · exact fun row stored => inv.burned row (fewer.subset stored)
  · intro id
    have knows := inv.calls id
    cases stage : world.calls id with
    | creating =>
        rw [stage] at knows
        refine ⟨?_, knows.2⟩
        have none_ := knows.1
        rw [none_] at fewer
        exact List.sublist_nil.mp fewer
    | deciding last =>
        rw [stage] at knows
        exact knows
    | idle | checking | taking | burning | invalidating => trivial

theorem Inv.check (inv : Inv cooldown world) (alone : ∀ other, (world.calls other).issuing = false)
    (recent : ∀ last ∈ world.issued.getLast?,
      last ∈ world.rows ∨ last.createdAt + cooldown ≤ world.now) :
    Inv cooldown (world.put id (.deciding world.latestCreatedAt)) := by
  refine inv.put ⟨?_, ?_⟩ fun _ other _ => alone other
  · intro time latest
    obtain ⟨row, stored, rfl⟩ := List.mem_map.mp (List.max?_mem latest)
    exact inv.past row (inv.stored.subset stored)
  · intro token member
    obtain ⟨last, ends⟩ := Option.isSome_iff_exists.mp
      (List.getLast?_isSome.mpr (List.ne_nil_of_mem member))
    obtain ⟨init, whole⟩ := List.getLast?_eq_some_iff.mp ends
    have spaced := inv.spaced
    rw [whole] at member spaced
    rcases List.mem_append.mp member with earlier | final
    · -- The last secret was itself issued a cooldown later.
      have apart := (List.pairwise_append.mp spaced).2.2 token earlier last (by simp)
      exact .inr (apart.trans (inv.past last (by simp [whole])))
    · obtain rfl := List.mem_singleton.mp final
      refine (recent token ends).imp_left fun stored => ?_
      have listed := List.mem_map_of_mem (f := PasswordResetToken.createdAt) stored
      cases latest : world.latestCreatedAt with
      | none =>
          rw [List.max?_eq_none_iff.mp latest] at listed
          cases listed
      | some time => exact ⟨time, rfl, (List.max?_le_iff latest).mp (Nat.le_refl _) _ listed⟩

theorem Inv.decide (inv : Inv cooldown world) {last : Option Nat}
    (stage : world.calls id = .deciding last) (over_ : world.coolingDown cooldown last = false) :
    Inv cooldown (world.deleteByUserId.put id .creating) := by
  have knows := inv.calls id
  rw [stage] at knows
  refine (inv.fewer (List.nil_sublist _)).put ⟨rfl, fun token member => ?_⟩ ?_
  · rcases knows.2 token member with ⟨time, found, before⟩ | past
    · have early := knows.1 time found
      obtain rfl := Option.mem_def.mp found
      have := by simpa [World.coolingDown] using over_
      have := this early
      exact (Nat.add_le_add_right before _).trans this
    · exact past
  · intro _ other apart
    by_contra issues
    exact apart (inv.alone other id (by simpa using issues) (by simp [stage, Call.issuing]))

theorem Inv.create (inv : Inv cooldown world) (stage : world.calls id = .creating) {secret : Text}
    (fresh : hash secret ∉ world.issued.map PasswordResetToken.tokenHash) :
    Inv cooldown ((world.create hash expiry secret).put id .idle) := by
  have ⟨empty, spaced⟩ : world.rows = [] ∧ ∀ token ∈ world.issued,
      token.createdAt + cooldown ≤ world.now := by
    have knows := inv.calls id
    rwa [stage] at knows
  have rows : (world.create hash expiry secret).rows =
      [⟨hash secret, world.now + expiry, world.now⟩] := by
    simp [World.create, empty]
  have others : ∀ other ≠ id, (world.calls other).issuing = false := by
    intro other apart
    by_contra issues
    exact apart (inv.alone other id (by simpa using issues) (by simp [stage, Call.issuing]))
  refine {
    stored := inv.stored.append (List.Sublist.refl _), fresh := ?_, past := ?_, few := ?_,
    used := ?_, once := inv.once, known := ?_, burned := ?_, spaced := ?_, alone := ?_,
    calls := ?_ }
  · simp only [World.put, World.create, List.map_append, List.map_cons, List.map_nil]
    exact Machine.nodup_snoc.mpr ⟨inv.fresh, fresh⟩
  · intro token member
    rcases List.mem_append.mp member with known | new
    · exact inv.past token known
    · obtain rfl := List.mem_singleton.mp new
      exact Nat.le_refl _
  · change (world.create hash expiry secret).rows.length ≤ 1
    rw [rows]
    exact Nat.le_refl 1
  · intro use member
    obtain ⟨⟨token, known, same, early⟩, -⟩ := inv.used use member
    refine ⟨⟨token, List.mem_append_left _ known, same, early⟩, fun row stored => ?_⟩
    have new : row ∈ (world.create hash expiry secret).rows := stored
    rw [rows] at new
    obtain rfl := List.mem_singleton.mp new
    exact fun same' => fresh (List.mem_map.mpr ⟨token, known, same.trans same'.symm⟩)
  · intro tokenHash member
    change tokenHash ∈ (world.issued ++ _).map _
    rw [List.map_append]
    exact List.mem_append_left _ (inv.known tokenHash member)
  · intro row stored
    have new : row ∈ (world.create hash expiry secret).rows := stored
    rw [rows] at new
    obtain rfl := List.mem_singleton.mp new
    exact fun burned => fresh (inv.known _ burned)
  · refine List.pairwise_append.mpr ⟨inv.spaced, by simp, fun token member other last => ?_⟩
    obtain rfl := List.mem_singleton.mp last
    exact spaced token member
  · exact (show Inv cooldown (world.put id .idle) from inv.quiet rfl).alone
  · intro other
    by_cases same : other = id
    · subst same
      simp [World.put, Call.Knows]
    · have quiet : ((world.create hash expiry secret).put id .idle).calls other =
          world.calls other := by simp [World.put, World.create, same]
      rw [quiet]
      exact Call.knows_of_not_issuing (others other same)

theorem Inv.take (inv : Inv cooldown world) {secret : Text}
    (found : world.rows.any (world.redeems hash secret) = true) :
    Inv cooldown (world.takeByHash hash secret) := by
  obtain ⟨row, stored, redeems⟩ := List.any_eq_true.mp found
  -- There is only this row.
  have single : world.rows = [row] := by
    have few := inv.few
    match world.rows, stored, few with
    | [only], stored, _ => rw [List.mem_singleton.mp stored]
  have ⟨same, early⟩ : row.tokenHash = hash secret ∧ world.now < row.expiresAt := by
    simpa [World.redeems] using redeems
  have rows : (world.takeByHash hash secret).rows = [] := by
    simp [World.takeByHash, single, redeems]
  have fewer : Inv cooldown { world with rows := (world.takeByHash hash secret).rows } :=
    inv.fewer (rows ▸ List.nil_sublist _)
  refine { fewer with used := ?_, once := ?_ }
  · intro use member
    refine ⟨?_, by simp [rows]⟩
    rcases List.mem_append.mp member with known | new
    · exact (inv.used use known).1
    · obtain rfl := List.mem_singleton.mp new
      exact ⟨row, inv.stored.subset stored, same, early⟩
  · simp only [World.takeByHash, List.map_append, List.map_cons, List.map_nil]
    refine Machine.nodup_snoc.mpr ⟨inv.once, fun member => ?_⟩
    obtain ⟨use, known, twice⟩ := List.mem_map.mp member
    exact (inv.used use known).2 row stored (same.trans twice.symm)

theorem Inv.burn (inv : Inv cooldown world) :
    Inv cooldown { world.deleteByUserId with
      burned := world.issued.map PasswordResetToken.tokenHash } := by
  have empty : Inv cooldown world.deleteByUserId := inv.fewer (List.nil_sublist _)
  exact { empty with
    known := fun _ member => member
    burned := fun row stored => by cases stored }

theorem Inv.step {event : Event} {next : World} (inv : Inv cooldown world)
    (careful : Careful cooldown event world)
    (taken : step hash expiry cooldown event world = some next) : Inv cooldown next := by
  cases event with
  | pass time =>
      obtain rfl := Option.some.inj taken
      exact inv.pass time
  | issue id | consume id secret | invalidate id =>
      simp only [PasswordReset.step, World.begin] at taken
      split at taken
      next =>
        obtain rfl := Option.some.inj taken
        exact inv.quiet rfl
      next => cases taken
  | fail id =>
      simp only [PasswordReset.step] at taken
      split at taken
      next => cases taken
      next =>
        obtain rfl := Option.some.inj taken
        exact inv.quiet rfl
  | go id secret =>
      simp only [PasswordReset.step] at taken
      cases stage : world.calls id with
      | idle => simp [stage, World.go] at taken
      | checking =>
          rw [stage] at taken
          obtain rfl := Option.some.inj taken
          obtain ⟨alone, recent⟩ := careful stage
          exact inv.check alone recent
      | deciding last =>
          simp only [stage, World.go] at taken
          split at taken
          next =>
            obtain rfl := Option.some.inj taken
            exact inv.quiet rfl
          next past =>
            obtain rfl := Option.some.inj taken
            exact inv.decide stage (by simpa using past)
      | creating =>
          simp only [stage, World.go] at taken
          split at taken
          next => cases taken
          next fresh =>
            obtain rfl := Option.some.inj taken
            exact inv.create stage fresh
      | taking presented =>
          simp only [stage, World.go] at taken
          split at taken
          next found =>
            obtain rfl := Option.some.inj taken
            exact (inv.take found).quiet rfl
          next =>
            obtain rfl := Option.some.inj taken
            exact inv.quiet rfl
      | burning =>
          rw [stage] at taken
          obtain rfl := Option.some.inj taken
          exact inv.burn.quiet rfl
      | invalidating =>
          rw [stage] at taken
          obtain rfl := Option.some.inj taken
          exact (inv.fewer (List.nil_sublist _)).quiet rfl

theorem Inv.sound (inv : Inv cooldown world) : Sound cooldown world where
  once := inv.once
  inTime use member := (inv.used use member).1
  burned := inv.burned
  single _ := List.length_filter_le _ _ |>.trans inv.few
  spaced := inv.spaced

end Kept

section Runs

variable (hash : Text → Text) (expiry cooldown : Nat)

theorem start_inv : Inv cooldown start where
  stored := List.Sublist.refl _
  fresh := List.nodup_nil
  past := by simp [start]
  few := by simp [start]
  used := by simp [start]
  once := List.nodup_nil
  known := by simp [start]
  burned := by simp [start]
  spaced := List.Pairwise.nil
  alone := by simp [start, Call.issuing]
  calls _ := trivial

-- A link that is asked for and used, in seconds
def oneLink : List Event :=
  [.issue 0, .go 0 [], .go 0 [], .go 0 "a".toList, .consume 0 "a".toList, .go 0 [], .go 0 []]

theorem oneLink_careful : Machine.Guarded (step id 1800 60) (Careful 60) oneLink start := by
  refine ⟨trivial, fun _ => ⟨fun other => ?_, by decide⟩, fun stage => absurd stage (by decide),
    fun stage => absurd stage (by decide), trivial, fun stage => absurd stage (by decide),
    fun stage => absurd stage (by decide), trivial⟩
  by_cases same : other = 0 <;> simp [World.put, start, Call.issuing, same]

-- Both calls look for the last link before either has stored its own.
def twoLinks : List Event :=
  [.issue 0, .issue 1, .go 0 [], .go 1 [], .go 0 [], .go 1 [], .go 0 "a".toList, .go 1 "b".toList]

end Runs

end Frona.PasswordReset
