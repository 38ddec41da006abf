import Mathlib.Logic.Function.Basic
import Frona.Machine.Run
import Frona.Text.Utf8

set_option autoImplicit false

namespace Frona.Managed

open Utf8 (Text)

inductive CachePolicy where
  | noCache
  | untilTime (expiry : Int)
  | untilChanged
  deriving DecidableEq

structure Secret where
  credentials : Text
  expiresAt : Option Int
  cache : CachePolicy
  madeFrom : Nat
  deriving DecidableEq

/-- The stored document of a credential and its status. -/
structure Document where
  integration : Text
  version : Nat
  generation : Nat
  removed : Bool
  payload : Text
  deriving DecidableEq

structure Cached where
  version : Nat
  generation : Nat
  secret : Secret

structure Cell where
  owner : Option Nat
  cached : Option Cached

def CachePolicy.valid (now : Int) : CachePolicy → Bool
  | noCache => false
  | untilTime expiry => decide (now < expiry)
  | untilChanged => true

def Secret.unexpired (now : Int) (secret : Secret) : Bool :=
  match secret.expiresAt with
  | none => true
  | some expiry => decide (now < expiry)

-- What the integration returned may not be kept already.
def Secret.outdated (now : Int) (secret : Secret) : Bool :=
  match secret.cache with
  | .untilTime expiry => decide (expiry ≤ now)
  | _ => false

/-- The parts of the last check: `verify` makes two calls, then the caller is authorized again. -/
inductive Check where
  | available
  | row
  | permission
  deriving DecidableEq

structure Answer where
  status : Document
  secret : Secret
  time : Int
  fromCache : Bool
  deriving DecidableEq

inductive Phase where
  | authorizing
  | entering
  | waiting (entry : Nat)
  | admitted (entry : Nat)
  | checking (entry : Nat)
  | reading (entry : Nat)
  | loading (entry : Nat)
  -- `get_secret` is in flight; an update of the document may have failed.
  | resolving (entry : Nat) (status : Document) (failed : Bool)
  -- `replace_by_id` has read the row that it is about to write.
  | storing (entry : Nat) (status : Document) (generation : Nat)
  | verifying (check : Check) (entry : Nat) (status : Document) (failed : Bool) (secret : Secret)
      (fresh : Bool)
  | done (answer : Option Answer)
  deriving DecidableEq

structure Call where
  vault : Text
  id : Nat
  caller : Text
  phase : Phase
  -- Where the history stood when the call began, and whether it had to refresh.
  began : Nat
  refreshed : Bool

structure Moment where
  documents : Text → Nat → Option Document
  granted : Text → Bool

structure World where
  documents : Text → Nat → Option Document
  available : Text → Bool
  granted : Text → Bool
  now : Int
  entries : List (Nat × Nat)
  next : Nat
  cells : Nat → Cell
  calls : List Call
  -- No step reads the past.
  history : List Moment

inductive Event where
  | call (vault : Text) (id : Nat) (caller : Text)
  | go (call : Nat)
  -- The integration stores a new version, or tries to.
  | update (call : Nat)
  | stored (call : Nat) (version : Nat) (payload : Text) (refused : Bool)
  | resolved (call : Nat) (credentials : Text) (expiresAt : Option Int) (cache : CachePolicy)
  -- The integration fails, the database does, or the request is given up.
  | abort (call : Nat)
  | replace (vault : Text) (id : Nat) (document : Document)
  | delete (vault : Text) (id : Nat)
  | revoke (caller : Text)
  | setAvailable (vault : Text) (available : Bool)
  | tick (later : Int)

def maxIdleEntries : Nat := 1024

section Phases

def Phase.holds : Phase → Option Nat
  | authorizing | entering | done _ => none
  | waiting entry | admitted entry | checking entry | reading entry | loading entry
  | resolving entry .. | storing entry .. | verifying _ entry .. => some entry

def Phase.owns : Phase → Option Nat
  | authorizing | entering | waiting _ | done _ => none
  | admitted entry | checking entry | reading entry | loading entry | resolving entry ..
  | storing entry .. | verifying _ entry .. => some entry

def Phase.inFlight : Phase → Prop
  | resolving .. | storing .. => True
  | _ => False

end Phases

-- The integrations that are there
variable (registered : Text → Bool)

namespace World

variable (world : World)

def moment : Moment := ⟨world.documents, world.granted⟩

def record : World := { world with history := world.history ++ [world.moment] }

def put (index : Nat) (call : Call) : World := { world with calls := world.calls.set index call }

def setCell (entry : Nat) (cell : Cell) : World :=
  { world with cells := Function.update world.cells entry cell }

def move (index : Nat) (call : Call) (phase : Phase) : World :=
  world.put index { call with phase := phase }

def write (vault : Text) (id : Nat) (document : Option Document) : World :=
  let rows := Function.update (world.documents vault) id document
  { world with documents := Function.update world.documents vault rows }

def finish (index : Nat) (call : Call) (answer : Option Answer) : World :=
  match call.phase.owns with
  | none => world.move index call (.done answer)
  | some entry =>
      (world.setCell entry { world.cells entry with owner := none }).move index call (.done answer)

def isHeld (entry : Nat) : Bool := world.calls.any fun call => call.phase.holds = some entry

def enter (index : Nat) (call : Call) : World :=
  let entries := if maxIdleEntries ≤ world.entries.length then
    world.entries.filter fun entry => world.isHeld entry.2 else world.entries
  match entries.lookup call.id with
  | some entry => { world with entries := entries }.move index call (.waiting entry)
  | none =>
      let entered := { world with
        entries := (call.id, world.next) :: entries
        next := world.next + 1 }
      (entered.setCell world.next ⟨none, none⟩).move index call (.waiting world.next)

/-- `*cached = None`, in front of the refresh. -/
def clear (index : Nat) (call : Call) (entry : Nat) : World :=
  (world.setCell entry { world.cells entry with cached := none }).move index
    { call with refreshed := true } (.loading entry)

def hit (entry : Nat) (status : Document) : Option Secret :=
  match (world.cells entry).cached with
  | none => none
  | some cached =>
      if cached.version = status.version ∧ cached.generation = status.generation ∧
          cached.secret.cache.valid world.now = true ∧ cached.secret.unexpired world.now = true then
        some cached.secret
      else none

def active (vault : Text) (id : Nat) : Option Document :=
  (world.documents vault id).filter fun document => !document.removed

def conclude (index : Nat) (call : Call) (entry : Nat) (status : Document) (secret : Secret)
    (fresh : Bool) : World :=
  if fresh then
    if secret.outdated world.now = true ∨ secret.unexpired world.now = false then
      world.finish index call none
    else
      let kept := if secret.cache = .noCache then world
        else world.setCell entry { world.cells entry with
          cached := some ⟨status.version, status.generation, secret⟩ }
      kept.finish index call (some ⟨status, secret, world.now, false⟩)
  else if secret.cache.valid world.now = true ∧ secret.unexpired world.now = true then
    world.finish index call (some ⟨status, secret, world.now, true⟩)
  else world.clear index call entry

def verify (index : Nat) (call : Call) (check : Check) (entry : Nat) (status : Document)
    (failed : Bool) (secret : Secret) (fresh : Bool) : World :=
  match check with
  | .available =>
      if world.available call.vault then
        world.move index call (.verifying .row entry status failed secret fresh)
      else world.finish index call none
  | .row =>
      match world.active call.vault call.id with
      | none => world.finish index call none
      | some current =>
          if failed = false ∧ current.version = status.version ∧
              current.generation = status.generation then
            world.move index call (.verifying .permission entry status failed secret fresh)
          else world.finish index call none
  | .permission =>
      if world.granted call.caller then world.conclude index call entry status secret fresh
      else world.finish index call none

/-- The next step of `resolve`, where the call can go on. -/
def go (index : Nat) (call : Call) : Option World :=
  match call.phase with
  | .authorizing =>
      some (if world.granted call.caller then world.move index call .entering
        else world.finish index call none)
  | .entering => some (world.enter index call)
  | .waiting entry =>
      match (world.cells entry).owner with
      | some _ => none
      | none =>
          let admitted := world.setCell entry { world.cells entry with owner := some index }
          some (admitted.move index call (.admitted entry))
  | .admitted entry =>
      some (if world.granted call.caller then world.move index call (.checking entry)
        else world.finish index call none)
  | .checking entry =>
      some (if world.available call.vault then world.move index call (.reading entry)
        else world.finish index call none)
  | .reading entry =>
      match world.active call.vault call.id with
      | none => some (world.finish index call none)
      | some status =>
          if registered status.integration = false then some (world.finish index call none)
          else match world.hit entry status with
          | some secret =>
              some (world.move index call (.verifying .available entry status false secret false))
          | none => some (world.clear index call entry)
  | .loading entry =>
      match world.active call.vault call.id with
      | none => some (world.finish index call none)
      | some status =>
          if registered status.integration = false then some (world.finish index call none)
          else some (world.move index call (.resolving entry status false))
  | .verifying check entry status failed secret fresh =>
      some (world.verify index call check entry status failed secret fresh)
  | .resolving .. | .storing .. | .done _ => none

/-- `update_secret`: the row must still have the version that the integration knows. -/
def update (index : Nat) (call : Call) : Option World :=
  match call.phase with
  | .resolving entry status failed =>
      let refuse := world.move index call (.resolving entry status true)
      if failed then some refuse
      else if world.available call.vault = false then some refuse
      else match world.documents call.vault call.id with
      | none => some refuse
      | some current =>
          some (if current.version ≠ status.version then refuse
            else world.move index call (.storing entry status (current.generation + 1)))
  | _ => none

/-- The row is written where it still has that version. -/
def store (index : Nat) (call : Call) (version : Nat) (payload : Text) (refused : Bool) :
    Option World :=
  match call.phase with
  | .storing entry status generation =>
      let refuse := world.move index call (.resolving entry status true)
      if refused = true ∨ world.available call.vault = false then some refuse
      else match world.documents call.vault call.id with
      | none => some refuse
      | some current =>
          if current.version ≠ status.version then some refuse
          else
            let stored : Document := ⟨status.integration, version, generation, false, payload⟩
            some ((world.write call.vault call.id (some stored)).move index call
              (.resolving entry stored false))
  | _ => none

def resolved (index : Nat) (call : Call) (credentials : Text) (expiresAt : Option Int)
    (cache : CachePolicy) : Option World :=
  match call.phase with
  | .resolving entry status failed =>
      some (world.move index call (.verifying .available entry status failed
        ⟨credentials, expiresAt, cache, status.version⟩ true))
  | _ => none

end World

def World.advance (world : World) (index : Nat) (take : Call → Option World) : Option World :=
  match world.calls[index]? with
  | none => none
  | some call => take call

def World.take (world : World) : Event → Option World
  | .call vault id caller =>
      some { world with
        calls := world.calls ++ [⟨vault, id, caller, .authorizing, world.history.length, false⟩] }
  | .go index => world.advance index (world.go registered index)
  | .update index => world.advance index (world.update index)
  | .stored index version payload refused =>
      world.advance index fun call => world.store index call version payload refused
  | .resolved index credentials expiresAt cache =>
      world.advance index fun call => world.resolved index call credentials expiresAt cache
  | .abort index =>
      world.advance index fun call => match call.phase with
        | .done _ => none
        | _ => some (world.finish index call none)
  | .replace vault id document => some (world.write vault id (some document))
  | .delete vault id => some (world.write vault id none)
  | .revoke caller => some { world with granted := Function.update world.granted caller false }
  | .setAvailable vault available =>
      some { world with available := Function.update world.available vault available }
  | .tick later => if world.now ≤ later then some { world with now := later } else none

def step (event : Event) (world : World) : Option World :=
  world.record.take registered event

def World.begin (documents : Text → Nat → Option Document) (available granted : Text → Bool)
    (now : Int) : World where
  documents := documents
  available := available
  granted := granted
  now := now
  entries := []
  next := 0
  cells _ := ⟨none, none⟩
  calls := []
  history := []

end Frona.Managed
