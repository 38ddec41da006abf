import Frona.Machine.Redirects
import Frona.Pkm.Path
import Frona.Reconcile.Proposals

set_option autoImplicit false

namespace Frona.Resolve

open Frona.Pkm (AppError)
open Frona.Reconcile (Table)
open Utf8 (Text)

-- The evidence kept with each of these is read by no function here.
inductive IdentityProgress where
  | pending
  | distinct (fingerprint : Text)
  | coalesced (canonicalPath : Text)
  | unresolved (fingerprint : Text)
  deriving DecidableEq

def IdentityProgress.redirect : IdentityProgress → Option Text
  | coalesced canonicalPath => some canonicalPath
  | _ => none

structure Store where
  rows : Table IdentityProgress
  live : List Text

structure ConsolidationProgress where
  redirects : Table Text
  inputs : Table IdentityProgress

section Walk

theorem unseen_lt {keys seen : List Text} {key : Text} (member : key ∈ keys) (new : key ∉ seen) :
    (keys.filter fun other => other ∉ key :: seen).length <
      (keys.filter fun other => other ∉ seen).length := by
  have rest : (keys.filter fun other => other ∉ key :: seen) =
      (keys.filter fun other => other ∉ seen).filter fun other => other ≠ key := by
    rw [List.filter_filter]
    congr 1
    funext other
    simp [not_or]
  rw [rest]
  apply List.length_filter_lt_length_iff_exists.mpr
  exact ⟨key, List.mem_filter.mpr ⟨member, by simpa using new⟩, by simp⟩

theorem mem_keys_of_lookup {A : Type} {table : Table A} {key : Text} {value : A}
    (found : table.lookup key = some value) : key ∈ table.keys :=
  AList.mem_keys.mp (AList.lookup_isSome.mp (by simp [found]))

/-- The loop of `canonical_path`: it stops at a path that is not redirected, or was seen before. -/
def walk (redirects : Table Text) (seen : List Text) (current : Text) : Text :=
  if current ∈ seen then current
  else match _found : redirects.lookup current with
  | none => current
  | some next => walk redirects (current :: seen) next
termination_by (redirects.keys.filter fun key => key ∉ seen).length
decreasing_by
  exact unseen_lt (mem_keys_of_lookup ‹_›) ‹_›

def canonicalPath (redirects : Table Text) (path : Text) : Text := walk redirects [] path

def entityByPath (store : Store) (visited : List Text) (path : Text) :
    Except AppError (Option (Text × IdentityProgress)) :=
  if path ∈ visited then .error .database
  else match _found : store.rows.lookup path with
  | some (.coalesced canonical) => entityByPath store (path :: visited) canonical
  | some identity => .ok (some (path, identity))
  | none => .ok (if path ∈ store.live then some (path, .pending) else none)
termination_by (store.rows.keys.filter fun key => key ∉ visited).length
decreasing_by
  exact unseen_lt (mem_keys_of_lookup ‹_›) ‹_›

end Walk

section Open

def Table.mapValues {A B : Type} (change : A → B) (table : Table A) : Table B where
  entries := table.entries.map (Sigma.map id fun _ => change)
  nodupKeys := table.nodupKeys.map₂ fun _ => change

def recordedRedirects (rows : Table IdentityProgress) : Table Text :=
  rows.entries.foldr (fun row redirects => match row.2.redirect with
    | some canonical => redirects.insert row.1 canonical
    | none => redirects) ∅

def stageInput (store : Store) (path : Text) (progress : ConsolidationProgress) :
    Except AppError ConsolidationProgress :=
  match entityByPath store [] path with
  | .error error => .error error
  | .ok none => .ok progress
  | .ok (some (found, identity)) =>
      .ok { progress with inputs := progress.inputs.insert found identity }

def stageInputs (store : Store) : List Text → ConsolidationProgress →
    Except AppError ConsolidationProgress
  | [], progress => .ok progress
  | path :: rest, progress =>
      match stageInput store path progress with
      | .error error => .error error
      | .ok staged => stageInputs store rest staged

/-- `open`: the redirects come from the rows, the proposals from the entities that are due. -/
def openProgress (store : Store) (due : List Text) : Except AppError ConsolidationProgress :=
  stageInputs store due ⟨recordedRedirects store.rows, ∅⟩

end Open

structure World where
  store : Store
  progress : Option ConsolidationProgress
  -- The paths that lost a merge so far. No step looks at them.
  lost : List Text

section Merge

def disappeared (role path : Text) : Text :=
  "resolve: ".toList ++ role ++ " entity `".toList ++ path ++ "` disappeared".toList

def absent (role path : Text) : Text :=
  "consolidation: resolved ".toList ++ role ++ " entity `".toList ++ path ++
    "` is absent from working state".toList

def canonicalRole : Text := "canonical".toList

def losingRole : Text := "losing".toList

def redirectAll (path canonical : Text) (redirects : Table Text) : Table Text :=
  (Table.mapValues (fun target => if target = path then canonical else target) redirects).insert
    path canonical

-- `rows.get(path)`, or whatever the view finds there.
def hasRow (store : Store) (path : Text) : Bool :=
  match store.rows.lookup path, entityByPath store [] path with
  | some _, _ => true
  | none, .ok (some _) => true
  | none, _ => false

/--
`commit_resolved_merge`. The redirect is set in memory first; the two rows follow in one
transaction, which the database may refuse.
-/
def commitResolvedMerge (refused : Text → Bool) (path into : Text) (world : World)
    (progress : ConsolidationProgress) : Except AppError ConsolidationProgress × World :=
  let canonical := canonicalPath progress.redirects into
  let redirected := { progress with redirects := redirectAll path canonical progress.redirects }
  match progress.inputs.lookup canonical with
  | none => (.error (.internal (absent canonicalRole canonical)), world)
  | some identity =>
      if hasRow world.store path = false then
        (.error (.internal (absent losingRole path)), world)
      else if canonical = path ∨ refused path = true then (.error .database, world)
      else (.ok redirected, { world with
        store := { world.store with
          rows := (world.store.rows.insert canonical identity).insert path (.coalesced canonical) }
        lost := world.lost ++ [path] })

def requireInput (role path : Text) (store : Store) (progress : ConsolidationProgress) :
    Except AppError ConsolidationProgress :=
  match progress.inputs.lookup path with
  | some _ => .ok progress
  | none =>
      match entityByPath store [] path with
      | .error error => .error error
      | .ok none => .error (.internal (disappeared role path))
      | .ok (some (found, identity)) =>
          .ok { progress with inputs := progress.inputs.insert found identity }

def forget (path : Text) (progress : ConsolidationProgress) : ConsolidationProgress :=
  { progress with inputs := progress.inputs.erase path }

def duplicateRole : Text := "duplicate".toList

def resolvedCanonicalRole : Text := "resolved canonical".toList

def mergeLosing (refused : Text → Bool) (into : Text) :
    List Text → World → ConsolidationProgress → Except AppError ConsolidationProgress × World
  | [], world, progress => (.ok progress, world)
  | listed :: rest, world, progress =>
      let losing := canonicalPath progress.redirects listed
      let into' := canonicalPath progress.redirects into
      if losing = into' then mergeLosing refused into rest world progress
      else match requireInput duplicateRole losing world.store progress with
      | .error error => (.error error, world)
      | .ok staged =>
          match commitResolvedMerge refused losing into' world (forget losing staged) with
          | (.error error, after) => (.error error, after)
          | (.ok merged, after) => mergeLosing refused into rest after merged

def resolveMerge (refused : Text → Bool) (losing : List Text) (canonical : Text) (world : World)
    (progress : ConsolidationProgress) : Except AppError ConsolidationProgress × World :=
  let into := canonicalPath progress.redirects canonical
  match requireInput resolvedCanonicalRole into world.store progress with
  | .error error => (.error error, world)
  | .ok staged => mergeLosing refused into losing world staged

/-- `checkpoint_transition`: the item's row and the rows that are new. -/
def checkpointTransition (item : Text) (decided : Option IdentityProgress)
    (inputs : Table IdentityProgress) (rows : Table IdentityProgress) : Table IdentityProgress :=
  inputs.entries.foldl (fun written input =>
    if input.1 ≠ item ∧ (rows.lookup input.1).isSome then written
    else
      let held := (rows.lookup input.1).getD input.2
      written.insert input.1 (if input.1 = item then decided.getD held else held)) rows

end Merge

section Run

-- What happens in a pass, as far as the redirects and the rows go.
inductive Event where
  | reopen (due : List Text)
  | merge (refused : Text → Bool) (losing : List Text) (canonical : Text)
  | distinct (path fingerprint : Text)
  | unresolved (path fingerprint : Text)
  | checkpoint (item : Text)
  | crash

def World.checkpoint (world : World) (item : Text) (decided : Option IdentityProgress) : World :=
  match world.progress with
  | none => world
  | some progress =>
      { world with store := { world.store with
          rows := checkpointTransition item decided progress.inputs world.store.rows } }

def World.step (world : World) : Event → World
  | .reopen due => { world with progress := (openProgress world.store due).toOption }
  | .merge refused losing canonical =>
      match world.progress with
      | none => world
      | some progress =>
          let (result, after) := resolveMerge refused losing canonical world progress
          { after with progress := result.toOption }
  | .distinct path fingerprint => world.checkpoint path (some (.distinct fingerprint))
  | .unresolved path fingerprint => world.checkpoint path (some (.unresolved fingerprint))
  | .checkpoint item => world.checkpoint item none
  | .crash => { world with progress := none }

def World.run (world : World) (events : List Event) : World := events.foldl World.step world

def World.start (store : Store) : World := ⟨store, none, []⟩

end Run

end Frona.Resolve
