import Frona.Credential.Resolver

set_option autoImplicit false

namespace Frona.Managed

open Utf8 (Text)

variable {registered : Text → Bool}

section Lookup

theorem lookup_filter {entries : List (Nat × Nat)} {id entry : Nat} (kept : Nat × Nat → Bool)
    (found : entries.lookup id = some entry) (held : kept (id, entry) = true) :
    (entries.filter kept).lookup id = some entry := by
  induction entries with
  | nil => simp at found
  | cons first rest ih =>
      obtain ⟨other, value⟩ := first
      by_cases same : id = other
      · subst same
        obtain rfl : value = entry := by simpa using found
        simp [held]
      · have later : rest.lookup id = some entry := by
          simpa [List.lookup_cons, beq_eq_false_iff_ne.mpr same] using found
        by_cases stays : kept (other, value) = true
        · simpa [List.filter_cons, stays, List.lookup_cons, beq_eq_false_iff_ne.mpr same]
            using ih later
        · simpa [List.filter_cons, stays] using ih later

theorem mem_of_lookup {entries : List (Nat × Nat)} {id entry : Nat}
    (found : entries.lookup id = some entry) : (id, entry) ∈ entries := by
  induction entries with
  | nil => simp at found
  | cons first rest ih =>
      obtain ⟨other, value⟩ := first
      by_cases same : id = other
      · subst same
        obtain rfl : value = entry := by simpa using found
        simp
      · have later : rest.lookup id = some entry := by
          simpa [List.lookup_cons, beq_eq_false_iff_ne.mpr same] using found
        exact List.mem_cons_of_mem _ (ih later)

end Lookup

section Invariant

def Stored (history : List Moment) (call : Call) (version : Nat) : Prop :=
  ∃ index moment document, call.began ≤ index ∧ history[index]? = some moment ∧
    moment.documents call.vault call.id = some document ∧ document.removed = false ∧
    document.version = version

structure Served (history : List Moment) (call : Call) (answer : Answer) : Prop where
  produced : ∃ index moment document, call.began ≤ index ∧ history[index]? = some moment ∧
    moment.granted call.caller = true ∧
    moment.documents call.vault call.id = some document ∧ document.removed = false ∧
    document.version = answer.secret.madeFrom
  unexpired : answer.secret.unexpired answer.time = true
  -- nor is it one that its cache policy has given up
  current : answer.secret.outdated answer.time = false

def Call.Fits (history : List Moment) (call : Call) : Prop :=
  match call.phase with
  | .authorizing | .entering | .waiting _ | .admitted _ | .checking _ | .reading _ =>
      call.refreshed = false
  | .loading _ | .resolving .. | .storing .. => call.refreshed = true
  | .verifying check _ status _ secret fresh =>
      call.refreshed = fresh ∧ secret.madeFrom = status.version ∧
        (check = .permission → Stored history call status.version)
  | .done none => True
  | .done (some answer) =>
      Served history call answer ∧ (call.refreshed = true → answer.fromCache = false)

structure Kept (world : World) (index : Nat) (call : Call) : Prop where
  mapped : ∀ entry, call.phase.holds = some entry → world.entries.lookup call.id = some entry
  owned : ∀ entry, call.phase.owns = some entry → (world.cells entry).owner = some index
  began : call.began ≤ world.history.length
  cleared : call.refreshed = true → ∀ entry, call.phase.owns = some entry →
    (world.cells entry).cached = none
  fits : call.Fits world.history

structure Rest (world : World) (index : Nat) : Prop where
  bounded : ∀ entry ∈ world.entries, entry.2 < world.next
  honest : ∀ entry hit, (world.cells entry).cached = some hit → hit.secret.madeFrom = hit.version
  monotone : ∀ caller, world.granted caller = true →
    ∀ moment ∈ world.history, moment.granted caller = true
  others : ∀ other call, world.calls[other]? = some call → other ≠ index → Kept world other call

structure Sound (world : World) : Prop where
  bounded : ∀ entry ∈ world.entries, entry.2 < world.next
  honest : ∀ entry hit, (world.cells entry).cached = some hit → hit.secret.madeFrom = hit.version
  monotone : ∀ caller, world.granted caller = true →
    ∀ moment ∈ world.history, moment.granted caller = true
  calls : ∀ index call, world.calls[index]? = some call → Kept world index call

variable {world : World} {index : Nat} {call : Call}

theorem Sound.rest (sound : Sound world) (index : Nat) : Rest world index where
  bounded := sound.bounded
  honest := sound.honest
  monotone := sound.monotone
  others other call found _ := sound.calls other call found

theorem owns_holds {phase : Phase} {entry : Nat} (owned : phase.owns = some entry) :
    phase.holds = some entry := by
  cases phase <;> simp_all [Phase.owns, Phase.holds]

theorem inFlight_owns {phase : Phase} (flying : phase.inFlight) :
    ∃ entry, phase.owns = some entry := by
  cases phase <;> simp_all [Phase.owns, Phase.inFlight]

theorem Stored.append {history : List Moment} {version : Nat} (later : List Moment)
    (stored : Stored history call version) : Stored (history ++ later) call version := by
  obtain ⟨place, moment, document, after, recorded, held⟩ := stored
  refine ⟨place, moment, document, after, ?_, held⟩
  rw [List.getElem?_append_left (List.getElem?_eq_some_iff.mp recorded).1]
  exact recorded

theorem Served.append {history : List Moment} {answer : Answer} (later : List Moment)
    (served : Served history call answer) : Served (history ++ later) call answer where
  produced := by
    obtain ⟨place, moment, document, after, recorded, held⟩ := served.produced
    refine ⟨place, moment, document, after, ?_, held⟩
    rw [List.getElem?_append_left (List.getElem?_eq_some_iff.mp recorded).1]
    exact recorded
  unexpired := served.unexpired
  current := served.current

theorem Call.Fits.append {history : List Moment} (later : List Moment)
    (fits : call.Fits history) : call.Fits (history ++ later) := by
  unfold Call.Fits at fits ⊢
  cases phase : call.phase with
  | verifying check entry status failed secret fresh =>
      simp only [phase] at fits
      exact ⟨fits.1, fits.2.1, fun permission => (fits.2.2 permission).append later⟩
  | done answer =>
      cases answer with
      | none => trivial
      | some answer =>
          simp only [phase] at fits
          exact ⟨fits.1.append later, fits.2⟩
  | _ => simpa only [phase] using fits

theorem Sound.record (sound : Sound world) : Sound world.record where
  bounded := sound.bounded
  honest := sound.honest
  monotone caller granted moment recorded := by
    obtain past | now := List.mem_append.mp recorded
    · exact sound.monotone caller granted moment past
    · obtain rfl := List.mem_singleton.mp now
      exact granted
  calls index call found := by
    have kept := sound.calls index call found
    refine ⟨kept.mapped, kept.owned, ?_, kept.cleared, kept.fits.append _⟩
    simpa [World.record] using Nat.le_succ_of_le kept.began

end Invariant


section Parts

variable {world : World} {index : Nat} {call : Call}

theorem Kept.frame {world next : World} {index : Nat} {call : Call} (kept : Kept world index call)
    (history : next.history = world.history)
    (entries : ∀ entry, call.phase.holds = some entry →
      next.entries.lookup call.id = world.entries.lookup call.id)
    (cells : ∀ entry, call.phase.owns = some entry → next.cells entry = world.cells entry) :
    Kept next index call where
  mapped entry held := (entries entry held).trans (kept.mapped entry held)
  owned entry owned := by
    rw [cells entry owned]
    exact kept.owned entry owned
  began := history ▸ kept.began
  cleared refreshed entry owned := by
    rw [cells entry owned]
    exact kept.cleared refreshed entry owned
  fits := history ▸ kept.fits

theorem Rest.setCell (rest : Rest world index) {entry : Nat} (cell : Cell)
    (free : (world.cells entry).owner = some index ∨ (world.cells entry).owner = none)
    (honest : ∀ hit, cell.cached = some hit → hit.secret.madeFrom = hit.version) :
    Rest (world.setCell entry cell) index where
  bounded := rest.bounded
  honest other hit cached := by
    by_cases same : other = entry
    · subst same
      exact honest hit (by simpa [World.setCell] using cached)
    · exact rest.honest other hit (by simpa [World.setCell, same] using cached)
  monotone := rest.monotone
  others other call found away := by
    have kept := rest.others other call found away
    refine kept.frame rfl (fun _ _ => rfl) ?_
    intro own owned
    have apart : own ≠ entry := by
      rintro rfl
      have taken := kept.owned own owned
      rw [taken] at free
      simp only [Option.some.injEq, reduceCtorEq, or_false] at free
      exact away free
    simp [World.setCell, apart]

theorem Rest.put (rest : Rest world index) (kept : Kept world index call) :
    Sound (world.put index call) where
  bounded := rest.bounded
  honest := rest.honest
  monotone := rest.monotone
  calls other found member := by
    by_cases same : other = index
    · subst same
      simp only [World.put, List.getElem?_set_self'] at member
      obtain ⟨_, _, rfl⟩ := Option.map_eq_some_iff.mp member
      exact kept.frame rfl (fun _ _ => rfl) (fun _ _ => rfl)
    · have before : world.calls[other]? = some found := by
        simpa [World.put, List.getElem?_set_ne (Ne.symm same)] using member
      exact (rest.others other found before same).frame rfl (fun _ _ => rfl) (fun _ _ => rfl)

theorem Kept.step (kept : Kept world index call) {phase : Phase}
    (holds : phase.holds = call.phase.holds) (owns : phase.owns = call.phase.owns)
    (fits : { call with phase := phase : Call }.Fits world.history) :
    Kept world index { call with phase := phase } where
  mapped entry held := kept.mapped entry (holds ▸ held)
  owned entry owned := kept.owned entry (owns ▸ owned)
  began := kept.began
  cleared refreshed entry owned := kept.cleared refreshed entry (owns ▸ owned)
  fits := fits

theorem Sound.move (sound : Sound world) (kept : Kept world index call) {phase : Phase}
    (holds : phase.holds = call.phase.holds) (owns : phase.owns = call.phase.owns)
    (fits : { call with phase := phase : Call }.Fits world.history) :
    Sound (world.move index call phase) :=
  (sound.rest index).put (kept.step holds owns fits)

theorem kept_done {answer : Option Answer} (began : call.began ≤ world.history.length)
    (fits : { call with phase := .done answer : Call }.Fits world.history) :
    Kept world index { call with phase := .done answer } where
  mapped _ held := by simp [Phase.holds] at held
  owned _ owned := by simp [Phase.owns] at owned
  began := began
  cleared _ _ owned := by simp [Phase.owns] at owned
  fits := fits

theorem Rest.finish (rest : Rest world index) (began : call.began ≤ world.history.length)
    (owner : ∀ entry, call.phase.owns = some entry → (world.cells entry).owner = some index)
    {answer : Option Answer}
    (fits : { call with phase := .done answer : Call }.Fits world.history) :
    Sound (world.finish index call answer) := by
  unfold World.finish
  cases owned : call.phase.owns with
  | none => exact rest.put (kept_done began fits)
  | some entry =>
      have released := rest.setCell { world.cells entry with owner := none }
        (Or.inl (owner entry owned)) (rest.honest entry)
      exact released.put (kept_done began fits)

theorem Sound.fail (sound : Sound world) (kept : Kept world index call) :
    Sound (world.finish index call none) :=
  (sound.rest index).finish kept.began kept.owned trivial

theorem Sound.clear (sound : Sound world) (kept : Kept world index call) {entry : Nat}
    (owned : call.phase.owns = some entry) : Sound (world.clear index call entry) := by
  have emptied := (sound.rest index).setCell { world.cells entry with cached := none }
    (Or.inl (kept.owned entry owned)) (by simp)
  refine emptied.put ⟨?_, ?_, kept.began, ?_, rfl⟩
  next =>
    intro own same
    obtain rfl : entry = own := Option.some.inj same
    exact kept.mapped entry (owns_holds owned)
  next =>
    intro own same
    obtain rfl : entry = own := Option.some.inj same
    simpa [World.setCell] using kept.owned entry owned
  next =>
    intro _ own same
    obtain rfl : entry = own := Option.some.inj same
    simp [World.setCell]

end Parts

section Steps

variable {world : World} {index : Nat} {call : Call}

def Latest (world : World) : Prop :=
  ∃ place, world.history[place]? = some world.moment ∧
    ∀ (index : Nat) (call : Call), world.calls[index]? = some call → call.began ≤ place

theorem Sound.latest (sound : Sound world) : Latest world.record := by
  refine ⟨world.history.length, by simp [World.record, World.moment], ?_⟩
  intro index call found
  exact (sound.calls index call found).began

theorem isHeld_of_holds (found : world.calls[index]? = some call) {entry : Nat}
    (held : call.phase.holds = some entry) : world.isHeld entry = true := by
  simp only [World.isHeld, List.any_eq_true, decide_eq_true_eq]
  exact ⟨call, List.mem_of_getElem? found, held⟩

theorem Sound.enter (sound : Sound world) (kept : Kept world index call)
    (entering : call.phase = .entering) : Sound (world.enter index call) := by
  have unrefreshed : call.refreshed = false := by
    have fits := kept.fits
    simpa only [Call.Fits, entering] using fits
  obtain ⟨entries, shrunk⟩ : ∃ entries, entries = (if maxIdleEntries ≤ world.entries.length then
    world.entries.filter fun entry => world.isHeld entry.2 else world.entries) := ⟨_, rfl⟩
  have within : ∀ entry ∈ entries, entry ∈ world.entries := by
    intro entry listed
    subst shrunk
    split at listed
    · exact (List.mem_filter.mp listed).1
    · exact listed
  have found : ∀ (other : Nat) (held : Call) (entry : Nat), world.calls[other]? = some held →
      held.phase.holds = some entry → entries.lookup held.id = some entry := by
    intro other held entry listed holds
    have before := (sound.calls other held listed).mapped entry holds
    subst shrunk
    split
    · exact lookup_filter _ before (isHeld_of_holds listed holds)
    · exact before
  simp only [World.enter, ← shrunk]
  cases known : entries.lookup call.id with
  | some entry =>
      refine Rest.put ⟨fun entry listed => sound.bounded entry (within entry listed), sound.honest,
        sound.monotone, ?_⟩ ⟨?_, ?_, kept.began, ?_, unrefreshed⟩
      next =>
        intro other held listed _
        refine (sound.calls other held listed).frame rfl ?_ (fun _ _ => rfl)
        intro entry holds
        exact (found other held entry listed holds).trans
          ((sound.calls other held listed).mapped entry holds).symm
      next =>
        intro own same
        obtain rfl : entry = own := Option.some.inj same
        exact known
      next => simp [Phase.owns]
      next => simp [Phase.owns]
  | none =>
      refine Rest.put ⟨?_, ?_, sound.monotone, ?_⟩ ⟨?_, ?_, kept.began, ?_, unrefreshed⟩
      next =>
        intro entry listed
        obtain rfl | listed := List.mem_cons.mp listed
        · exact Nat.lt_succ_self _
        · exact Nat.lt_succ_of_lt (sound.bounded entry (within entry listed))
      next =>
        intro entry hit cached
        by_cases same : entry = world.next
        · subst same
          simp [World.setCell] at cached
        · exact sound.honest entry hit (by simpa [World.setCell, same] using cached)
      next =>
        intro other held listed _
        have mapped := (sound.calls other held listed).mapped
        refine (sound.calls other held listed).frame rfl ?_ ?_
        next =>
          intro entry holds
          have later := found other held entry listed holds
          -- the entry of the new call is not there yet
          have apart : held.id ≠ call.id := by
            intro same
            rw [same, known] at later
            cases later
          have same : ((call.id, world.next) :: entries).lookup held.id =
              entries.lookup held.id := by
            simp [List.lookup_cons, beq_eq_false_iff_ne.mpr apart]
          exact same.trans (later.trans (mapped entry holds).symm)
        next =>
          intro entry owned
          have old := sound.bounded _ (mem_of_lookup (mapped entry (owns_holds owned)))
          simp [World.setCell, Nat.ne_of_lt old]
      next =>
        intro own same
        obtain rfl : world.next = own := Option.some.inj same
        simp [World.setCell]
      next => simp [Phase.owns]
      next => simp [Phase.owns]

theorem Sound.admit (sound : Sound world) (kept : Kept world index call) {entry : Nat}
    (waiting : call.phase = .waiting entry) (free : (world.cells entry).owner = none) :
    Sound ((world.setCell entry { world.cells entry with owner := some index }).move index call
      (.admitted entry)) := by
  have unrefreshed : call.refreshed = false := by
    have fits := kept.fits
    simpa only [Call.Fits, waiting] using fits
  have taken := (sound.rest index).setCell { world.cells entry with owner := some index }
    (Or.inr free) (sound.honest entry)
  refine taken.put ⟨?_, ?_, kept.began, ?_, unrefreshed⟩
  next =>
    intro own same
    exact kept.mapped own (by rw [waiting]; exact same)
  next =>
    intro own same
    obtain rfl : entry = own := Option.some.inj same
    simp [World.setCell]
  next =>
    intro refreshed
    exact absurd (unrefreshed.symm.trans refreshed) (by simp)

theorem Sound.hit (sound : Sound world) {entry : Nat} {status : Document} {secret : Secret}
    (found : world.hit entry status = some secret) : secret.madeFrom = status.version := by
  unfold World.hit at found
  cases cached : (world.cells entry).cached with
  | none => simp [cached] at found
  | some hit =>
      simp only [cached] at found
      split at found
      next same =>
        obtain rfl := Option.some.inj found
        exact (sound.honest entry hit cached).trans same.1
      next => cases found

theorem Secret.outdated_of_valid {now : Int} {secret : Secret}
    (valid : secret.cache.valid now = true) : secret.outdated now = false := by
  unfold Secret.outdated
  cases policy : secret.cache with
  | untilTime expiry =>
      rw [policy] at valid
      simpa [CachePolicy.valid] using valid
  | _ => rfl

theorem Served.move {history : List Moment} {answer : Answer}
    (served : Served history call answer) (phase : Phase) :
    Served history { call with phase := phase } answer :=
  ⟨served.produced, served.unexpired, served.current⟩

theorem Stored.served (sound : Sound world) {answer : Answer} {version : Nat}
    (stored : Stored world.history call version) (granted : world.granted call.caller = true)
    (made : answer.secret.madeFrom = version)
    (unexpired : answer.secret.unexpired answer.time = true)
    (current : answer.secret.outdated answer.time = false) :
    Served world.history call answer where
  produced := by
    obtain ⟨place, moment, document, after, recorded, held, kept, same⟩ := stored
    refine ⟨place, moment, document, after, recorded, ?_, held, kept, same.trans made.symm⟩
    exact sound.monotone _ granted moment (List.mem_of_getElem? recorded)
  unexpired := unexpired
  current := current

theorem Sound.conclude (sound : Sound world) (kept : Kept world index call) {entry : Nat}
    {status : Document} {failed fresh : Bool} {secret : Secret}
    (verifying : call.phase = .verifying .permission entry status failed secret fresh)
    (granted : world.granted call.caller = true) :
    Sound (world.conclude index call entry status secret fresh) := by
  have owned : call.phase.owns = some entry := by rw [verifying]; rfl
  obtain ⟨refreshing, made, stored⟩ :
      call.refreshed = fresh ∧ secret.madeFrom = status.version ∧
        Stored world.history call status.version := by
    have fits := kept.fits
    simpa only [Call.Fits, verifying, true_implies] using fits
  unfold World.conclude
  cases fresh with
  | true =>
      simp only [↓reduceIte]
      split
      next => exact sound.fail kept
      next alive =>
        simp only [not_or, Bool.not_eq_true, Bool.not_eq_false] at alive
        have served : Served world.history call ⟨status, secret, world.now, false⟩ :=
          stored.served sound granted made alive.2 alive.1
        split
        next => exact (sound.rest index).finish kept.began kept.owned ⟨served.move _, fun _ => rfl⟩
        next =>
          -- the secret stays behind in the cell that the call has
          have filled := (sound.rest index).setCell
            { world.cells entry with cached := some ⟨status.version, status.generation, secret⟩ }
            (Or.inl (kept.owned entry owned)) (by
              intro hit same
              obtain rfl := Option.some.inj same
              exact made)
          refine filled.finish kept.began ?_ ⟨served.move _, fun _ => rfl⟩
          intro own same
          obtain rfl : entry = own := Option.some.inj (owned.symm.trans same)
          simpa [World.setCell] using kept.owned entry owned
  | false =>
      simp only [Bool.false_eq_true, ↓reduceIte]
      split
      next alive =>
        have served : Served world.history call ⟨status, secret, world.now, true⟩ :=
          stored.served sound granted made alive.2 (Secret.outdated_of_valid alive.1)
        refine (sound.rest index).finish kept.began kept.owned
          ⟨served.move _, fun refreshed => ?_⟩
        exact absurd (refreshing.symm.trans refreshed) (by simp)
      next => exact sound.clear kept owned

theorem active_eq_some {vault : Text} {id : Nat} {document : Document}
    (active : world.active vault id = some document) :
    world.documents vault id = some document ∧ document.removed = false := by
  simpa [World.active, Option.filter_eq_some_iff] using active

theorem Sound.verify (sound : Sound world) (latest : Latest world)
    (found : world.calls[index]? = some call) {check : Check} {entry : Nat} {status : Document}
    {failed fresh : Bool} {secret : Secret}
    (verifying : call.phase = .verifying check entry status failed secret fresh) :
    Sound (world.verify index call check entry status failed secret fresh) := by
  have kept := sound.calls index call found
  have holds : call.phase.holds = some entry := by rw [verifying]; rfl
  have owns : call.phase.owns = some entry := by rw [verifying]; rfl
  obtain ⟨refreshing, made, _⟩ :
      call.refreshed = fresh ∧ secret.madeFrom = status.version ∧
        (check = .permission → Stored world.history call status.version) := by
    have fits := kept.fits
    simpa only [Call.Fits, verifying] using fits
  cases check with
  | available =>
      simp only [World.verify]
      split
      next => exact sound.move kept holds.symm owns.symm ⟨refreshing, made, by simp⟩
      next => exact sound.fail kept
  | row =>
      simp only [World.verify]
      cases active : world.active call.vault call.id with
      | none => exact sound.fail kept
      | some current =>
          simp only
          split
          next same =>
            obtain ⟨place, recorded, after⟩ := latest
            obtain ⟨stored, there⟩ := active_eq_some active
            refine sound.move kept holds.symm owns.symm ⟨refreshing, made, fun _ => ?_⟩
            exact ⟨place, _, current, after index call found, recorded, stored, there, same.2.1⟩
          next => exact sound.fail kept
  | permission =>
      simp only [World.verify]
      split
      next granted => exact sound.conclude kept verifying granted
      next => exact sound.fail kept

end Steps

section Goes

variable {world next : World} {index : Nat} {call : Call}

theorem Sound.go (sound : Sound world) (latest : Latest world)
    (found : world.calls[index]? = some call)
    (taken : world.go registered index call = some next) : Sound next := by
  have kept := sound.calls index call found
  have fits := kept.fits
  unfold World.go at taken
  cases phase : call.phase with
  | authorizing =>
      simp only [phase, Option.some.injEq] at taken
      simp only [Call.Fits, phase] at fits
      subst taken
      split
      next => exact sound.move kept (by rw [phase]; rfl) (by rw [phase]; rfl) fits
      next => exact sound.fail kept
  | entering =>
      simp only [phase, Option.some.injEq] at taken
      subst taken
      exact sound.enter kept phase
  | waiting entry =>
      simp only [phase] at taken
      cases free : (world.cells entry).owner with
      | some _ => simp [free] at taken
      | none =>
          simp only [free, Option.some.injEq] at taken
          subst taken
          have admitted := sound.admit kept phase free
          simpa only [free] using admitted
  | admitted entry =>
      simp only [phase, Option.some.injEq] at taken
      simp only [Call.Fits, phase] at fits
      subst taken
      split
      next => exact sound.move kept (by rw [phase]; rfl) (by rw [phase]; rfl) fits
      next => exact sound.fail kept
  | checking entry =>
      simp only [phase, Option.some.injEq] at taken
      simp only [Call.Fits, phase] at fits
      subst taken
      split
      next => exact sound.move kept (by rw [phase]; rfl) (by rw [phase]; rfl) fits
      next => exact sound.fail kept
  | reading entry =>
      simp only [phase] at taken
      simp only [Call.Fits, phase] at fits
      cases active : world.active call.vault call.id with
      | none =>
          simp only [active, Option.some.injEq] at taken
          subst taken
          exact sound.fail kept
      | some status =>
          simp only [active] at taken
          split at taken
          next =>
            obtain rfl := Option.some.inj taken
            exact sound.fail kept
          next =>
            cases hit : world.hit entry status with
            | some secret =>
                simp only [hit, Option.some.injEq] at taken
                subst taken
                exact sound.move kept (by rw [phase]; rfl) (by rw [phase]; rfl)
                  ⟨fits, sound.hit hit, by simp⟩
            | none =>
                simp only [hit, Option.some.injEq] at taken
                subst taken
                exact sound.clear kept (by rw [phase]; rfl)
  | loading entry =>
      simp only [phase] at taken
      simp only [Call.Fits, phase] at fits
      cases active : world.active call.vault call.id with
      | none =>
          simp only [active, Option.some.injEq] at taken
          subst taken
          exact sound.fail kept
      | some status =>
          simp only [active] at taken
          split at taken
          next =>
            obtain rfl := Option.some.inj taken
            exact sound.fail kept
          next =>
            obtain rfl := Option.some.inj taken
            exact sound.move kept (by rw [phase]; rfl) (by rw [phase]; rfl) fits
  | verifying check entry status failed secret fresh =>
      simp only [phase, Option.some.injEq] at taken
      subst taken
      exact sound.verify latest found phase
  | resolving _ _ _ => simp [phase] at taken
  | storing _ _ _ => simp [phase] at taken
  | done _ => simp [phase] at taken

theorem Sound.update (sound : Sound world) (found : world.calls[index]? = some call)
    (taken : world.update index call = some next) : Sound next := by
  have kept := sound.calls index call found
  have fits := kept.fits
  unfold World.update at taken
  cases phase : call.phase with
  | resolving entry status failed =>
      simp only [phase] at taken
      simp only [Call.Fits, phase] at fits
      have refuse : Sound (world.move index call (.resolving entry status true)) :=
        sound.move kept (by rw [phase]; rfl) (by rw [phase]; rfl) fits
      have write : ∀ generation, Sound (world.move index call (.storing entry status generation)) :=
        fun generation => sound.move kept (by rw [phase]; rfl) (by rw [phase]; rfl) fits
      split at taken
      next => exact Option.some.inj taken ▸ refuse
      next =>
        split at taken
        next => exact Option.some.inj taken ▸ refuse
        next =>
          cases row : world.documents call.vault call.id with
          | none =>
              simp only [row] at taken
              exact Option.some.inj taken ▸ refuse
          | some current =>
              simp only [row] at taken
              obtain rfl := Option.some.inj taken
              split
              next => exact refuse
              next => exact write _
  | _ => simp [phase] at taken

theorem Sound.write (sound : Sound world) (vault : Text) (id : Nat) (document : Option Document) :
    Sound (world.write vault id document) where
  bounded := sound.bounded
  honest := sound.honest
  monotone := sound.monotone
  calls index call found :=
    (sound.calls index call found).frame rfl (fun _ _ => rfl) (fun _ _ => rfl)

theorem Sound.store (sound : Sound world) (found : world.calls[index]? = some call)
    {version : Nat} {payload : Text} {refused : Bool}
    (taken : world.store index call version payload refused = some next) : Sound next := by
  have kept := sound.calls index call found
  have fits := kept.fits
  unfold World.store at taken
  cases phase : call.phase with
  | storing entry status generation =>
      simp only [phase] at taken
      simp only [Call.Fits, phase] at fits
      have refuse : Sound (world.move index call (.resolving entry status true)) :=
        sound.move kept (by rw [phase]; rfl) (by rw [phase]; rfl) fits
      split at taken
      next => exact Option.some.inj taken ▸ refuse
      next =>
        cases row : world.documents call.vault call.id with
        | none =>
            simp only [row] at taken
            exact Option.some.inj taken ▸ refuse
        | some current =>
            simp only [row] at taken
            split at taken
            next => exact Option.some.inj taken ▸ refuse
            next =>
              obtain rfl := Option.some.inj taken
              have written := sound.write call.vault call.id
                (some ⟨status.integration, version, generation, false, payload⟩)
              exact written.move (written.calls index call found) (by rw [phase]; rfl)
                (by rw [phase]; rfl) fits
  | _ => simp [phase] at taken

theorem Sound.resolved (sound : Sound world) (found : world.calls[index]? = some call)
    {credentials : Text} {expiresAt : Option Int} {cache : CachePolicy}
    (taken : world.resolved index call credentials expiresAt cache = some next) : Sound next := by
  have kept := sound.calls index call found
  have fits := kept.fits
  unfold World.resolved at taken
  cases phase : call.phase with
  | resolving entry status failed =>
      simp only [phase, Option.some.injEq] at taken
      simp only [Call.Fits, phase] at fits
      subst taken
      exact sound.move kept (by rw [phase]; rfl) (by rw [phase]; rfl) ⟨fits, rfl, by simp⟩
  | _ => simp [phase] at taken

theorem Sound.begins (sound : Sound world) (vault : Text) (id : Nat) (caller : Text) :
    Sound { world with
      calls := world.calls ++
        [⟨vault, id, caller, .authorizing, world.history.length, false⟩] } where
  bounded := sound.bounded
  honest := sound.honest
  monotone := sound.monotone
  calls index call found := by
    rw [List.getElem?_append] at found
    split at found
    next => exact (sound.calls index call found).frame rfl (fun _ _ => rfl) (fun _ _ => rfl)
    next =>
      obtain rfl := List.mem_singleton.mp (List.mem_of_getElem? found)
      exact ⟨by simp [Phase.holds], by simp [Phase.owns], Nat.le_refl _, by simp, rfl⟩

theorem advance_eq_some {take : Call → Option World}
    (taken : world.advance index take = some next) :
    ∃ call, world.calls[index]? = some call ∧ take call = some next := by
  unfold World.advance at taken
  cases found : world.calls[index]? with
  | none => simp [found] at taken
  | some call => exact ⟨call, rfl, by simpa [found] using taken⟩

theorem Sound.revoke (sound : Sound world) (caller : Text) :
    Sound { world with granted := Function.update world.granted caller false } where
  bounded := sound.bounded
  honest := sound.honest
  monotone other granted := by
    have apart : other ≠ caller := by
      rintro rfl
      simp at granted
    exact sound.monotone other (by simpa [apart] using granted)
  calls index call found :=
    (sound.calls index call found).frame rfl (fun _ _ => rfl) (fun _ _ => rfl)

theorem Sound.take (sound : Sound world) (latest : Latest world) (event : Event)
    (taken : world.take registered event = some next) : Sound next := by
  cases event with
  | call vault id caller =>
      obtain rfl := Option.some.inj taken
      exact sound.begins vault id caller
  | go index =>
      obtain ⟨call, found, went⟩ := advance_eq_some taken
      exact sound.go latest found went
  | update index =>
      obtain ⟨call, found, went⟩ := advance_eq_some taken
      exact sound.update found went
  | stored index version payload refused =>
      obtain ⟨call, found, went⟩ := advance_eq_some taken
      exact sound.store found went
  | resolved index credentials expiresAt cache =>
      obtain ⟨call, found, went⟩ := advance_eq_some taken
      exact sound.resolved found went
  | abort index =>
      obtain ⟨call, found, went⟩ := advance_eq_some taken
      have kept := sound.calls index call found
      split at went
      next => cases went
      next =>
        obtain rfl := Option.some.inj went
        exact sound.fail kept
  | replace vault id document =>
      obtain rfl := Option.some.inj taken
      exact sound.write vault id (some document)
  | delete vault id =>
      obtain rfl := Option.some.inj taken
      exact sound.write vault id none
  | revoke caller =>
      obtain rfl := Option.some.inj taken
      exact sound.revoke caller
  | setAvailable vault available =>
      obtain rfl := Option.some.inj taken
      exact ⟨sound.bounded, sound.honest, sound.monotone, fun index call found =>
        (sound.calls index call found).frame rfl (fun _ _ => rfl) (fun _ _ => rfl)⟩
  | tick later =>
      simp only [World.take, Option.ite_none_right_eq_some, Option.some.injEq] at taken
      obtain ⟨_, rfl⟩ := taken
      exact ⟨sound.bounded, sound.honest, sound.monotone, fun index call found =>
        (sound.calls index call found).frame rfl (fun _ _ => rfl) (fun _ _ => rfl)⟩

theorem Sound.step (sound : Sound world) (event : Event)
    (taken : step registered event world = some next) : Sound next :=
  sound.record.take sound.latest event taken

theorem sound_begin (documents : Text → Nat → Option Document) (available granted : Text → Bool)
    (now : Int) : Sound (World.begin documents available granted now) where
  bounded := by simp [World.begin]
  honest := by simp [World.begin]
  monotone := by simp [World.begin]
  calls := by simp [World.begin]

end Goes

section Filled

variable {world next : World} {index : Nat} {call : Call}

def Filled (world next : World) : Prop :=
  ∀ entry hit, (next.cells entry).cached = some hit → (world.cells entry).cached = some hit ∨
    ∃ (index : Nat) (call : Call) (answer : Answer), world.calls[index]? = some call ∧
      call.phase.owns = some entry ∧
      next.calls[index]? = some { call with phase := .done (some answer) }

theorem filled_of_cached
    (same : ∀ entry, (next.cells entry).cached = (world.cells entry).cached ∨
      (next.cells entry).cached = none) : Filled world next := by
  intro entry hit cached
  obtain kept | emptied := same entry
  · exact Or.inl (kept ▸ cached)
  · rw [emptied] at cached
    cases cached

theorem filled_move (phase : Phase) : Filled world (world.move index call phase) :=
  filled_of_cached fun _ => Or.inl rfl

theorem finish_cached (answer : Option Answer) (entry : Nat) :
    ((world.finish index call answer).cells entry).cached = (world.cells entry).cached := by
  unfold World.finish
  cases call.phase.owns with
  | none => rfl
  | some own =>
      by_cases same : entry = own
      · subst same
        simp [World.move, World.put, World.setCell]
      · simp [World.move, World.put, World.setCell, same]

theorem filled_finish (answer : Option Answer) : Filled world (world.finish index call answer) :=
  filled_of_cached fun entry => Or.inl (finish_cached answer entry)

theorem setCell_cached (own : Nat) (cell : Cell) (phase : Phase) (entry : Nat)
    (same : cell.cached = (world.cells own).cached ∨ cell.cached = none) :
    (((world.setCell own cell).move index call phase).cells entry).cached =
        (world.cells entry).cached ∨
      (((world.setCell own cell).move index call phase).cells entry).cached = none := by
  by_cases here : entry = own
  · subst here
    simpa [World.move, World.put, World.setCell] using same
  · simp [World.move, World.put, World.setCell, here]

theorem filled_clear (entry : Nat) : Filled world (world.clear index call entry) :=
  filled_of_cached fun other => setCell_cached entry _ _ other (Or.inr rfl)

theorem filled_enter : Filled world (world.enter index call) := by
  refine filled_of_cached fun other => ?_
  unfold World.enter
  simp only
  split
  next => exact Or.inl rfl
  next =>
    by_cases here : other = world.next
    · subst here
      simp [World.move, World.put, World.setCell]
    · simp [World.move, World.put, World.setCell, here]

theorem filled_conclude (found : world.calls[index]? = some call) {entry : Nat}
    (owned : call.phase.owns = some entry) (status : Document) (secret : Secret) (fresh : Bool) :
    Filled world (world.conclude index call entry status secret fresh) := by
  unfold World.conclude
  split
  next =>
    split
    next => exact filled_finish _
    next =>
      simp only
      split
      next => exact filled_finish _
      next =>
        intro other hit cached
        rw [finish_cached] at cached
        by_cases here : other = entry
        · subst here
          refine Or.inr ⟨index, call, ⟨status, secret, world.now, false⟩, found, owned, ?_⟩
          have bound := (List.getElem?_eq_some_iff.mp found).1
          simp [World.finish, owned, World.move, World.put, World.setCell, bound]
        · exact Or.inl (by simpa [World.setCell, here] using cached)
  next =>
    split
    next => exact filled_finish _
    next => exact filled_clear entry

theorem filled_verify (found : world.calls[index]? = some call) {entry : Nat}
    (owned : call.phase.owns = some entry) (check : Check) (status : Document) (failed : Bool)
    (secret : Secret) (fresh : Bool) :
    Filled world (world.verify index call check entry status failed secret fresh) := by
  cases check with
  | available =>
      simp only [World.verify]
      split
      next => exact filled_move _
      next => exact filled_finish none
  | row =>
      simp only [World.verify]
      split
      next => exact filled_finish none
      next =>
        split
        next => exact filled_move _
        next => exact filled_finish none
  | permission =>
      simp only [World.verify]
      split
      next => exact filled_conclude found owned status secret fresh
      next => exact filled_finish none

theorem filled_go (found : world.calls[index]? = some call)
    (taken : world.go registered index call = some next) : Filled world next := by
  unfold World.go at taken
  split at taken
  next =>
    obtain rfl := Option.some.inj taken
    split
    next => exact filled_move _
    next => exact filled_finish none
  next =>
    obtain rfl := Option.some.inj taken
    exact filled_enter
  next entry _ =>
    split at taken
    next => cases taken
    next =>
      obtain rfl := Option.some.inj taken
      exact filled_of_cached fun other => setCell_cached entry _ _ other (Or.inl rfl)
  next =>
    obtain rfl := Option.some.inj taken
    split
    next => exact filled_move _
    next => exact filled_finish none
  next =>
    obtain rfl := Option.some.inj taken
    split
    next => exact filled_move _
    next => exact filled_finish none
  next entry _ =>
    split at taken
    next =>
      obtain rfl := Option.some.inj taken
      exact filled_finish none
    next =>
      split at taken
      next =>
        obtain rfl := Option.some.inj taken
        exact filled_finish none
      next =>
        split at taken
        next =>
          obtain rfl := Option.some.inj taken
          exact filled_move _
        next =>
          obtain rfl := Option.some.inj taken
          exact filled_clear entry
  next =>
    split at taken
    next =>
      obtain rfl := Option.some.inj taken
      exact filled_finish none
    next =>
      split at taken
      next =>
        obtain rfl := Option.some.inj taken
        exact filled_finish none
      next =>
        obtain rfl := Option.some.inj taken
        exact filled_move _
  next check entry status failed secret fresh verifying =>
    obtain rfl := Option.some.inj taken
    exact filled_verify found (by rw [verifying]; rfl) check status failed secret fresh
  next => cases taken
  next => cases taken
  next => cases taken

theorem update_cells (taken : world.update index call = some next) : next.cells = world.cells := by
  unfold World.update at taken
  split at taken
  next =>
    simp only at taken
    split at taken
    next => rw [← Option.some.inj taken]; rfl
    next =>
      split at taken
      next => rw [← Option.some.inj taken]; rfl
      next =>
        split at taken
        next => rw [← Option.some.inj taken]; rfl
        next =>
          rw [← Option.some.inj taken]
          split <;> rfl
  next => cases taken

theorem store_cells {version : Nat} {payload : Text} {refused : Bool}
    (taken : world.store index call version payload refused = some next) :
    next.cells = world.cells := by
  unfold World.store at taken
  split at taken
  next =>
    simp only at taken
    split at taken
    next => rw [← Option.some.inj taken]; rfl
    next =>
      split at taken
      next => rw [← Option.some.inj taken]; rfl
      next =>
        split at taken <;> (rw [← Option.some.inj taken]; rfl)
  next => cases taken

theorem filled_take (event : Event) (taken : world.take registered event = some next) :
    Filled world next := by
  have unchanged : next.cells = world.cells → Filled world next :=
    fun same => filled_of_cached fun entry => Or.inl (by rw [same])
  cases event with
  | go index =>
      obtain ⟨call, found, went⟩ := advance_eq_some taken
      exact filled_go found went
  | update index =>
      obtain ⟨call, _, went⟩ := advance_eq_some taken
      exact unchanged (update_cells went)
  | stored index version payload refused =>
      obtain ⟨call, _, went⟩ := advance_eq_some taken
      exact unchanged (store_cells went)
  | resolved index credentials expiresAt cache =>
      obtain ⟨call, _, went⟩ := advance_eq_some taken
      unfold World.resolved at went
      split at went
      next =>
        obtain rfl := Option.some.inj went
        exact filled_move _
      next => cases went
  | abort index =>
      obtain ⟨call, _, went⟩ := advance_eq_some taken
      split at went
      next => cases went
      next =>
        obtain rfl := Option.some.inj went
        exact filled_finish none
  | tick later =>
      simp only [World.take, Option.ite_none_right_eq_some, Option.some.injEq] at taken
      obtain ⟨_, rfl⟩ := taken
      exact unchanged rfl
  | _ =>
      obtain rfl := Option.some.inj taken
      exact unchanged rfl

end Filled

section Safe

/-- What the resolver returns and refreshes, in any state that it gets to. -/
structure Safe (world : World) : Prop where
  served : ∀ (index : Nat) (call : Call) (answer : Answer), world.calls[index]? = some call →
    call.phase = .done (some answer) → Served world.history call answer
  exclusive : ∀ (index other : Nat) (call second : Call), world.calls[index]? = some call →
    world.calls[other]? = some second → call.id = second.id → call.phase.inFlight →
    second.phase.inFlight → index = other
  refreshed : ∀ (index : Nat) (call : Call) (answer : Answer), world.calls[index]? = some call →
    call.refreshed = true → call.phase = .done (some answer) → answer.fromCache = false

/-- A refresh that fails in this step leaves nothing to answer another call from. -/
def Emptied (world next : World) : Prop :=
  ∀ (index : Nat) (call : Call) (entry : Nat), world.calls[index]? = some call →
    call.refreshed = true → call.phase.owns = some entry →
    (next.calls[index]?).map Call.phase = some (.done none) → (next.cells entry).cached = none

variable {world next : World}

theorem Sound.safe (sound : Sound world) : Safe world where
  served index call answer found done := by
    have fits := (sound.calls index call found).fits
    simp only [Call.Fits, done] at fits
    exact fits.1
  exclusive index other call second found listed same flying also := by
    obtain ⟨entry, owned⟩ := inFlight_owns flying
    obtain ⟨entry', owned'⟩ := inFlight_owns also
    have kept := sound.calls index call found
    have kept' := sound.calls other second listed
    -- one credential has one entry, and an entry has one owner
    have mapped := kept.mapped entry (owns_holds owned)
    rw [same, kept'.mapped entry' (owns_holds owned')] at mapped
    obtain rfl := Option.some.inj mapped
    exact Option.some.inj ((kept.owned _ owned).symm.trans (kept'.owned _ owned'))
  refreshed index call answer found refreshing done := by
    have fits := (sound.calls index call found).fits
    simp only [Call.Fits, done] at fits
    exact fits.2 refreshing

theorem Sound.emptied (sound : Sound world) (filled : Filled world next) : Emptied world next := by
  intro index call entry found refreshing owned ended
  have kept := sound.calls index call found
  cases cached : (next.cells entry).cached with
  | none => rfl
  | some hit =>
      obtain before | ⟨other, second, answer, listed, owned', returned⟩ := filled entry hit cached
      · rw [kept.cleared refreshing entry owned] at before
        cases before
      · have owner := (sound.calls other second listed).owned entry owned'
        obtain rfl : index = other := Option.some.inj ((kept.owned entry owned).symm.trans owner)
        simp [returned] at ended

theorem sound_run (documents : Text → Nat → Option Document) (available granted : Text → Bool)
    (now : Int) (events : List Event) (last : World)
    (reached : Machine.run (step registered) events
      (World.begin documents available granted now) = some last) : Sound last := by
  exact Machine.invariant_every_run (step registered) Sound
    (fun event _ _ sound taken => sound.step event taken) events _ last
    (sound_begin documents available granted now) reached

/-- However calls, changes, revocations and the clock interleave, every secret that is returned is
current, authorized and unexpired, no credential is resolved twice at once, and no failed refresh
is answered from the cache. -/
theorem resolver_safe (registered : Text → Bool) (documents : Text → Nat → Option Document)
    (available granted : Text → Bool) (now : Int) (events : List Event) (last : World)
    (reached : Machine.run (step registered) events
      (World.begin documents available granted now) = some last) :
    Safe last ∧ ∀ event next, step registered event last = some next → Emptied last next := by
  have sound := sound_run documents available granted now events last reached
  refine ⟨sound.safe, ?_⟩
  intro event next taken
  have emptied := sound.record.emptied (filled_take event taken)
  exact emptied

def resolvedTwice : List Event :=
  .call [] 1 [] :: List.replicate 7 (.go 0) ++ .resolved 0 ['k'] none .untilChanged ::
    List.replicate 3 (.go 0) ++ .call [] 1 [] :: List.replicate 9 (.go 1) ++
    [.revoke [], .call [] 1 [], .go 2]

theorem resolver_safe_twice : ∃ last,
    Machine.run (step fun _ => true) resolvedTwice
      (World.begin (fun _ _ => some ⟨[], 4, 1, false, []⟩) (fun _ => true) (fun _ => true) 0) =
        some last ∧
    last.calls.map Call.phase = [.done (some ⟨⟨[], 4, 1, false, []⟩,
        ⟨['k'], none, .untilChanged, 4⟩, 0, false⟩),
      .done (some ⟨⟨[], 4, 1, false, []⟩, ⟨['k'], none, .untilChanged, 4⟩, 0, true⟩), .done none] ∧
    Safe last ∧ ∀ event next, step (fun _ => true) event last = some next → Emptied last next := by
  refine ⟨_, rfl, ?_, ?_⟩
  next => decide
  next =>
    exact resolver_safe _ (fun _ _ => some ⟨[], 4, 1, false, []⟩) (fun _ => true) (fun _ => true)
      0 resolvedTwice _ rfl

end Safe

end Frona.Managed
