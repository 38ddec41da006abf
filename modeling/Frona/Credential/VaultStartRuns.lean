import Frona.Credential.VaultBacked
import Frona.Credential.VaultStart

set_option autoImplicit false

namespace Frona.Vault.Start

open Utf8 (Text)

variable {toUppercase : Text → Text} {userId : Text} {principal : Principal}
  {chatId : Option Text} {tables : Tables} {binding current : PrincipalCredentialBinding}

section Checks

theorem authorizeRow_ok (passed : authorizeRow tables userId principal binding = .ok current) :
    current ∈ tables.bindings ∧ current.id = binding.id := by
  unfold authorizeRow at passed
  split at passed
  next => cases passed
  next row found =>
    split at passed
    next => cases passed
    next =>
      obtain rfl := Except.ok.inj passed
      exact ⟨List.mem_of_find?_eq_some found, by simpa using List.find?_some found⟩

theorem authorizeScope_ok
    (passed : authorizeScope tables userId principal binding chatId current = .ok ()) :
    backed userId principal chatId tables current = true := by
  unfold authorizeScope at passed
  unfold backed
  cases scope : current.scope with
  | chat expected =>
      simp only [scope] at passed ⊢
      split at passed
      next same => simpa using same
      next => cases passed
  | durable =>
      simp only [scope] at passed ⊢
      rw [hasGrantForItem] at passed
      cases ensured : ensureNonUserPrincipal principal with
      | error failure => simp [ensured, bind, Except.bind] at passed
      | ok =>
          simp only [ensured, bind, Except.bind, pure, Except.pure] at passed
          split at passed
          next granted => exact granted
          next => cases passed

theorem authorizeConnection_ok
    (passed : authorizeConnection tables userId binding current = .ok ()) :
    connected userId tables current = true := by
  unfold authorizeConnection at passed
  split at passed
  next => cases passed
  next connection found =>
    split at passed
    next usable => simpa [connected, found] using usable
    next => cases passed

theorem check_go_some {check next : Check}
    (gone : check.go userId principal chatId tables binding = .ok (some next)) :
    (check = .row ∧ ∃ current, authorizeRow tables userId principal binding = .ok current ∧
        next = .scope current) ∨
      (∃ current, check = .scope current ∧ next = .connection current ∧
        backed userId principal chatId tables current = true) := by
  cases check with
  | row =>
      unfold Check.go at gone
      have passed := (ensure_bind_ok.mp gone).2
      cases row : authorizeRow tables userId principal binding with
      | error failure => simp [row, bind, Except.bind] at passed
      | ok current =>
          simp only [row, bind, Except.bind, pure, Except.pure, Except.ok.injEq, Option.some.injEq]
            at passed
          exact .inl ⟨rfl, current, rfl, passed.symm⟩
  | scope current =>
      cases scope : authorizeScope tables userId principal binding chatId current with
      | error failure => simp [Check.go, scope, bind, Except.bind] at gone
      | ok =>
          simp only [Check.go, scope, bind, Except.bind, pure, Except.pure, Except.ok.injEq,
            Option.some.injEq] at gone
          exact .inr ⟨current, rfl, gone.symm, authorizeScope_ok scope⟩
  | connection current =>
      cases last : authorizeConnection tables userId binding current with
      | error failure => simp [Check.go, last, bind, Except.bind] at gone
      | ok => simp [Check.go, last, bind, Except.bind, pure, Except.pure] at gone

theorem check_go_none {check : Check}
    (gone : check.go userId principal chatId tables binding = .ok none) :
    ∃ current, check = .connection current ∧ connected userId tables current = true := by
  cases check with
  | row =>
      unfold Check.go at gone
      have passed := (ensure_bind_ok.mp gone).2
      cases row : authorizeRow tables userId principal binding with
      | error failure => simp [row, bind, Except.bind] at passed
      | ok current => simp [row, bind, Except.bind, pure, Except.pure] at passed
  | scope current =>
      cases scope : authorizeScope tables userId principal binding chatId current with
      | error failure => simp [Check.go, scope, bind, Except.bind] at gone
      | ok => simp [Check.go, scope, bind, Except.bind, pure, Except.pure] at gone
  | connection current =>
      cases last : authorizeConnection tables userId binding current with
      | error failure => simp [Check.go, last, bind, Except.bind] at gone
      | ok => exact ⟨current, rfl, authorizeConnection_ok last⟩

end Checks

section Held

variable (toUppercase userId principal chatId) (world : World)

structure Known (binding : PrincipalCredentialBinding) : Prop where
  used : binding.id ∈ world.used
  same : ∀ other ∈ world.tables.bindings, other.id = binding.id → other = binding
  owned : binding.userId = userId ∧ binding.principal = principal

def Gone (tables : Tables) (binding : PrincipalCredentialBinding) : Prop :=
  ∀ other ∈ tables.bindings, other.id = binding.id → unexpired tables.now other.expiresAt = false

def Cleared (binding : PrincipalCredentialBinding) : Prop :=
  Gone world.tables binding ∨ binding ∈ world.valid

structure Collected (entry : Resolved) : Prop where
  fetched : (entry.binding, entry.secret) ∈ world.fetched
  projected : projectTarget toUppercase entry.secret entry.binding.target = .ok entry.fields

structure Entered (entry : Resolved) : Prop where
  known : Known userId principal world entry.binding
  collected : Collected toUppercase world entry

def Stage.Held (binding : PrincipalCredentialBinding) : Stage → Prop
  | .after secret _ => (binding, secret) ∈ world.fetched
  | _ => True

def Check.Held (binding : PrincipalCredentialBinding) : Check → Prop
  | .row => True
  | .scope current => current = binding
  | .connection current => current = binding ∧
      (Cleared world binding ∨ connected userId world.tables binding = false)

def Phase.Held : Phase → Prop
  | .selecting => True
  | .resolving resolved binding stage rest =>
      (∀ entry ∈ resolved, Entered toUppercase userId principal world entry) ∧
        (∀ other ∈ binding :: rest, Known userId principal world other) ∧
          stage.Held world binding
  | .confirming confirmed pending check rest =>
      (∀ entry ∈ confirmed, Entered toUppercase userId principal world entry ∧
        Cleared world entry.binding) ∧
        (∀ entry ∈ pending :: rest, Entered toUppercase userId principal world entry) ∧
          check.Held userId world pending.binding
  | .comparing confirmed =>
      ∀ entry ∈ confirmed, Entered toUppercase userId principal world entry ∧
        Cleared world entry.binding
  | .delivered resolved current =>
      (∀ entry ∈ resolved, Collected toUppercase world entry ∧ entry.binding ∈ world.valid) ∧
        ∀ binding ∈ current, ∃ entry ∈ resolved, entry.binding = binding
  | .failed _ => True

structure World.Consistent : Prop where
  distinct : (world.tables.bindings.map (·.id)).Nodup
  used : ∀ binding ∈ world.tables.bindings, binding.id ∈ world.used
  valid : world.phase.finished = false → ∀ binding ∈ world.tables.bindings,
    authorized userId principal chatId world.tables binding → binding ∈ world.valid
  held : world.phase.Held toUppercase userId principal world

end Held

section Facts

variable {world : World}

theorem consistent_sound (consistent : world.Consistent toUppercase userId principal chatId) :
    world.Sound toUppercase := by
  have held := consistent.held
  cases phase : world.phase with
  | delivered resolved current =>
      rw [phase] at held
      obtain ⟨collected, complete⟩ := held
      have contributes : ∀ entry ∈ resolved,
          world.Contributes toUppercase entry.binding entry.fields := by
        intro entry member
        obtain ⟨⟨fetched, projected⟩, valid⟩ := collected entry member
        exact ⟨⟨entry.secret, fetched, projected⟩, valid⟩
      constructor
      · intro env delivered pair member
        simp only [phase, Phase.env, Option.some.injEq] at delivered
        rw [← delivered] at member
        obtain ⟨entry, here, projected⟩ := List.mem_flatMap.mp member
        exact ⟨entry.binding, entry.fields, contributes entry here, projected⟩
      · intro others selected same binding member
        obtain ⟨rfl, rfl⟩ := Phase.delivered.inj (phase.symm.trans same)
        obtain ⟨entry, here, rfl⟩ := complete binding member
        refine ⟨entry.fields, contributes entry here, ?_⟩
        intro pair projected
        exact List.mem_flatMap.mpr ⟨entry, here, projected⟩
  | _ =>
      constructor
      · intro env delivered
        simp [phase, Phase.env] at delivered
      · intro resolved current same
        simp [phase] at same

theorem known_of_mem (consistent : world.Consistent toUppercase userId principal chatId)
    (member : binding ∈ world.tables.bindings)
    (owned : binding.userId = userId ∧ binding.principal = principal) :
    Known userId principal world binding where
  used := consistent.used binding member
  same := fun _ other same => List.inj_on_of_nodup_map consistent.distinct other member same
  owned := owned

theorem cleared_of_backed (consistent : world.Consistent toUppercase userId principal chatId)
    (running : world.phase.finished = false) (known : Known userId principal world binding)
    (backing : backed userId principal chatId world.tables binding = true)
    (reachable : connected userId world.tables binding = true) : Cleared world binding := by
  by_cases gone : Gone world.tables binding
  next => exact .inl gone
  next =>
    simp only [Gone, not_forall, Bool.not_eq_false] at gone
    obtain ⟨other, member, same, fresh⟩ := gone
    obtain rfl := known.same other member same
    refine .inr (consistent.valid running other member ?_)
    simp [authorized, known.owned, fresh, backing, reachable]

theorem entered_mono {next : World} {entry : Resolved}
    (known : ∀ binding, Known userId principal world binding → Known userId principal next binding)
    (fetched : world.fetched ⊆ next.fetched)
    (entered : Entered toUppercase userId principal world entry) :
    Entered toUppercase userId principal next entry where
  known := known _ entered.known
  collected := ⟨fetched entered.collected.fetched, entered.collected.projected⟩

theorem held_mono {next : World} {phase : Phase}
    (known : ∀ binding, Known userId principal world binding → Known userId principal next binding)
    (fetched : world.fetched ⊆ next.fetched) (valid : world.valid ⊆ next.valid)
    (gone : ∀ binding, Known userId principal world binding → Gone world.tables binding →
      Gone next.tables binding)
    (waiting : ∀ confirmed pending current rest,
      phase = .confirming confirmed pending (.connection current) rest →
        Known userId principal world pending.binding →
          connected userId world.tables pending.binding = false →
            Cleared next pending.binding ∨ connected userId next.tables pending.binding = false)
    (held : phase.Held toUppercase userId principal world) :
    phase.Held toUppercase userId principal next := by
  have cleared : ∀ binding, Known userId principal world binding → Cleared world binding →
      Cleared next binding := by
    intro binding here before
    cases before with
    | inl away => exact .inl (gone binding here away)
    | inr seen => exact .inr (valid seen)
  have done : ∀ entries : List Resolved, (∀ entry ∈ entries, Entered toUppercase userId principal world entry ∧
      Cleared world entry.binding) → ∀ entry ∈ entries,
        Entered toUppercase userId principal next entry ∧ Cleared next entry.binding := by
    intro entries every entry member
    obtain ⟨entered, clear⟩ := every entry member
    exact ⟨entered_mono known fetched entered, cleared _ entered.known clear⟩
  cases phase with
  | selecting | failed => trivial
  | resolving resolved binding stage rest =>
      obtain ⟨entered, bindings, stored⟩ := held
      refine ⟨fun entry member => entered_mono known fetched (entered entry member),
        fun other member => known other (bindings other member), ?_⟩
      cases stage with
      | after secret check => exact fetched stored
      | _ => trivial
  | confirming confirmed pending check rest =>
      obtain ⟨before, entered, checked⟩ := held
      refine ⟨done _ before, fun entry member => entered_mono known fetched (entered entry member), ?_⟩
      have here := (entered pending (by simp)).known
      cases check with
      | row => trivial
      | scope current => exact checked
      | connection current =>
          refine ⟨checked.1, ?_⟩
          cases checked.2 with
          | inl clear => exact .inl (cleared _ here clear)
          | inr closed => exact waiting confirmed pending current rest rfl here closed
  | comparing confirmed => exact done _ held
  | delivered resolved current =>
      refine ⟨?_, held.2⟩
      intro entry member
      obtain ⟨collected, seen⟩ := held.1 entry member
      exact ⟨⟨fetched collected.fetched, collected.projected⟩, valid seen⟩

theorem held_resolveNext {resolved : List Resolved} {rest : List PrincipalCredentialBinding}
    (entered : ∀ entry ∈ resolved, Entered toUppercase userId principal world entry)
    (bindings : ∀ other ∈ rest, Known userId principal world other) :
    (resolveNext resolved rest).Held toUppercase userId principal world := by
  cases rest with
  | cons binding rest => exact ⟨entered, bindings, trivial⟩
  | nil =>
      cases resolved with
      | nil => simp [resolveNext, confirmNext, Phase.Held]
      | cons pending rest =>
          refine ⟨?_, entered, trivial⟩
          simp

theorem held_confirmNext {confirmed rest : List Resolved}
    (before : ∀ entry ∈ confirmed, Entered toUppercase userId principal world entry ∧
      Cleared world entry.binding)
    (entered : ∀ entry ∈ rest, Entered toUppercase userId principal world entry) :
    (confirmNext confirmed rest).Held toUppercase userId principal world := by
  cases rest with
  | nil => exact before
  | cons pending rest => exact ⟨before, entered, trivial⟩

theorem held_delivered {confirmed : List Resolved} {current : List PrincipalCredentialBinding}
    (selected : startupBindings world.tables userId principal chatId = .ok current)
    (same : sameIds current (confirmed.map (·.binding)) = true)
    (held : ∀ entry ∈ confirmed, Entered toUppercase userId principal world entry ∧
      Cleared world entry.binding) :
    (Phase.delivered confirmed current).Held toUppercase userId principal world := by
  simp only [sameIds, Bool.and_eq_true, List.all_eq_true, List.any_eq_true, List.mem_map,
    decide_eq_true_eq] at same
  obtain ⟨found, kept⟩ := same
  constructor
  · intro entry member
    obtain ⟨entered, clear⟩ := held entry member
    refine ⟨entered.collected, ?_⟩
    obtain ⟨other, here, id⟩ := kept entry.binding ⟨entry, member, rfl⟩
    obtain ⟨stored, -, -, fresh⟩ := startupBindings_mem selected here
    cases clear with
    | inl gone => simp [gone other stored id] at fresh
    | inr valid => exact valid
  · intro binding member
    obtain ⟨other, ⟨entry, here, rfl⟩, id⟩ := found binding member
    have stored := (startupBindings_mem selected member).1
    exact ⟨entry, here, ((held entry here).1.known.same binding stored id.symm).symm⟩

end Facts

section Writes

variable {write : Write}

theorem write_now : tables.now ≤ (write.apply tables).now := by
  cases write with
  | tick seconds => simp [Write.apply]
  | _ => exact le_refl _

theorem write_bindings (member : binding ∈ (write.apply tables).bindings) :
    binding ∈ tables.bindings ∨ write.adds = some binding.id := by
  cases write with
  | addBinding added =>
      rcases List.mem_append.mp member with old | new
      next => exact .inl old
      next => exact .inr (by rw [List.mem_singleton.mp new, Write.adds])
  | deleteBindingsForItem | deleteBindingsByPrincipal | deleteBindingsByChat
  | deleteManagedConnection => exact .inl (List.mem_filter.mp member).1
  | _ => exact .inl member

theorem write_nodup (distinct : (tables.bindings.map (·.id)).Nodup)
    (fresh : ∀ id, write.adds = some id → id ∉ tables.bindings.map (·.id)) :
    ((write.apply tables).bindings.map (·.id)).Nodup := by
  cases write with
  | addBinding added =>
      have new := fresh added.id rfl
      simpa [Write.apply, Tables.addBinding, List.nodup_append, distinct] using new
  | deleteBindingsForItem | deleteBindingsByPrincipal | deleteBindingsByChat
  | deleteManagedConnection => exact distinct.sublist (List.filter_sublist.map _)
  | _ => exact distinct

theorem connection_setEnabled (id connectionId : Text) (enabled : Bool) :
    (tables.setEnabled id enabled).connection connectionId =
      (tables.connection connectionId).map fun connection =>
        if connection.id = id then { connection with enabled := enabled } else connection := by
  unfold Tables.connection Tables.setEnabled
  simp only [List.find?_map]
  congr 2
  funext connection
  by_cases same : connection.id = id <;> simp [same]

theorem connected_deleteConnectionRow (id : Text)
    (reachable : connected userId (tables.deleteConnectionRow id) binding = true) :
    connected userId tables binding = true := by
  by_cases same : binding.connectionId = id
  next =>
    have missing : (tables.deleteConnectionRow id).connection binding.connectionId = none := by
      rw [Tables.connection, List.find?_eq_none]
      intro connection kept
      simpa [same] using (List.mem_filter.mp kept).2
    simp [connected, missing] at reachable
  next =>
    have kept := @connection_filter tables binding.connectionId (· ≠ id) (by simpa using same)
    unfold connected at reachable ⊢
    rwa [← kept]

theorem write_connected (reachable : connected userId (write.apply tables) binding = true) :
    connected userId tables binding = true ∨ write = .setEnabled binding.connectionId true := by
  cases write with
  | deleteConnectionRow id => exact .inl (connected_deleteConnectionRow id reachable)
  | deleteManagedConnection id => exact .inl (connected_deleteConnectionRow id reachable)
  | setEnabled id enabled =>
      unfold connected at reachable ⊢
      simp only [Write.apply, connection_setEnabled] at reachable
      cases found : tables.connection binding.connectionId with
      | none => simp [found] at reachable
      | some connection =>
          have named : connection.id = binding.connectionId := by simpa using List.find?_some found
          simp only [found, Option.map_some, Option.any_some] at reachable ⊢
          split at reachable
          next same =>
            cases enabled with
            | false => simp [VaultConnection.usable] at reachable
            | true => exact .inr (by rw [← named, same])
          next => exact .inl reachable
  | _ => exact .inl reachable

end Writes

section Steps

variable {world next : World}

theorem held_go (consistent : world.Consistent toUppercase userId principal chatId)
    (answer : Except AppError VaultSecret) (running : world.phase.finished = false)
    (quiet : world.phase.fetch answer = none) :
    (world.phase.go toUppercase userId principal chatId world.tables answer).Held toUppercase
      userId principal world := by
  have held := consistent.held
  cases phase : world.phase with
  | selecting =>
      simp only [Phase.go]
      cases selected : startupBindings world.tables userId principal chatId with
      | error failure => trivial
      | ok bindings =>
          refine held_resolveNext (fun _ member => absurd member List.not_mem_nil) ?_
          intro other member
          obtain ⟨stored, owner, named, -⟩ := startupBindings_mem selected member
          exact known_of_mem consistent stored ⟨owner, named⟩
  | resolving resolved binding stage rest =>
      rw [phase] at held
      obtain ⟨entered, bindings, stored⟩ := held
      cases stage with
      | before check =>
          simp only [Phase.go]
          split
          next => trivial
          next => exact ⟨entered, bindings, trivial⟩
          next => exact ⟨entered, bindings, trivial⟩
      | opening =>
          simp only [Phase.go]
          split
          next => trivial
          next => exact ⟨entered, bindings, trivial⟩
      | fetching connection =>
          cases answer with
          | error failure => trivial
          | ok secret => simp [phase, Phase.fetch, Except.toOption] at quiet
      | after secret check =>
          simp only [Phase.go]
          split
          next => trivial
          next => exact ⟨entered, bindings, stored⟩
          next =>
            split
            next => trivial
            next fields projected =>
              refine held_resolveNext ?_ fun other member => bindings other (by simp [member])
              intro entry member
              rcases List.mem_append.mp member with old | new
              next => exact entered entry old
              next =>
                rw [List.mem_singleton.mp new]
                exact ⟨bindings binding (by simp), stored, projected⟩
  | confirming confirmed pending check rest =>
      rw [phase] at held
      obtain ⟨before, entered, checked⟩ := held
      have known := (entered pending (by simp)).known
      simp only [Phase.go]
      split
      next => trivial
      next check' gone =>
        refine ⟨before, entered, ?_⟩
        obtain ⟨-, current, row, rfl⟩ | ⟨current, rfl, rfl, backing⟩ := check_go_some gone
        next =>
          obtain ⟨stored, same⟩ := authorizeRow_ok row
          exact known.same current stored same
        next =>
          -- The grants are read. The connection is open already, or it is closed.
          obtain rfl := checked
          refine ⟨rfl, ?_⟩
          cases reachable : connected userId world.tables pending.binding with
          | false => exact .inr rfl
          | true => exact .inl (cleared_of_backed consistent running known backing reachable)
      next gone =>
        obtain ⟨current, rfl, reachable⟩ := check_go_none gone
        obtain ⟨rfl, clear | closed⟩ := checked
        next =>
          refine held_confirmNext ?_ fun entry member => entered entry (by simp [member])
          intro entry member
          rcases List.mem_append.mp member with old | new
          next => exact before entry old
          next =>
            rw [List.mem_singleton.mp new]
            exact ⟨entered pending (by simp), clear⟩
        next => simp [closed] at reachable
  | comparing confirmed =>
      rw [phase] at held
      simp only [Phase.go]
      split
      next => trivial
      next current selected =>
        split
        next same => exact held_delivered selected same held
        next => trivial
  | delivered resolved current => simp [phase, Phase.finished] at running
  | failed error => simp [phase, Phase.finished] at running

theorem known_write {write : Write} (fresh : ∀ id, write.adds = some id → id ∉ world.used)
    {tables : Tables} (after : tables = write.apply world.tables) (used : List Text)
    (grows : world.used ⊆ used) {phase : Phase}
    {fetched : List (PrincipalCredentialBinding × VaultSecret)}
    {valid : List PrincipalCredentialBinding} (known : Known userId principal world binding) :
    Known userId principal ⟨tables, used, phase, fetched, valid⟩ binding where
  used := grows known.used
  same := by
    intro other member same
    rw [after] at member
    cases write_bindings member with
    | inl old => exact known.same other old same
    | inr new => exact absurd (same ▸ known.used) (fresh other.id new)
  owned := known.owned

theorem gone_write {write : Write} (fresh : ∀ id, write.adds = some id → id ∉ world.used)
    (known : Known userId principal world binding) (gone : Gone world.tables binding) :
    Gone (write.apply world.tables) binding := by
  intro other member same
  cases write_bindings member with
  | inl old =>
      have before := gone other old same
      cases running : unexpired (write.apply world.tables).now other.expiresAt with
      | false => rfl
      | true => simp [unexpired_before write_now running] at before
  | inr new => exact absurd (same ▸ known.used) (fresh other.id new)

theorem consistent_write (consistent : world.Consistent toUppercase userId principal chatId)
    (write : Write) (calm : (Event.write write).calm userId principal chatId world = true)
    (taken : step toUppercase userId principal chatId (.write write) world = some next) :
    next.Consistent toUppercase userId principal chatId := by
  simp only [step] at taken
  split at taken
  next => cases taken
  next new =>
    have fresh : ∀ id, write.adds = some id → id ∉ world.used := by
      intro id adds
      simpa [adds] using new
    obtain rfl := Option.some.inj taken
    have grows : world.used ⊆ world.used ++ write.adds.toList := List.subset_append_left _ _
    refine ⟨?_, ?_, ?_, ?_⟩
    · refine write_nodup consistent.distinct fun id adds => ?_
      intro member
      obtain ⟨binding, stored, rfl⟩ := List.mem_map.mp member
      exact fresh _ adds (consistent.used binding stored)
    · intro binding member
      cases write_bindings member with
      | inl old => exact grows (consistent.used binding old)
      | inr adds => simp [adds]
    · intro running binding member here
      simp only [running, Bool.false_eq_true, if_false, List.mem_append]
      exact .inr (List.mem_filter.mpr ⟨member, here⟩)
    · refine held_mono (fun _ => known_write fresh rfl _ grows) (List.Subset.refl _) ?_
        (fun _ => gone_write fresh) ?_ consistent.held
      · split
        next => exact List.Subset.refl _
        next => exact List.subset_append_left _ _
      · intro confirmed pending current rest phase known closed
        have last : world.phase = .confirming confirmed pending (.connection current) rest := phase
        have unfinished : world.phase.finished = false := by rw [last]; rfl
        cases reachable : connected userId (write.apply world.tables) pending.binding with
        | false => exact .inr rfl
        | true =>
            -- The connection is switched on, and the grant, if it is there, stays.
            cases write_connected reachable with
            | inl before => simp [before] at closed
            | inr switch =>
                left
                by_cases gone : Gone (write.apply world.tables) pending.binding
                next => exact .inl gone
                next =>
                  right
                  simp only [unfinished, Bool.false_eq_true, if_false, List.mem_append]
                  by_cases seen : pending.binding ∈ world.valid
                  next => exact .inl seen
                  next =>
                    subst switch
                    have backing : backed userId principal chatId world.tables pending.binding := by
                      unfold Event.calm at calm
                      rw [last] at calm
                      simpa [closed, seen] using calm
                    simp only [Gone, not_forall, Bool.not_eq_false] at gone
                    obtain ⟨other, member, same, running⟩ := gone
                    obtain rfl := known.same other member same
                    refine .inr (List.mem_filter.mpr ⟨member, ?_⟩)
                    have stays : backed userId principal chatId
                        (world.tables.setEnabled pending.binding.connectionId true)
                          pending.binding = true := backing
                    simp only [authorized, decide_eq_true_eq]
                    exact ⟨known.owned.1, known.owned.2, running, stays, reachable⟩

theorem consistent_step (event : Event)
    (consistent : world.Consistent toUppercase userId principal chatId)
    (calm : event.calm userId principal chatId world = true)
    (taken : step toUppercase userId principal chatId event world = some next) :
    next.Consistent toUppercase userId principal chatId := by
  cases event with
  | write write => exact consistent_write consistent write calm taken
  | abort error =>
      simp only [step] at taken
      split at taken
      next => cases taken
      next =>
        obtain rfl := Option.some.inj taken
        exact ⟨consistent.distinct, consistent.used, by simp [Phase.finished], trivial⟩
  | go answer =>
      simp only [step] at taken
      split at taken
      next => cases taken
      next running =>
        have running : world.phase.finished = false := by simpa using running
        cases fetch : world.phase.fetch answer with
        | none =>
            simp only [fetch, Option.some.injEq] at taken
            subst taken
            refine ⟨consistent.distinct, consistent.used, fun _ => consistent.valid running, ?_⟩
            exact @held_mono toUppercase userId principal world _ _
              (fun _ known => ⟨known.used, known.same, known.owned⟩) (List.Subset.refl _)
              (List.Subset.refl _) (fun _ _ gone => gone)
              (fun _ _ _ _ _ _ closed => .inr closed) (held_go consistent answer running fetch)
        | some secret =>
            simp only [fetch, Option.some.injEq] at taken
            subst taken
            refine ⟨consistent.distinct, consistent.used,
              fun _ _ member here => List.mem_filter.mpr ⟨member, here⟩, ?_⟩
            have held := consistent.held
            revert held fetch
            cases phase : world.phase with
            | resolving resolved binding stage rest =>
                cases stage with
                | fetching connection =>
                    cases answer with
                    | error failure => simp [Phase.fetch, Except.toOption]
                    | ok fetched =>
                        simp only [Phase.fetch, Except.toOption, Option.map_some,
                          Option.some.injEq]
                        rintro rfl ⟨entered, bindings, -⟩
                        refine ⟨?_, ?_, ?_⟩
                        · intro entry member
                          exact @entered_mono toUppercase userId principal world _ entry
                            (fun _ known => ⟨known.used, known.same, known.owned⟩)
                            (List.subset_append_left _ _) (entered entry member)
                        · intro other member
                          have known := bindings other member
                          exact ⟨known.used, known.same, known.owned⟩
                        · simp [Stage.Held]
                | _ => simp [Phase.fetch]
            | _ => simp [Phase.fetch]

theorem consistent_begin (distinct : (tables.bindings.map (·.id)).Nodup) :
    (World.begin userId principal chatId tables).Consistent toUppercase userId principal chatId where
  distinct := distinct
  used binding member := List.mem_map.mpr ⟨binding, member, rfl⟩
  valid _ _ member here := List.mem_filter.mpr ⟨member, here⟩
  held := trivial

end Steps

section Runs

/-- What a start delivers is still authorized when all of its secrets are there. -/
theorem delivered_env_authorized (toUppercase : Text → Text) (userId : Text) (principal : Principal)
    (chatId : Option Text) (tables : Tables) (distinct : (tables.bindings.map (·.id)).Nodup)
    (events : List Event) (last : World)
    (reached : Machine.run (step toUppercase userId principal chatId) events
      (World.begin userId principal chatId tables) = some last)
    (calm : Machine.Guarded (step toUppercase userId principal chatId)
      (fun event world => event.calm userId principal chatId world = true) events
        (World.begin userId principal chatId tables)) :
    last.Sound toUppercase :=
  consistent_sound (Machine.invariant_run _ _ (World.Consistent toUppercase userId principal chatId)
    (fun event _ _ consistent calm taken => consistent_step event consistent calm taken)
    events _ last (consistent_begin distinct) calm reached)

def ada : Text := "ada".toList

def robot : Principal := ⟨.agent, "robot".toList⟩

def upper (text : Text) : Text := text.map Char.toUpper

def connection (id : Text) : VaultConnection where
  id := id
  userId := ada
  provider := .onePassword
  enabled := true
  systemManaged := false

def grant (id connectionId : Text) : VaultGrant where
  id := id
  userId := ada
  connectionId := connectionId
  vaultItemId := "item".toList
  principal := robot
  expiresAt := none

def bound (id connectionId : Text) : PrincipalCredentialBinding where
  id := id
  userId := ada
  principal := robot
  connectionId := connectionId
  vaultItemId := "item".toList
  target := .single id .password
  scope := .durable
  expiresAt := none

def vault : Tables where
  connections := [connection ['C'], connection ['D']]
  grants := [grant ['1'] ['C'], grant ['2'] ['D']]
  bindings := [bound ['P'] ['C'], bound ['Q'] ['D']]
  credentials := []
  now := 0

def answer : Event :=
  .go (.ok
    { id := "item".toList
      username := none
      password := some "secret".toList
      fields := [] })

def settled : List Event :=
  List.replicate 13 answer ++ [.write (.setEnabled ['C'] false)] ++ List.replicate 4 answer ++
    [.write (.setEnabled ['C'] true)] ++ List.replicate 7 answer

theorem delivered_env_authorized_settled :
    ∃ last, Machine.run (step upper ada robot none) settled (World.begin ada robot none vault) =
        some last ∧
      last.phase.env = some [(['P'], "secret".toList), (['Q'], "secret".toList)] ∧
        last.Sound upper :=
  ⟨_, rfl, by decide, delivered_env_authorized upper ada robot none vault (by decide) settled
    _ rfl (by decide)⟩

def crossed : List Event :=
  List.replicate 13 answer ++ [.write (.setEnabled ['C'] false)] ++ List.replicate 6 answer ++
    [.write (.deleteGrantsByConnection ['C']), .write (.setEnabled ['C'] true)] ++
      List.replicate 5 answer

theorem delivered_never_authorized :
    ∃ last, Machine.run (step upper ada robot none) crossed (World.begin ada robot none vault) =
        some last ∧
      last.phase.env = some [(['P'], "secret".toList), (['Q'], "secret".toList)] ∧
        bound ['P'] ['C'] ∉ last.valid ∧ ¬ last.Sound upper := by
  refine ⟨_, rfl, by decide, by decide, ?_⟩
  intro sound
  obtain ⟨fields, ⟨-, valid⟩, -⟩ := sound.complete _ _ rfl (bound ['P'] ['C']) (by decide)
  revert valid
  decide

end Runs

end Frona.Vault.Start
