import Frona.Credential.VaultRemoval
import Frona.Machine.Lists

set_option autoImplicit false

namespace Frona.Vault

open Utf8 (Text)

/-- Nothing that is selected for a start misses its grant or its connection, so that a start fails
only where a connection may not be used or an integration has no answer. -/
structure World.Sound (world : World) : Prop where
  granted : ∀ userId principal chatId bindings,
    startupBindings world.tables userId principal chatId = .ok bindings →
      ∀ binding ∈ bindings, binding.scope = .durable →
        hasGrantForItem world.tables userId principal binding.connectionId binding.vaultItemId =
          .ok true
  connected : ∀ userId principal chatId bindings,
    startupBindings world.tables userId principal chatId = .ok bindings →
      ∀ binding ∈ bindings, binding.scope = .durable →
        (world.tables.connection binding.connectionId).isSome
  resolves : ∀ toUppercase provider userId principal chatId bindings,
    startupBindings world.tables userId principal chatId = .ok bindings →
      (∀ binding ∈ bindings, ∀ connection ∈ world.tables.connection binding.connectionId,
        connection.usable userId ∧ ∃ secret fields,
          provider connection binding.vaultItemId = .ok secret ∧
            projectTarget toUppercase secret binding.target = .ok fields) →
        ∃ env, resolveEnv toUppercase provider world.tables userId principal chatId = .ok env
  kept : world.stranded = []

structure Tables.Backed (tables : Tables) : Prop where
  grantIds : (tables.grants.map (·.id)).Nodup
  bindingIds : (tables.bindings.map (·.id)).Nodup
  nonUser : ∀ binding ∈ tables.bindings, binding.principal.kind ≠ .user
  durable : ∀ binding ∈ tables.bindings, binding.scope = .durable
  granted : ∀ binding ∈ tables.bindings, unexpired tables.now binding.expiresAt →
    ∃ grant ∈ tables.grants,
      grant.ofItem binding.userId binding.principal binding.connectionId binding.vaultItemId ∧
        grant.expiresAt = binding.expiresAt
  connected : ∀ binding ∈ tables.bindings, unexpired tables.now binding.expiresAt →
    (tables.connection binding.connectionId).isSome

section Starts

variable {tables : Tables} {userId : Text} {principal : Principal} {chatId : Option Text}
  {bindings : List PrincipalCredentialBinding} {binding : PrincipalCredentialBinding}

theorem ensure_bind_ok {A : Type} {rest : Except AppError A} {answer : A} :
    (ensureNonUserPrincipal principal >>= fun _ => rest) = .ok answer ↔
      principal.kind ≠ .user ∧ rest = .ok answer := by
  unfold ensureNonUserPrincipal
  split
  next user => simp [user, bind, Except.bind]
  next other => simp [other, bind, Except.bind]

theorem startupBindings_mem (selected : startupBindings tables userId principal chatId = .ok bindings)
    (member : binding ∈ bindings) :
    binding ∈ tables.bindings ∧ binding.userId = userId ∧ binding.principal = principal ∧
      unexpired tables.now binding.expiresAt := by
  unfold startupBindings at selected
  rw [ensure_bind_ok] at selected
  cases chatId with
  | none =>
      obtain rfl := Except.ok.inj selected.2
      have found := (List.mem_filter.mp member).1
      simpa [findForPrincipal] using found
  | some chatId =>
      obtain rfl := Except.ok.inj selected.2
      have found := (List.mem_filter.mp member).1
      simpa [findForPrincipal] using found

theorem startupBindings_live (member : binding ∈ tables.bindings)
    (live : binding.live tables.now = true) (nonUser : binding.principal.kind ≠ .user) :
    ∃ selected, startupBindings tables binding.userId binding.principal none = .ok selected ∧
      binding ∈ selected := by
  simp only [PrincipalCredentialBinding.live, decide_eq_true_eq] at live
  refine ⟨_, (by unfold startupBindings; rw [ensure_bind_ok]; exact ⟨nonUser, rfl⟩), ?_⟩
  simp [findForPrincipal, member, live]

theorem hasGrantForItem_eq_true {connectionId vaultItemId : Text} :
    hasGrantForItem tables userId principal connectionId vaultItemId = .ok true ↔
      principal.kind ≠ .user ∧ ∃ grant ∈ tables.grants,
        grant.ofItem userId principal connectionId vaultItemId ∧
          unexpired tables.now grant.expiresAt := by
  rw [hasGrantForItem, ensure_bind_ok]
  simp [pure, Except.pure]

theorem authorizeBinding_ok (distinct : (tables.bindings.map (·.id)).Nodup)
    (member : binding ∈ tables.bindings) (live : binding.live tables.now = true)
    {connection : VaultConnection}
    (granted : hasGrantForItem tables binding.userId binding.principal binding.connectionId
      binding.vaultItemId = .ok true)
    (found : tables.connection binding.connectionId = some connection)
    (usable : connection.usable binding.userId = true) :
    authorizeBinding tables binding.userId binding.principal binding chatId = .ok () := by
  simp only [PrincipalCredentialBinding.live, decide_eq_true_eq] at live
  have row : authorizeRow tables binding.userId binding.principal binding = .ok binding := by
    simp [authorizeRow, Machine.find_key (·.id) distinct binding member, live]
  have scope : authorizeScope tables binding.userId binding.principal binding chatId binding =
      .ok () := by
    simp [authorizeScope, live, granted, bind, Except.bind]
  have last : authorizeConnection tables binding.userId binding binding = .ok () := by
    simp [authorizeConnection, found, usable]
  rw [authorizeBinding, ensure_bind_ok]
  simp [(hasGrantForItem_eq_true.mp granted).1, row, scope, last, bind, Except.bind]

theorem openConnection_usable {connectionId : Text} {connection : VaultConnection}
    (found : tables.connection connectionId = some connection)
    (usable : connection.usable userId = true) :
    openConnection tables userId connectionId = .ok connection := by
  simp only [VaultConnection.usable, Bool.and_eq_true, Bool.or_eq_true, decide_eq_true_eq] at usable
  rcases usable with ⟨enabled, system | owner⟩
  next => simp [openConnection, found, enabled, system]
  next => simp [openConnection, found, enabled, owner]

theorem mapM_ok {A B : Type} {items : List A} {f : A → Except AppError B}
    (each : ∀ item ∈ items, ∃ answer, f item = .ok answer) :
    ∃ answers, items.mapM f = .ok answers := by
  induction items with
  | nil => exact ⟨[], rfl⟩
  | cons item rest ih =>
      obtain ⟨first, here⟩ := each item (by simp)
      obtain ⟨others, later⟩ := ih fun other member => each other (by simp [member])
      exact ⟨first :: others, by simp [here, later, bind, Except.bind, pure, Except.pure]⟩

theorem forM_ok {A : Type} {items : List A} {f : A → Except AppError Unit}
    (each : ∀ item ∈ items, f item = .ok ()) : items.forM f = .ok () := by
  induction items with
  | nil => rfl
  | cons item rest ih =>
      have later := ih fun other member => each other (by simp [member])
      rw [List.forM_eq_forM] at later
      simp [each item (by simp), later, bind, Except.bind]

theorem sameIds_refl (bindings : List PrincipalCredentialBinding) : sameIds bindings bindings := by
  simp only [sameIds, Bool.and_self, List.all_eq_true, List.any_eq_true, decide_eq_true_eq]
  exact fun binding member => ⟨binding, member, rfl⟩

end Starts

section Backed

variable {tables next : Tables}

theorem backed_sound {world : World} (backed : world.tables.Backed) (kept : world.stranded = []) :
    world.Sound := by
  have granted : ∀ userId principal chatId bindings,
      startupBindings world.tables userId principal chatId = .ok bindings →
        ∀ binding ∈ bindings, hasGrantForItem world.tables userId principal binding.connectionId
          binding.vaultItemId = .ok true := by
    intro userId principal chatId bindings selected binding member
    obtain ⟨stored, rfl, rfl, fresh⟩ := startupBindings_mem selected member
    obtain ⟨grant, given, item, expiry⟩ := backed.granted binding stored fresh
    rw [hasGrantForItem_eq_true]
    exact ⟨backed.nonUser binding stored, grant, given, item, by rwa [expiry]⟩
  have connected : ∀ userId principal chatId bindings,
      startupBindings world.tables userId principal chatId = .ok bindings →
        ∀ binding ∈ bindings, (world.tables.connection binding.connectionId).isSome := by
    intro userId principal chatId bindings selected binding member
    obtain ⟨stored, -, -, fresh⟩ := startupBindings_mem selected member
    exact backed.connected binding stored fresh
  refine ⟨fun _ _ _ _ selected binding member _ => granted _ _ _ _ selected binding member,
    fun _ _ _ _ selected binding member _ => connected _ _ _ _ selected binding member, ?_, kept⟩
  intro toUppercase provider userId principal chatId bindings selected answers
  -- Each binding passes whenever it is checked, and is projected.
  have passes : ∀ binding ∈ bindings,
      authorizeBinding world.tables userId principal binding chatId = .ok () := by
    intro binding member
    obtain ⟨connection, found⟩ := Option.isSome_iff_exists.mp
      (connected _ _ _ _ selected binding member)
    have usable := (answers binding member connection found).1
    have grant := granted _ _ _ _ selected binding member
    obtain ⟨stored, rfl, rfl, fresh⟩ := startupBindings_mem selected member
    have live : binding.live world.tables.now = true := by
      simp [PrincipalCredentialBinding.live, backed.durable binding stored, fresh]
    exact authorizeBinding_ok backed.bindingIds stored live grant found usable
  have projects : ∀ binding ∈ bindings, ∃ fields,
      resolveFields toUppercase provider world.tables userId principal chatId binding =
        .ok fields := by
    intro binding member
    obtain ⟨connection, found⟩ := Option.isSome_iff_exists.mp
      (connected _ _ _ _ selected binding member)
    obtain ⟨usable, secret, fields, answer, projected⟩ := answers binding member connection found
    refine ⟨fields, ?_⟩
    simp [resolveFields, resolveBinding, getSecret, passes binding member,
      openConnection_usable found usable, answer, projected, bind, Except.bind, pure, Except.pure]
  obtain ⟨fields, collected⟩ := mapM_ok projects
  refine ⟨fields.flatten, ?_⟩
  simp only [resolveEnv, selected, collected, forM_ok passes, sameIds_refl, if_true, bind,
    Except.bind, pure, Except.pure]

theorem connection_filter {connectionId : Text} {keep : Text → Bool} (kept : keep connectionId) :
    (tables.connections.filter fun connection => keep connection.id).find? (·.id = connectionId) =
      tables.connection connectionId := by
  unfold Tables.connection
  induction tables.connections with
  | nil => rfl
  | cons connection rest ih =>
      by_cases same : connection.id = connectionId
      next => simp [same, kept]
      next =>
        by_cases stays : keep connection.id = true
        next => simp [stays, same, ih]
        next => simp [stays, same, ih]

theorem backed_remove (backed : tables.Backed) (next : Tables)
    (grants : next.grants.Sublist tables.grants) (bindings : next.bindings.Sublist tables.bindings)
    (now : next.now = tables.now)
    (stays : ∀ binding ∈ next.bindings, unexpired tables.now binding.expiresAt →
      next.connection binding.connectionId = tables.connection binding.connectionId ∧
        ∀ grant ∈ tables.grants,
          grant.ofItem binding.userId binding.principal binding.connectionId binding.vaultItemId →
            grant ∈ next.grants) :
    next.Backed := by
  refine ⟨backed.grantIds.sublist (grants.map _), backed.bindingIds.sublist (bindings.map _), ?_, ?_,
    ?_, ?_⟩
  · intro binding member
    exact backed.nonUser binding (bindings.subset member)
  · intro binding member
    exact backed.durable binding (bindings.subset member)
  · intro binding member fresh
    rw [now] at fresh
    obtain ⟨grant, given, item, expiry⟩ := backed.granted binding (bindings.subset member) fresh
    exact ⟨grant, (stays binding member fresh).2 grant given item, item, expiry⟩
  · intro binding member fresh
    rw [now] at fresh
    rw [(stays binding member fresh).1]
    exact backed.connected binding (bindings.subset member) fresh

end Backed

section Calls

variable {tables next : Tables} {approval : Approval} {bindingId grantId connectionId userId : Text}
  {target : CredentialTarget} {principal : Principal}

theorem createGrant_ok {grant : VaultGrant}
    (created : createGrant tables approval = .ok (grant, next)) :
    approval.principal.kind ≠ .user ∧ ∃ expiresAt,
      approval.duration.expiresAt tables.now = .ok expiresAt ∧ grant = approval.grant expiresAt ∧
        next = tables.addGrant grant := by
  unfold createGrant at created
  rw [ensure_bind_ok] at created
  cases expiry : approval.duration.expiresAt tables.now with
  | error failure => simp [expiry, bind, Except.bind] at created
  | ok expiresAt =>
      simp only [expiry, bind, Except.bind, pure, Except.pure, Except.ok.injEq, Prod.mk.injEq]
        at created
      obtain ⟨nonUser, rfl, rfl⟩ := created
      exact ⟨nonUser, expiresAt, rfl, rfl, rfl⟩

theorem createPair_ok (created : createPair tables approval bindingId target = .ok next) :
    approval.principal.kind ≠ .user ∧ ∃ expiresAt,
      approval.duration.expiresAt tables.now = .ok expiresAt ∧
        next = (tables.addGrant (approval.grant expiresAt)).addBinding
          ((approval.grant expiresAt).binding bindingId target) := by
  unfold createPair at created
  cases given : createGrant tables approval with
  | error failure => simp [given, bind, Except.bind] at created
  | ok result =>
      obtain ⟨nonUser, expiresAt, expiry, grant, added⟩ := createGrant_ok given
      simp only [given, bind, Except.bind] at created
      unfold createBinding at created
      have bound := (ensure_bind_ok.mp created).2
      refine ⟨nonUser, expiresAt, expiry, ?_⟩
      rw [← Except.ok.inj bound, added, grant]

theorem revokeGrant_ok (revoked : revokeGrant tables userId grantId = .ok next) :
    ∃ grant, tables.grants.find? (·.id = grantId) = some grant ∧ grant.userId = userId ∧
      next = (tables.deleteBindingsForItem grant.userId grant.principal grant.connectionId
        grant.vaultItemId).deleteGrant grantId := by
  unfold revokeGrant at revoked
  split at revoked
  next => cases revoked
  next grant found =>
    split at revoked
    next => cases revoked
    next owner =>
      have owner : grant.userId = userId := by simpa using owner
      exact ⟨grant, found, owner, by simpa [owner] using (Except.ok.inj revoked).symm⟩

theorem deleteConnection_ok (deleted : deleteConnection tables userId connectionId = .ok next) :
    ∃ connection, tables.connection connectionId = some connection ∧
      ((connection.provider = .managed ∧
          next = ((tables.deleteGrantsByConnection connectionId).deleteBindingsByConnection
            connectionId).deleteConnectionRow connectionId) ∨
        (connection.provider ≠ .managed ∧
          next = (tables.deleteGrantsByConnection connectionId).deleteConnectionRow
            connectionId)) := by
  unfold deleteConnection at deleted
  split at deleted
  next => cases deleted
  next connection found =>
    refine ⟨connection, found, ?_⟩
    split at deleted
    next => cases deleted
    next =>
      split at deleted
      next => cases deleted
      next =>
        split at deleted
        next managed =>
          unfold deleteManagedConnection at deleted
          split at deleted
          next => cases deleted
          next => exact .inl ⟨managed, (Except.ok.inj deleted).symm⟩
        next plain => exact .inr ⟨plain, (Except.ok.inj deleted).symm⟩

theorem expiresAt_over {expiresAt : Option Int} {duration : GrantDuration} {now : Int}
    (expiry : duration.expiresAt now = .ok expiresAt) :
    unexpired now expiresAt = false ↔ duration = .hours 0 ∨ duration = .days 0 := by
  cases duration with
  | once => cases expiry
  | permanent =>
      obtain rfl := Except.ok.inj expiry
      simp [unexpired]
  | hours count =>
      obtain rfl := Except.ok.inj expiry
      simp only [unexpired, decide_eq_false_iff_not, GrantDuration.hours.injEq, reduceCtorEq, or_false]
      omega
  | days count =>
      obtain rfl := Except.ok.inj expiry
      simp only [unexpired, decide_eq_false_iff_not, GrantDuration.days.injEq, reduceCtorEq, false_or]
      omega

theorem unexpired_before {now later : Int} {expiresAt : Option Int} (order : now ≤ later)
    (fresh : unexpired later expiresAt = true) : unexpired now expiresAt = true := by
  cases expiresAt with
  | none => rfl
  | some expiry =>
      simp only [unexpired, decide_eq_true_eq] at fresh ⊢
      omega

theorem backed_createGrant {expiresAt : Option Int} (backed : tables.Backed)
    (fresh : approval.grantId ∉ tables.grants.map (·.id)) :
    (tables.addGrant (approval.grant expiresAt)).Backed where
  grantIds := by
    simpa [Tables.addGrant, Approval.grant, List.nodup_append, backed.grantIds] using fresh
  bindingIds := backed.bindingIds
  nonUser := backed.nonUser
  durable := backed.durable
  granted := by
    intro binding member running
    obtain ⟨grant, given, item⟩ := backed.granted binding member running
    exact ⟨grant, by simp [Tables.addGrant, given], item⟩
  connected := backed.connected

theorem backed_addBinding {grant : VaultGrant} (backed : tables.Backed)
    (given : grant ∈ tables.grants) (fresh : bindingId ∉ tables.bindings.map (·.id))
    (nonUser : grant.principal.kind ≠ .user)
    (connected : unexpired tables.now grant.expiresAt →
      (tables.connection grant.connectionId).isSome) :
    (tables.addBinding (grant.binding bindingId target)).Backed := by
  refine ⟨backed.grantIds, ?_, ?_, ?_, ?_, ?_⟩
  · simpa [Tables.addBinding, VaultGrant.binding, List.nodup_append, backed.bindingIds] using fresh
  all_goals
    intro binding member
    rcases List.mem_append.mp member with old | new
  · exact backed.nonUser binding old
  · rwa [List.mem_singleton.mp new]
  · exact backed.durable binding old
  · rw [List.mem_singleton.mp new, VaultGrant.binding]
  · exact backed.granted binding old
  · intro running
    exact ⟨grant, given, by simp [List.mem_singleton.mp new, VaultGrant.ofItem, VaultGrant.binding]⟩
  · exact backed.connected binding old
  · rw [List.mem_singleton.mp new]
    exact connected

end Calls

end Frona.Vault
