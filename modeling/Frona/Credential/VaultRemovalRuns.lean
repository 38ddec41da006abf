import Frona.Credential.VaultBacked

set_option autoImplicit false

namespace Frona.Vault

open Utf8 (Text)

section Removals

variable {tables next : Tables} {grantId connectionId userId : Text} {principal : Principal}

theorem backed_revokeGrant (backed : tables.Backed)
    (revoked : revokeGrant tables userId grantId = .ok next) : next.Backed := by
  obtain ⟨grant, found, -, rfl⟩ := revokeGrant_ok revoked
  obtain ⟨given, rfl⟩ := (Machine.find_key_eq_some (·.id) backed.grantIds grantId grant).mp found
  refine backed_remove backed _ List.filter_sublist List.filter_sublist rfl ?_
  intro binding member _
  refine ⟨rfl, ?_⟩
  intro other stored item
  -- The revoked grant is of an item that has no bindings left.
  have apart : other.id ≠ grant.id := by
    intro same
    obtain rfl := List.inj_on_of_nodup_map backed.grantIds stored given same
    have kept := (List.mem_filter.mp member).2
    simp only [VaultGrant.ofItem, PrincipalCredentialBinding.ofItem, decide_eq_true_eq] at kept item
    exact kept ⟨item.1.symm, item.2.1.symm, item.2.2.1.symm, item.2.2.2.symm⟩
  simp [Tables.deleteGrant, Tables.deleteBindingsForItem, stored, apart]

theorem strandedBy_revokeGrant (backed : tables.Backed)
    (revoked : revokeGrant tables userId grantId = .ok next) :
    strandedBy tables next = [] ↔ (Event.revokeGrant userId grantId).Spares tables := by
  obtain ⟨grant, found, -, rfl⟩ := revokeGrant_ok revoked
  obtain ⟨given, rfl⟩ := (Machine.find_key_eq_some (·.id) backed.grantIds grantId grant).mp found
  simp only [strandedBy, List.flatMap_eq_nil_iff, List.map_eq_nil_iff, List.filter_eq_nil_iff,
    Event.Spares, decide_eq_true_eq, Tables.deleteGrant, Tables.deleteBindingsForItem,
    List.mem_filter, not_and, not_not]
  constructor
  · intro none other stored same binding bound live item others kept backs
    obtain rfl := List.inj_on_of_nodup_map backed.grantIds stored given same
    by_contra apart
    exact none others ⟨kept, apart⟩ binding bound (fun _ => item) live backs
  · rintro spares other ⟨stored, apart⟩ binding bound gone live backs
    exact apart (spares grant given rfl binding bound live (gone bound) other stored backs)

theorem backed_deleteConnection (backed : tables.Backed)
    (deleted : deleteConnection tables userId connectionId = .ok next)
    (spares : (Event.deleteConnection userId connectionId).Spares tables) : next.Backed := by
  obtain ⟨connection, found, ⟨managed, rfl⟩ | ⟨plain, rfl⟩⟩ := deleteConnection_ok deleted
  all_goals
    refine backed_remove backed _ List.filter_sublist (by simp [Tables.deleteConnectionRow,
      Tables.deleteBindingsByConnection, Tables.deleteGrantsByConnection]) rfl ?_
    intro binding member fresh
    have apart : binding.connectionId ≠ connectionId := ?_
    · refine ⟨@connection_filter tables _ (· ≠ connectionId) (by simpa using apart), ?_⟩
      intro grant stored item
      simp only [VaultGrant.ofItem, decide_eq_true_eq] at item
      simp [Tables.deleteConnectionRow, Tables.deleteBindingsByConnection,
        Tables.deleteGrantsByConnection, stored, item.2.2.1, apart]
  · simpa using (List.mem_filter.mp member).2
  · have live : binding.live tables.now = true := by
      simp [PrincipalCredentialBinding.live, backed.durable binding member, fresh]
    exact spares connection found plain binding member live

theorem backed_deleteGrants (backed : tables.Backed)
    (spares : (Event.deleteGrants userId principal).Spares tables) :
    (tables.deleteGrantsByPrincipal userId principal).Backed := by
  refine backed_remove backed _ List.filter_sublist (List.Sublist.refl _) rfl ?_
  intro binding member fresh
  have live : binding.live tables.now = true := by
    simp [PrincipalCredentialBinding.live, backed.durable binding member, fresh]
  refine ⟨rfl, ?_⟩
  intro grant stored item
  simp only [VaultGrant.ofItem, decide_eq_true_eq] at item
  have others := spares binding member live
  rw [← item.1, ← item.2.1] at others
  exact List.mem_filter.mpr ⟨stored, decide_eq_true others⟩

theorem backed_deleteBindings (backed : tables.Backed) :
    (tables.deleteBindingsByPrincipal userId principal).Backed :=
  backed_remove backed _ (List.Sublist.refl _) List.filter_sublist rfl
    fun _ _ _ => ⟨rfl, fun _ stored _ => stored⟩

theorem backed_tick (backed : tables.Backed) (seconds : Nat) :
    { tables with now := tables.now + seconds }.Backed where
  grantIds := backed.grantIds
  bindingIds := backed.bindingIds
  nonUser := backed.nonUser
  durable := backed.durable
  granted binding member fresh :=
    backed.granted binding member (unexpired_before (by simp) fresh)
  connected binding member fresh :=
    backed.connected binding member (unexpired_before (by simp) fresh)

end Removals

section Runs

def World.Backed (world : World) : Prop := world.tables.Backed ∧ world.stranded = []

variable {event : Event} {world next : World}

theorem step_cases (taken : step event world = some next) :
    event.fresh world.tables = true ∧ event.call world.tables = .ok next.tables ∧
      next.stranded = world.stranded ++ event.stranded world.tables next.tables := by
  unfold step at taken
  split at taken
  next fresh =>
    split at taken
    next => cases taken
    next tables called =>
      obtain rfl := Option.some.inj taken
      exact ⟨fresh, called, rfl⟩
  next => cases taken

theorem backed_step (backed : world.Backed) (taken : step event world = some next)
    (spares : event.Spares world.tables) : next.Backed := by
  obtain ⟨fresh, called, stranded⟩ := step_cases taken
  obtain ⟨stored, none⟩ := backed
  rw [none, List.nil_append] at stranded
  cases event with
  | createPair approval bindingId target =>
      simp only [Event.fresh, decide_eq_true_eq] at fresh
      obtain ⟨nonUser, expiresAt, expiry, after⟩ := createPair_ok called
      refine ⟨?_, stranded⟩
      rw [after]
      refine backed_addBinding (backed_createGrant stored fresh.1)
        (by simp [Tables.addGrant]) fresh.2 nonUser ?_
      intro running
      rcases spares with connected | elapsed
      next => exact connected
      next =>
        rw [← expiresAt_over expiry] at elapsed
        simp [Tables.addGrant, Approval.grant, elapsed] at running
  | createGrant approval =>
      simp only [Event.fresh, decide_eq_true_eq] at fresh
      simp only [Event.call] at called
      cases created : createGrant world.tables approval with
      | error failure => simp [created, Except.map] at called
      | ok result =>
          simp only [created, Except.map, Except.ok.injEq] at called
          obtain ⟨-, expiresAt, -, grant, after⟩ := createGrant_ok created
          refine ⟨?_, stranded⟩
          rw [← called, after, grant]
          exact backed_createGrant stored fresh
  | revokeGrant userId grantId =>
      rw [Event.stranded, (strandedBy_revokeGrant stored called).mpr spares] at stranded
      exact ⟨backed_revokeGrant stored called, stranded⟩
  | deleteConnection userId connectionId =>
      exact ⟨backed_deleteConnection stored called spares, stranded⟩
  | deleteGrants userId principal =>
      have after := (ensure_bind_ok.mp called).2
      refine ⟨?_, stranded⟩
      rw [← Except.ok.inj after]
      exact backed_deleteGrants stored spares
  | deleteBindings userId principal =>
      have after := (ensure_bind_ok.mp called).2
      refine ⟨?_, stranded⟩
      rw [← Except.ok.inj after]
      exact backed_deleteBindings stored
  | tick seconds =>
      refine ⟨?_, stranded⟩
      rw [← Except.ok.inj called]
      exact backed_tick stored seconds

theorem spares_of_sound (backed : world.Backed) (taken : step event world = some next)
    (sound : next.Sound) : event.Spares world.tables := by
  obtain ⟨fresh, called, stranded⟩ := step_cases taken
  obtain ⟨stored, none⟩ := backed
  rw [none, List.nil_append, sound.kept] at stranded
  cases event with
  | createPair approval bindingId target =>
      obtain ⟨nonUser, expiresAt, expiry, after⟩ := createPair_ok called
      by_cases elapsed : unexpired world.tables.now expiresAt = false
      next => exact .inr ((expiresAt_over expiry).mp elapsed)
      next =>
        have live : ((approval.grant expiresAt).binding bindingId target).live
            next.tables.now = true := by
          simpa [PrincipalCredentialBinding.live, VaultGrant.binding, Approval.grant, after,
            Tables.addBinding, Tables.addGrant] using elapsed
        obtain ⟨selected, started, member⟩ := startupBindings_live
          (by simp [after, Tables.addBinding]) live nonUser
        have connected := sound.connected _ _ _ _ started _ member rfl
        rw [after] at connected
        exact .inl connected
  | createGrant approval => trivial
  | revokeGrant userId grantId => exact (strandedBy_revokeGrant stored called).mp stranded.symm
  | deleteConnection userId connectionId =>
      obtain ⟨connection, found, after⟩ := deleteConnection_ok called
      intro other named plain binding member live same
      obtain rfl := Option.some.inj (found.symm.trans named)
      obtain ⟨managed, -⟩ | ⟨-, after⟩ := after
      next => exact plain managed
      next =>
        -- The binding is still there, and its connection is not.
        obtain ⟨selected, started, here⟩ := @startupBindings_live next.tables _
          (by rw [after]; exact member) (by rw [after]; exact live)
          (stored.nonUser binding member)
        have connected := sound.connected _ _ _ _ started _ here (stored.durable binding member)
        rw [after, same] at connected
        simp [Tables.connection, Tables.deleteConnectionRow] at connected
  | deleteGrants userId principal =>
      have after := Except.ok.inj (ensure_bind_ok.mp called).2
      rintro binding member live ⟨rfl, rfl⟩
      obtain ⟨selected, started, here⟩ := @startupBindings_live next.tables _
        (by rw [← after]; exact member) (by rw [← after]; exact live)
        (stored.nonUser binding member)
      have granted := sound.granted _ _ _ _ started _ here (stored.durable binding member)
      obtain ⟨-, grant, kept, item, -⟩ := hasGrantForItem_eq_true.mp granted
      rw [← after] at kept
      simp only [VaultGrant.ofItem, decide_eq_true_eq] at item
      simp [Tables.deleteGrantsByPrincipal, item.1, item.2.1] at kept
  | deleteBindings userId principal => trivial
  | tick seconds => trivial

def opened (connections : List VaultConnection) (credentials : List Text) (now : Int) : World where
  tables :=
    { connections := connections
      grants := []
      bindings := []
      credentials := credentials
      now := now }
  stranded := []

theorem backed_opened (connections : List VaultConnection) (credentials : List Text) (now : Int) :
    (opened connections credentials now).Backed := by
  refine ⟨⟨?_, ?_, ?_, ?_, ?_, ?_⟩, rfl⟩
  all_goals simp [opened]

/-- No binding is left without what it needs just where each removal spares it. -/
theorem access_sound_iff_spared (connections : List VaultConnection) (credentials : List Text)
    (now : Int) (events : List Event) (last : World)
    (reached : Machine.run step events (opened connections credentials now) = some last) :
    Machine.Always step World.Sound events (opened connections credentials now) ↔
      Machine.Guarded step (fun event world => event.Spares world.tables) events
        (opened connections credentials now) :=
  @Machine.always_iff_guarded_of _ _ _ _ World.Backed _
    (fun _ backed => backed_sound backed.1 backed.2)
    (fun _ _ _ backed taken spares => backed_step backed taken spares)
    (fun _ _ _ backed taken sound => spares_of_sound backed taken sound)
    events _ last (backed_opened connections credentials now) reached

def sampleConnection : VaultConnection where
  id := "work".toList
  userId := "alice".toList
  provider := .onePassword
  enabled := true
  systemManaged := false

def sampleApproval (duration : GrantDuration) (grantId : Text) : Approval where
  userId := "alice".toList
  principal := ⟨.agent, "researcher".toList⟩
  connectionId := "work".toList
  vaultItemId := "github".toList
  duration := duration
  grantId := grantId

def sampleTarget : CredentialTarget := .prefixed "GITHUB".toList

def spared : List Event :=
  [.createPair (sampleApproval (.hours 1) ['1']) ['a'] sampleTarget,
    .createPair (sampleApproval .permanent ['2']) ['b'] sampleTarget,
    .tick 3600,
    .revokeGrant "alice".toList ['2'],
    .deleteConnection "alice".toList "work".toList]

theorem access_sound_iff_spared_later :
    Machine.Always step World.Sound spared (opened [sampleConnection] [] 0) :=
  (access_sound_iff_spared [sampleConnection] [] 0 spared _ rfl).mpr (by decide)

theorem removals_leave_dangling :
    (∃ last, Machine.run step [.createPair (sampleApproval .permanent ['1']) ['a'] sampleTarget,
        .deleteConnection "alice".toList "work".toList] (opened [sampleConnection] [] 0) =
          some last ∧ ¬ last.Sound ∧ last.tables.connection "work".toList = none ∧
        startupBindings last.tables "alice".toList ⟨.agent, "researcher".toList⟩ none =
          .ok [((sampleApproval .permanent ['1']).grant none).binding ['a'] sampleTarget] ∧
        ∀ toUppercase provider,
          resolveEnv toUppercase provider last.tables "alice".toList
            ⟨.agent, "researcher".toList⟩ none =
              .error (unresolved
                (((sampleApproval .permanent ['1']).grant none).binding ['a'] sampleTarget))) ∧
      (∃ last, Machine.run step [.createPair (sampleApproval .permanent ['1']) ['a'] sampleTarget,
        .createPair (sampleApproval .permanent ['2']) ['b'] sampleTarget,
        .revokeGrant "alice".toList ['2']] (opened [sampleConnection] [] 0) = some last ∧
          ¬ last.Sound ∧ last.tables.bindings = [] ∧
          last.tables.grants = [(sampleApproval .permanent ['1']).grant none]) := by
  refine ⟨⟨_, rfl, ?_, rfl, rfl, fun _ _ => rfl⟩, ⟨_, rfl, ?_, rfl, rfl⟩⟩
  · intro sound
    have connected := sound.connected "alice".toList ⟨.agent, "researcher".toList⟩ none _ rfl
    revert connected
    decide
  · intro sound
    have kept := sound.kept
    revert kept
    decide

end Runs

end Frona.Vault
