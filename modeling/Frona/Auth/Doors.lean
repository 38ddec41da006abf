import Mathlib.Logic.Relation
import Frona.Auth.Tokens
import Frona.Machine.Lists

set_option autoImplicit false

namespace Frona.Auth

open Utf8 (Text)
open Relation (ReflTransGen)

namespace TokenService

inductive Step : TokenService → TokenService → Prop where
  | mint (service : TokenService) (config : TokenConfig) (user : User) (mint : Mint) (id jwt : Text)
      (fresh : ∀ issued ∈ service.issued, issued.claims.tokenId ≠ id ∧ issued.jwt ≠ jwt) :
      Step service (service.createToken config user mint id jwt)
  | delete (service : TokenService) (id : Text) : Step service (service.delete id)
  | deletePair (service : TokenService) (pairId : Text) :
      Step service (service.deleteByRefreshPair pairId).2
  | deleteUser (service : TokenService) (userId : Text) :
      Step service (service.deleteByUserId userId)
  | deleteExpired (service : TokenService) : Step service service.deleteExpired
  | wait (service : TokenService) (later : Int) (passes : service.now ≤ later) :
      Step service { service with now := later }

def Reachable (service : TokenService) : Prop :=
  ∃ now, ReflTransGen Step ⟨now, [], []⟩ service

end TokenService

section Minted

def Mint.tokenType : Mint → TokenType
  | sessionAccess _ | accessToken _ | appSession | voice .. => .access
  | sessionRefresh _ => .refresh
  | pat _ => .pat
  | appGateCode | ephemeral .. => .ephemeral

def Mint.scopes : Mint → List Text
  | appGateCode => [appGateScope]
  | appSession => [appSessionScope]
  | pat request => request.scopes.getD []
  | _ => []

theorem Mint.request_tokenType (mint : Mint) (config : TokenConfig) (user : User) :
    (mint.request config user).tokenType = mint.tokenType := by
  cases mint <;> rfl

theorem Mint.request_scopes (mint : Mint) (config : TokenConfig) (user : User) :
    (mint.request config user).scopes = mint.scopes := by
  cases mint <;> rfl

def Mint.IsPat (mint : Mint) : Prop := mint.tokenType = .pat

instance (mint : Mint) : Decidable mint.IsPat := inferInstanceAs (Decidable (mint.tokenType = .pat))

def Mint.AppScoped (mint : Mint) : Prop :=
  appGateScope ∈ mint.scopes ∨ appSessionScope ∈ mint.scopes

-- Apart from the two credentials of the apps, only what its user chose has scopes.
theorem Mint.scopes_cases (mint : Mint) :
    mint.scopes = [] ∨ mint = .appGateCode ∨ mint = .appSession ∨ mint.IsPat := by
  cases mint with
  | appGateCode => exact Or.inr (Or.inl rfl)
  | appSession => exact Or.inr (Or.inr (Or.inl rfl))
  | pat request => exact Or.inr (Or.inr (Or.inr rfl))
  | _ => exact Or.inl rfl

end Minted

section Sound

/-- The row of a token is there, and its time has not come. -/
def Issued.Live (service : TokenService) (issued : Issued) : Prop :=
  ∃ row ∈ service.rows, row.id = issued.claims.tokenId ∧ service.now < row.expiresAt

structure Issued.Shaped (issued : Issued) : Prop where
  tokenType : issued.claims.tokenType = issued.mint.tokenType.asStr
  scopes : ∀ scope, TokenService.hasScope issued.claims scope = decide (scope ∈ issued.mint.scopes)

theorem Issued.Shaped.has {issued : Issued} (shaped : issued.Shaped) (type : TokenType) :
    issued.claims.tokenType = type.asStr ↔ issued.mint.tokenType = type := by
  rw [shaped.tokenType, TokenType.asStr_inj]

structure TokenService.Sound (service : TokenService) : Prop where
  ids : (service.issued.map fun issued => issued.claims.tokenId).Nodup
  texts : (service.issued.map Issued.jwt).Nodup
  shaped : ∀ issued ∈ service.issued, issued.Shaped
  backed : ∀ row ∈ service.rows, ∃ issued ∈ service.issued,
    issued.claims.tokenId = row.id ∧ issued.claims.exp = row.expiresAt / nanos

theorem shaped_claims (service : TokenService) (config : TokenConfig) (user : User) (mint : Mint)
    (id jwt : Text) :
    Issued.Shaped ⟨jwt, service.claimsFor user id (mint.request config user), mint⟩ where
  tokenType := congrArg TokenType.asStr (mint.request_tokenType config user)
  scopes scope := by
    by_cases empty : mint.scopes = []
    · simp [TokenService.hasScope, TokenService.claimsFor, mint.request_scopes, empty]
    · simp [TokenService.hasScope, TokenService.claimsFor, mint.request_scopes, empty]

theorem TokenService.Sound.filter {service : TokenService} (sound : service.Sound)
    (keep : ApiToken → Bool) :
    TokenService.Sound { service with rows := service.rows.filter keep } where
  ids := sound.ids
  texts := sound.texts
  shaped := sound.shaped
  backed row member := sound.backed row (List.mem_of_mem_filter member)

theorem TokenService.Sound.step {service after : TokenService} (sound : service.Sound)
    (step : TokenService.Step service after) : after.Sound := by
  cases step with
  | mint config user mint id jwt fresh =>
      constructor
      · simp only [TokenService.createToken, List.map_cons, List.nodup_cons]
        refine ⟨?_, sound.ids⟩
        intro member
        obtain ⟨issued, listed, same⟩ := List.mem_map.mp member
        exact (fresh issued listed).1 same
      · simp only [TokenService.createToken, List.map_cons, List.nodup_cons]
        refine ⟨?_, sound.texts⟩
        intro member
        obtain ⟨issued, listed, same⟩ := List.mem_map.mp member
        exact (fresh issued listed).2 same
      · simp only [TokenService.createToken, List.forall_mem_cons]
        exact ⟨shaped_claims service config user mint id jwt, sound.shaped⟩
      · intro row member
        have older (row : ApiToken) (member : row ∈ service.rows) := sound.backed row member
        simp only [TokenService.createToken, List.exists_mem_cons_iff] at member ⊢
        split at member
        next => exact Or.inr (older row member)
        next =>
          cases List.mem_cons.mp member with
          | inl new =>
              rw [new]
              exact Or.inl ⟨rfl, rfl⟩
          | inr old => exact Or.inr (older row old)
  | wait later => exact ⟨sound.ids, sound.texts, sound.shaped, sound.backed⟩
  | _ => exact sound.filter _

theorem TokenService.Reachable.sound {service : TokenService} (reachable : service.Reachable) :
    service.Sound := by
  obtain ⟨now, steps⟩ := reachable
  induction steps with
  | refl => exact ⟨List.nodup_nil, List.nodup_nil, by simp, by simp⟩
  | tail _ step ih => exact ih.step step

end Sound

section Accepted

variable {service : TokenService}

/-- The text is a token that the service still takes, whatever it is good for. -/
def Valid (service : TokenService) (issued : Issued) : Prop :=
  issued ∈ service.issued ∧
    if issued.mint.tokenType = .ephemeral then
      service.now / nanos - TokenService.leeway ≤ issued.claims.exp
    else issued.Live service

theorem Issued.Live.findActive {issued : Issued} :
    (service.findActiveById issued.claims.tokenId).isSome = true ↔ issued.Live service := by
  simp [TokenService.findActiveById, Issued.Live]

-- The row lives on to the full nanosecond, the claims for another minute.
theorem Issued.Live.inTime (sound : service.Sound) {issued : Issued}
    (member : issued ∈ service.issued) (live : issued.Live service) :
    service.now / nanos - TokenService.leeway ≤ issued.claims.exp := by
  obtain ⟨row, listed, same, later⟩ := live
  obtain ⟨issued', member', same', exp⟩ := sound.backed row listed
  obtain rfl : issued' = issued :=
    List.inj_on_of_nodup_map sound.ids member' member (same'.trans same)
  rw [exp]
  have := Int.ediv_le_ediv (show 0 < nanos by decide) (le_of_lt later)
  simp only [TokenService.leeway]
  omega

theorem validateAny_ok (sound : service.Sound) (token : Text) (claims : Claims) :
    service.validateAny token = .ok claims ↔
      ∃ issued, Valid service issued ∧ issued.jwt = token ∧ issued.claims = claims := by
  constructor
  · intro accepted
    unfold TokenService.validateAny TokenService.verify at accepted
    cases found : service.issued.find? fun issued => issued.jwt = token with
    | none => simp [found] at accepted
    | some issued =>
        obtain ⟨member, same⟩ := (Machine.find_key_eq_some Issued.jwt sound.texts _ _).mp found
        have shaped := sound.shaped issued member
        simp only [found] at accepted
        split at accepted
        next => simp at accepted
        next claims' ran =>
        split at ran
        next => simp at ran
        next inTime =>
        obtain rfl : issued.claims = claims' := by simpa using ran
        refine ⟨issued, ⟨member, ?_⟩, same, ?_⟩
        · split at accepted
          next stateless =>
            rw [if_pos ((shaped.has .ephemeral).mp stateless)]
            omega
          next stored =>
            split at accepted
            next => simp at accepted
            next active =>
              rw [if_neg (mt (shaped.has .ephemeral).mpr stored)]
              exact Issued.Live.findActive.mp (by simp [active])
        · split at accepted
          next => simpa using accepted
          next =>
            split at accepted
            next => simp at accepted
            next => simpa using accepted
  · rintro ⟨issued, ⟨member, valid⟩, rfl, rfl⟩
    have found := Machine.find_key Issued.jwt sound.texts issued member
    have shaped := sound.shaped issued member
    have inTime : service.now / nanos - TokenService.leeway ≤ issued.claims.exp := by
      split at valid
      next => exact valid
      next => exact Issued.Live.inTime sound member valid
    simp only [TokenService.validateAny, TokenService.verify, found, if_neg (not_lt.mpr inTime)]
    split at valid
    next stateless => rw [if_pos ((shaped.has .ephemeral).mpr stateless)]
    next stored =>
      rw [if_neg (mt (shaped.has .ephemeral).mp stored)]
      obtain ⟨row, active⟩ := Option.isSome_iff_exists.mp (Issued.Live.findActive.mpr valid)
      rw [active]

def Accepted (result : Except AppError Claims) : Prop := ∃ claims, result = .ok claims

theorem Issued.Shaped.isTriggerOnly {issued : Issued} (shaped : issued.Shaped) :
    TokenService.isTriggerOnly issued.claims = true ↔ agentTriggerScope ∈ issued.mint.scopes := by
  simp [TokenService.isTriggerOnly, shaped.scopes]

theorem Issued.Shaped.isAppScoped {issued : Issued} (shaped : issued.Shaped) :
    TokenService.isAppScoped issued.claims = true ↔ issued.mint.AppScoped := by
  simp [TokenService.isAppScoped, shaped.scopes, Mint.AppScoped]

theorem Issued.Shaped.api {issued : Issued} (shaped : issued.Shaped) :
    (∃ type ∈ TokenService.apiTokenTypes, type.asStr = issued.claims.tokenType) ↔
      issued.mint.tokenType ≠ .refresh := by
  simp only [TokenService.apiTokenTypes, shaped.tokenType, TokenType.asStr_inj]
  cases issued.mint.tokenType <;> simp

theorem accepted_of_check (sound : service.Sound) (token : Text)
    (check : Claims → Except AppError Claims) (passes : Issued → Prop)
    (checked : ∀ issued ∈ service.issued, Accepted (check issued.claims) ↔ passes issued) :
    Accepted (service.validateAny token >>= check) ↔
      ∃ issued, Valid service issued ∧ issued.jwt = token ∧ passes issued := by
  constructor
  · rintro ⟨claims', accepted⟩
    cases ran : service.validateAny token with
    | error error =>
        rw [ran] at accepted
        simp [bind, Except.bind] at accepted
    | ok claims =>
        obtain ⟨issued, valid, same, rfl⟩ := (validateAny_ok sound token claims).mp ran
        rw [ran] at accepted
        exact ⟨issued, valid, same, (checked issued valid.1).mp ⟨claims', accepted⟩⟩
  · rintro ⟨issued, valid, same, pass⟩
    rw [(validateAny_ok sound token issued.claims).mpr ⟨issued, valid, same, rfl⟩]
    exact (checked issued valid.1).mpr pass

theorem accepted_if (holds : Prop) [Decidable holds] (claims : Claims) (error : AppError) :
    Accepted (if holds then .ok claims else .error error) ↔ holds := by
  by_cases held : holds <;> simp [Accepted, held]

theorem validate_accepts (sound : service.Sound) (token : Text) :
    Accepted (service.validate token) ↔
      ∃ issued, Valid service issued ∧ issued.jwt = token ∧
        agentTriggerScope ∉ issued.mint.scopes ∧ ¬ issued.mint.AppScoped ∧
          issued.mint.tokenType ≠ .refresh := by
  apply accepted_of_check sound
  intro issued member
  have shaped := sound.shaped issued member
  rw [← shaped.isTriggerOnly, ← shaped.isAppScoped, ← shaped.api]
  by_cases trigger : TokenService.isTriggerOnly issued.claims = true
  · simp [Accepted, trigger]
  by_cases apps : TokenService.isAppScoped issued.claims = true
  · simp [Accepted, trigger, TokenService.rejectAppScoped, apps, bind, Except.bind]
  · simp [accepted_if, trigger, TokenService.rejectAppScoped, apps, bind, Except.bind,
      TokenService.requireType]

theorem validateRefresh_accepts (sound : service.Sound) (token : Text) :
    Accepted (service.validateRefresh token) ↔
      ∃ issued, Valid service issued ∧ issued.jwt = token ∧ issued.mint.tokenType = .refresh := by
  apply accepted_of_check sound
  intro issued member
  have shaped := sound.shaped issued member
  simp [accepted_if, TokenService.requireType, shaped.tokenType, TokenType.asStr_inj, eq_comm]

theorem validateScoped_accepts (sound : service.Sound) (token scope : Text) :
    Accepted (service.validateScoped token scope) ↔
      ∃ issued, Valid service issued ∧ issued.jwt = token ∧ scope ∈ issued.mint.scopes := by
  apply accepted_of_check sound
  intro issued member
  simp [accepted_if, (sound.shaped issued member).scopes]

theorem validateAgentTrigger_accepts (sound : service.Sound) (token : Text) :
    Accepted (service.validateAgentTrigger token) ↔
      ∃ issued, Valid service issued ∧ issued.jwt = token ∧ ¬ issued.mint.AppScoped ∧
        issued.mint.tokenType ≠ .refresh := by
  apply accepted_of_check sound
  intro issued member
  have shaped := sound.shaped issued member
  rw [← shaped.isAppScoped, ← shaped.api]
  by_cases apps : TokenService.isAppScoped issued.claims = true
  · simp [Accepted, TokenService.rejectAppScoped, apps, bind, Except.bind]
  · simp [accepted_if, TokenService.rejectAppScoped, apps, bind, Except.bind,
      TokenService.requireType]

theorem Valid.live {issued : Issued} (valid : Valid service issued)
    (stored : issued.mint.tokenType ≠ .ephemeral) : issued.Live service := by
  simpa [stored] using valid.2

theorem Issued.Live.valid {issued : Issued} (live : issued.Live service)
    (member : issued ∈ service.issued) (stored : issued.mint.tokenType ≠ .ephemeral) :
    Valid service issued :=
  ⟨member, by simpa [stored] using live⟩

end Accepted

section Gone

def Issued.Gone (issued : Issued) (service : TokenService) : Prop :=
  issued ∈ service.issued ∧ ∀ row ∈ service.rows, row.id ≠ issued.claims.tokenId

theorem Issued.Gone.step {issued : Issued} {service after : TokenService}
    (gone : issued.Gone service) (step : TokenService.Step service after) : issued.Gone after := by
  obtain ⟨member, away⟩ := gone
  have fewer (keep : ApiToken → Bool) :
      issued.Gone { service with rows := service.rows.filter keep } :=
    ⟨member, fun row listed => away row (List.mem_of_mem_filter listed)⟩
  cases step with
  | mint config user mint id jwt fresh =>
      constructor
      · exact List.mem_cons_of_mem _ member
      · intro row listed
        simp only [TokenService.createToken] at listed
        split at listed
        next => exact away row listed
        next =>
          cases List.mem_cons.mp listed with
          | inl new =>
              rw [new]
              exact (fresh issued member).1.symm
          | inr old => exact away row old
  | wait later => exact ⟨member, away⟩
  | _ => exact fewer _

theorem Issued.Gone.steps {issued : Issued} {service after : TokenService}
    (gone : issued.Gone service) (steps : ReflTransGen TokenService.Step service after) :
    issued.Gone after := by
  induction steps with
  | refl => exact gone
  | tail _ step ih => exact ih.step step

end Gone

section Doors

structure Refused (service : TokenService) (token : Text) : Prop where
  validate : ¬ Accepted (service.validate token)
  refresh : ¬ Accepted (service.validateRefresh token)
  gate : ¬ Accepted (service.validateAppGateCode token)
  session : ¬ Accepted (service.validateAppSession token)
  trigger : ¬ Accepted (service.validateAgentTrigger token)

theorem Refused.of_gone {service : TokenService} (sound : service.Sound) {issued : Issued}
    (gone : issued.Gone service) (stored : issued.mint.tokenType ≠ .ephemeral) :
    Refused service issued.jwt := by
  have invalid : ∀ other, Valid service other → other.jwt ≠ issued.jwt := by
    intro other valid same
    obtain rfl : other = issued :=
      List.inj_on_of_nodup_map sound.texts valid.1 gone.1 same
    obtain ⟨row, listed, here, _⟩ := valid.live stored
    exact gone.2 row listed here
  constructor
  · rw [validate_accepts sound]
    rintro ⟨other, valid, same, _⟩
    exact invalid other valid same
  · rw [validateRefresh_accepts sound]
    rintro ⟨other, valid, same, _⟩
    exact invalid other valid same
  · rw [TokenService.validateAppGateCode, validateScoped_accepts sound]
    rintro ⟨other, valid, same, _⟩
    exact invalid other valid same
  · rw [TokenService.validateAppSession, validateScoped_accepts sound]
    rintro ⟨other, valid, same, _⟩
    exact invalid other valid same
  · rw [validateAgentTrigger_accepts sound]
    rintro ⟨other, valid, same, _⟩
    exact invalid other valid same

/-- Every kind of credential opens only its own door. -/
structure Doors (service : TokenService) : Prop where
  validate : ∀ token, Accepted (service.validate token) → ∃ issued ∈ service.issued,
    issued.jwt = token ∧ issued.mint.tokenType ≠ .refresh ∧
      agentTriggerScope ∉ issued.mint.scopes ∧ ¬ issued.mint.AppScoped
  refresh : ∀ token, Accepted (service.validateRefresh token) ↔ ∃ issued ∈ service.issued,
    issued.jwt = token ∧ issued.mint.tokenType = .refresh ∧ issued.Live service
  gate : ∀ token, Accepted (service.validateAppGateCode token) → ∃ issued ∈ service.issued,
    issued.jwt = token ∧ issued.mint = .appGateCode
  session : ∀ token, Accepted (service.validateAppSession token) → ∃ issued ∈ service.issued,
    issued.jwt = token ∧ issued.mint = .appSession
  -- A token that is scoped for the apps as well opens nothing here.
  trigger : ∀ token, Accepted (service.validateAgentTrigger token) ↔
    Accepted (service.validate token) ∨ ∃ issued ∈ service.issued, issued.jwt = token ∧
      issued.mint.IsPat ∧ agentTriggerScope ∈ issued.mint.scopes ∧ ¬ issued.mint.AppScoped ∧
        issued.Live service
  revoked : ∀ issued : Issued, issued.Gone service → issued.mint.tokenType ≠ .ephemeral →
    ∀ later, ReflTransGen TokenService.Step service later → Refused later issued.jwt

variable {service : TokenService}

theorem scoped_mint {issued : Issued} (valid : Valid service issued) {scope : Text}
    (held : scope ∈ issued.mint.scopes) :
    (issued.mint = .appGateCode ∧ scope = appGateScope) ∨
      (issued.mint = .appSession ∧ scope = appSessionScope) ∨
      (issued.mint.IsPat ∧ issued.Live service) := by
  cases issued.mint.scopes_cases with
  | inl none =>
      rw [none] at held
      simp at held
  | inr some =>
      cases some with
      | inl gate =>
          rw [gate] at held
          exact Or.inl ⟨gate, List.mem_singleton.mp held⟩
      | inr rest =>
          cases rest with
          | inl session =>
              rw [session] at held
              exact Or.inr (Or.inl ⟨session, List.mem_singleton.mp held⟩)
          | inr pat =>
              have stored : issued.mint.tokenType ≠ .ephemeral := by rw [pat]; decide
              exact Or.inr (Or.inr ⟨pat, valid.live stored⟩)

theorem trigger_accepts (sound : service.Sound) (token : Text) :
    Accepted (service.validateAgentTrigger token) ↔
      Accepted (service.validate token) ∨ ∃ issued ∈ service.issued, issued.jwt = token ∧
        issued.mint.IsPat ∧ agentTriggerScope ∈ issued.mint.scopes ∧ ¬ issued.mint.AppScoped ∧
          issued.Live service := by
  rw [validateAgentTrigger_accepts sound, validate_accepts sound]
  constructor
  · rintro ⟨issued, valid, same, plain, api⟩
    by_cases trigger : agentTriggerScope ∈ issued.mint.scopes
    · obtain ⟨_, other⟩ | ⟨_, other⟩ | ⟨pat, live⟩ := scoped_mint valid trigger
      · exact absurd other (by decide)
      · exact absurd other (by decide)
      · exact Or.inr ⟨issued, valid.1, same, pat, trigger, plain, live⟩
    · exact Or.inl ⟨issued, valid, same, trigger, plain, api⟩
  · rintro (⟨issued, valid, same, _, plain, api⟩ | ⟨issued, member, same, pat, _, plain, live⟩)
    · exact ⟨issued, valid, same, plain, api⟩
    · refine ⟨issued, live.valid member ?_, same, plain, ?_⟩
      all_goals rw [pat]; decide

/-- The doors are kept apart as long as no live token of a user's own making has an app scope. -/
theorem doors_iff (service : TokenService) (reachable : service.Reachable) :
    Doors service ↔ ∀ issued ∈ service.issued, issued.mint.IsPat → issued.Live service →
      ¬ issued.mint.AppScoped := by
  have sound := reachable.sound
  constructor
  · intro doors issued member pat live apps
    have stored : issued.mint.tokenType ≠ .ephemeral := by rw [pat]; decide
    have valid := live.valid member stored
    have own (other : Issued) (member' : other ∈ service.issued) (same : other.jwt = issued.jwt) :
        other.mint.IsPat := by
      rwa [List.inj_on_of_nodup_map sound.texts member' member same]
    cases apps with
    | inl gate =>
        obtain ⟨other, member', same, gate'⟩ := doors.gate issued.jwt
          ((validateScoped_accepts sound _ _).mpr ⟨issued, valid, rfl, gate⟩)
        have pat' := own other member' same
        rw [gate'] at pat'
        exact absurd pat' (by decide)
    | inr session =>
        obtain ⟨other, member', same, session'⟩ := doors.session issued.jwt
          ((validateScoped_accepts sound _ _).mpr ⟨issued, valid, rfl, session⟩)
        have pat' := own other member' same
        rw [session'] at pat'
        exact absurd pat' (by decide)
  · intro plain
    constructor
    · intro token accepted
      obtain ⟨issued, valid, same, trigger, apps, api⟩ := (validate_accepts sound token).mp accepted
      exact ⟨issued, valid.1, same, api, trigger, apps⟩
    · intro token
      rw [validateRefresh_accepts sound]
      constructor
      · rintro ⟨issued, valid, same, refresh⟩
        exact ⟨issued, valid.1, same, refresh, valid.live (by rw [refresh]; decide)⟩
      · rintro ⟨issued, member, same, refresh, live⟩
        exact ⟨issued, live.valid member (by rw [refresh]; decide), same, refresh⟩
    · intro token accepted
      obtain ⟨issued, valid, same, gate⟩ := (validateScoped_accepts sound _ _).mp accepted
      obtain ⟨minted, _⟩ | ⟨_, other⟩ | ⟨pat, live⟩ := scoped_mint valid gate
      · exact ⟨issued, valid.1, same, minted⟩
      · exact absurd other (by decide)
      · exact absurd (Or.inl gate) (plain issued valid.1 pat live)
    · intro token accepted
      obtain ⟨issued, valid, same, session⟩ := (validateScoped_accepts sound _ _).mp accepted
      obtain ⟨_, other⟩ | ⟨minted, _⟩ | ⟨pat, live⟩ := scoped_mint valid session
      · exact absurd other (by decide)
      · exact ⟨issued, valid.1, same, minted⟩
      · exact absurd (Or.inr session) (plain issued valid.1 pat live)
    · exact trigger_accepts sound
    · intro issued gone stored later steps
      obtain ⟨now, earlier⟩ := reachable
      exact Refused.of_gone (TokenService.Reachable.sound ⟨now, earlier.trans steps⟩)
        (gone.steps steps) stored

section Scoped

def owner : User := ⟨"u".toList, "ada".toList, "ada@example.com".toList, [], false⟩

def shortLived : TokenConfig := ⟨900, 604800⟩

def withPat (scopes : List Text) : TokenService :=
  TokenService.createToken ⟨0, [], []⟩ shortLived owner
    (.pat ⟨"script".toList, none, some scopes, none⟩) "t".toList "signed".toList

theorem withPat_reachable (scopes : List Text) : (withPat scopes).Reachable :=
  ⟨0, ReflTransGen.single (.mint _ _ _ _ _ _ (by simp))⟩

theorem doors_iff_trigger : Doors (withPat [agentTriggerScope]) := by
  apply (doors_iff _ (withPat_reachable _)).mpr
  intro issued member _ _
  obtain rfl := List.mem_singleton.mp member
  unfold Mint.AppScoped
  decide

theorem session_of_pat : ¬ ∀ service : TokenService, service.Reachable → Doors service := by
  intro every
  have accepted : Accepted ((withPat [appSessionScope]).validateAppSession "signed".toList) :=
    ⟨_, rfl⟩
  obtain ⟨issued, member, _, session⟩ :=
    (every _ (withPat_reachable [appSessionScope])).session _ accepted
  obtain rfl := List.mem_singleton.mp member
  simp at session

end Scoped

end Doors

end Frona.Auth
