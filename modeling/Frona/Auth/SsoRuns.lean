import Mathlib.Data.List.Nodup
import Frona.Auth.Sso
import Frona.Machine.Lists

set_option autoImplicit false

namespace Frona.Sso

open Utf8 (Text)
open Frona.Text (trim)
open OAuthService (emails)

variable {lowercase : Text → Text}

section Properties

/-- One link at most for a subject of an issuer. -/
structure Distinct (store : Store) : Prop where
  ids : (store.identities.map OAuthIdentity.id).Nodup
  pairs : ∀ first ∈ store.identities, ∀ second ∈ store.identities, first.issuer ≠ none →
    first.issuer = second.issuer → first.externalSub = second.externalSub → first = second

def Pointed (entry : Entry) (user : User) : Prop :=
  user ∈ entry.before.users ∧ ∃ identity ∈ entry.before.identities,
    identity.externalSub = entry.login.subject ∧ identity.userId = user.id ∧
    (identity.issuer = some entry.login.issuer ∨ identity.issuer = none)

variable (lowercase) in
def Matched (entry : Entry) (user : User) : Prop :=
  user ∈ entry.before.users ∧
    (∃ email ∈ emails entry.login entry.userinfo, email.verified = true ∧
      lowercase user.email = lowercase (trim email.address)) ∧
    ∀ identity ∈ entry.before.identities, identity.userId = user.id →
      identity.issuer = none ∨ identity.issuer = some entry.login.issuer →
      identity.externalSub = entry.login.subject

def Verified (login : ExternalLogin) (userinfo : Option ExternalUserinfo) (address : Text) : Prop :=
  ∃ email ∈ emails login userinfo, email.address = address ∧ email.verified = true

structure Vouched (login : ExternalLogin) (userinfo : Option ExternalUserinfo)
    (before after : Store) : Prop where
  links : ∀ row ∈ after.identities, row.id ∉ before.identities.map OAuthIdentity.id →
    ∀ address, row.externalEmail = some address → Verified login userinfo address
  accounts : ∀ user ∈ after.users, user ∉ before.users →
    Verified login userinfo user.email ∨
      (emails login userinfo = [] ∧ user.email = OAuthService.placeholder login)

variable (lowercase) in
structure Safe (world : World) : Prop where
  owned : ∀ entry ∈ world.log, ∀ user, entry.result = .ok (user, false) →
    Pointed entry user ∨ Matched lowercase entry user
  -- what is called new is not an account that was there
  fresh : ∀ entry ∈ world.log, ∀ user, entry.result = .ok (user, true) →
    ∀ old ∈ entry.before.users, old.id ≠ user.id
  single : Distinct world.store
  vouched : ∀ entry ∈ world.log, entry.service.allowUnknownEmailVerification = false →
    Vouched entry.login entry.userinfo entry.before entry.after

end Properties

section Identities

variable {store : Store}

theorem findIdentity_eq_some {issuer subject : Text} {identity : OAuthIdentity}
    (found : store.findIdentity issuer subject = some identity) :
    identity ∈ store.identities ∧ identity.externalSub = subject ∧
      (identity.issuer = some issuer ∨ (identity.issuer = none ∧
        ∀ row ∈ store.identities, row.externalSub = subject → row.issuer ≠ some issuer)) := by
  unfold Store.findIdentity at found
  cases exact : store.identities.find? (fun identity =>
      identity.externalSub = subject ∧ identity.issuer = some issuer) with
  | some row =>
      rw [exact, Option.some_or] at found
      obtain rfl := Option.some.inj found
      have same := List.find?_some exact
      simp only [decide_eq_true_eq] at same
      exact ⟨List.mem_of_find?_eq_some exact, same.1, Or.inl same.2⟩
  | none =>
      rw [exact, Option.none_or] at found
      have same := List.find?_some found
      simp only [decide_eq_true_eq] at same
      refine ⟨List.mem_of_find?_eq_some found, same.1, Or.inr ⟨same.2, ?_⟩⟩
      intro row member subjects issuers
      simpa [subjects, issuers] using List.find?_eq_none.mp exact row member

theorem Distinct.filter (distinct : Distinct store) (keep : OAuthIdentity → Bool) :
    Distinct { store with identities := store.identities.filter keep } where
  ids := distinct.ids.sublist (List.filter_sublist.map OAuthIdentity.id)
  pairs first left second right :=
    distinct.pairs first (List.mem_filter.mp left).1 second (List.mem_filter.mp right).1

theorem Distinct.create (distinct : Distinct store) {identity : OAuthIdentity} {created : Store}
    (made : store.createIdentity identity = some created) : Distinct created := by
  unfold Store.createIdentity at made
  split at made
  next => cases made
  next free =>
    obtain rfl := Option.some.inj made
    simp only [List.any_eq_true, decide_eq_true_eq, not_exists, not_and, not_or] at free
    constructor
    next =>
      simp only [List.map_append, List.map_cons, List.map_nil]
      refine Machine.nodup_snoc.mpr ⟨distinct.ids, fun listed => ?_⟩
      obtain ⟨row, member, same⟩ := List.mem_map.mp listed
      exact (free row member).1 same
    next =>
      intro first left second right known issuers subjects
      obtain old | new := List.mem_append.mp left <;> obtain old' | new' := List.mem_append.mp right
      · exact distinct.pairs first old second old' known issuers subjects
      · obtain rfl := List.mem_singleton.mp new'
        exact absurd subjects ((free first old).2 known issuers)
      · obtain rfl := List.mem_singleton.mp new
        exact absurd subjects.symm ((free second old').2 (issuers ▸ known) issuers.symm)
      · exact (List.mem_singleton.mp new).trans (List.mem_singleton.mp new').symm

theorem Distinct.adopt (distinct : Distinct store) {identity : OAuthIdentity} {issuer : Text}
    (member : identity ∈ store.identities)
    (free : ∀ row ∈ store.identities, row.externalSub = identity.externalSub →
      row.issuer ≠ some issuer) :
    Distinct (store.updateIdentity { identity with issuer := some issuer }) := by
  have same (row : OAuthIdentity) (listed : row ∈ store.identities) (id : row.id = identity.id) :
      row = identity := List.inj_on_of_nodup_map distinct.ids listed member id
  constructor
  next =>
    have ids : (store.updateIdentity { identity with issuer := some issuer }).identities.map
        OAuthIdentity.id = store.identities.map OAuthIdentity.id := by
      simp only [Store.updateIdentity, List.map_map]
      refine List.map_congr_left fun row _ => ?_
      by_cases here : row.id = identity.id <;> simp [here]
    rw [ids]
    exact distinct.ids
  next =>
    intro first left second right known issuers subjects
    obtain ⟨row, listed, rfl⟩ := List.mem_map.mp left
    obtain ⟨row', listed', rfl⟩ := List.mem_map.mp right
    by_cases here : row.id = identity.id <;> by_cases there : row'.id = identity.id
    · simp [here, there]
    · simp only [here, there, ↓reduceIte] at issuers subjects
      exact absurd issuers.symm (free row' listed' subjects.symm)
    · simp only [here, there, ↓reduceIte] at issuers subjects
      exact absurd issuers (free row listed subjects)
    · simp only [here, there, ↓reduceIte] at known issuers subjects ⊢
      exact distinct.pairs row listed row' listed' known issuers subjects

end Identities

section Known

variable {store : Store} {login : ExternalLogin}

theorem findById_mem {id : Text} {user : User} (found : store.findById id = some user) :
    user ∈ store.users ∧ user.id = id :=
  ⟨List.mem_of_find?_eq_some found, by simpa using List.find?_some found⟩

theorem knownUser_distinct (distinct : Distinct store) (login : ExternalLogin) :
    Distinct (OAuthService.knownUser store login).1 := by
  unfold OAuthService.knownUser
  cases found : store.findIdentity login.issuer login.subject with
  | none => exact distinct
  | some identity =>
      obtain ⟨member, subject, issuer⟩ := findIdentity_eq_some found
      simp only
      split
      next => exact distinct.filter _
      next =>
        split
        next => exact distinct
        next =>
          split
          next old =>
            obtain known | ⟨_, free⟩ := issuer
            · rw [old] at known
              cases known
            · exact distinct.adopt member (subject ▸ free)
          next => exact distinct

theorem knownUser_users : (OAuthService.knownUser store login).1.users = store.users := by
  unfold OAuthService.knownUser
  split
  next => rfl
  next =>
    split
    next => rfl
    next => split <;> (try split) <;> rfl

theorem knownUser_ids (row : OAuthIdentity)
    (member : row ∈ (OAuthService.knownUser store login).1.identities) :
    row.id ∈ store.identities.map OAuthIdentity.id := by
  unfold OAuthService.knownUser at member
  have kept (listed : row ∈ store.identities) : row.id ∈ store.identities.map OAuthIdentity.id :=
    List.mem_map_of_mem listed
  split at member
  next => exact kept member
  next identity found =>
    split at member
    next => exact kept (List.mem_filter.mp member).1
    next =>
      split at member
      next => exact kept member
      next =>
        split at member
        next =>
          obtain ⟨old, listed, rfl⟩ := List.mem_map.mp member
          by_cases here : old.id = identity.id
          · simp only [here, ↓reduceIte]
            exact List.mem_map_of_mem (findIdentity_eq_some found).1
          · simp only [here, ↓reduceIte]
            exact List.mem_map_of_mem listed
        next => exact kept member

theorem knownUser_ok {user : User} (known : (OAuthService.knownUser store login).2 =
    .ok (some user)) : user ∈ store.users ∧ ∃ identity ∈ store.identities,
      identity.externalSub = login.subject ∧ identity.userId = user.id ∧
      (identity.issuer = some login.issuer ∨ identity.issuer = none) := by
  unfold OAuthService.knownUser at known
  split at known
  next => simp at known
  next identity found =>
    obtain ⟨member, subject, issuer⟩ := findIdentity_eq_some found
    split at known
    next => simp at known
    next found' =>
      have same : ∃ holder, store.findById identity.userId = some holder ∧ holder = user := by
        refine ⟨_, found', ?_⟩
        split at known
        next => simp at known
        next => split at known <;> simpa using known
      obtain ⟨holder, held, rfl⟩ := same
      obtain ⟨listed, owner⟩ := findById_mem held
      exact ⟨listed, identity, member, subject, owner.symm, issuer.imp_right And.left⟩

end Known

section SignUp

variable {service : OAuthService} {store : Store} {login : ExternalLogin}
  {userinfo : Option ExternalUserinfo} {userId identityId : Text}

theorem findByEmail_mem {email : Text} {user : User}
    (found : store.findByEmail lowercase email = some user) :
    user ∈ store.users ∧ lowercase user.email = lowercase (trim email) :=
  ⟨List.mem_of_find?_eq_some found, by simpa using List.find?_some found⟩

theorem matched_eq_some {user : User}
    (matched : service.matched lowercase store login userinfo = some user) :
    user ∈ store.users ∧ ∃ email ∈ emails login userinfo, email.verified = true ∧
      lowercase user.email = lowercase (trim email.address) := by
  unfold OAuthService.matched at matched
  split at matched
  next =>
    obtain ⟨email, listed, found⟩ := List.exists_of_findSome?_eq_some matched
    obtain ⟨member, verified⟩ := List.mem_filter.mp listed
    obtain ⟨account, same⟩ := findByEmail_mem found
    exact ⟨account, email, member, verified, same⟩
  next => cases matched

theorem createIdentity_eq_some {identity : OAuthIdentity} {created : Store}
    (made : store.createIdentity identity = some created) :
    created = { store with identities := store.identities ++ [identity] } := by
  unfold Store.createIdentity at made
  split at made
  next => cases made
  next => exact (Option.some.inj made).symm

theorem createUser_eq_some {user : User} {created : Store}
    (made : store.createUser user = some created) :
    created = { store with users := store.users ++ [user] } ∧
      ∀ old ∈ store.users, old.id ≠ user.id := by
  unfold Store.createUser at made
  split at made
  next => cases made
  next free =>
    simp only [List.any_eq_true, decide_eq_true_eq, not_exists, not_and, not_or] at free
    exact ⟨(Option.some.inj made).symm, fun old member => (free old member).1⟩

theorem newUser_eq_some {user : User}
    (made : OAuthService.newUser lowercase store login userinfo userId = some user) :
    user.id = userId ∧ user.email = ((emails login userinfo).head?.map
      ProviderEmail.address).getD (OAuthService.placeholder login) := by
  obtain ⟨handle, _, rfl⟩ := Option.map_eq_some_iff.mp made
  exact ⟨rfl, rfl⟩

theorem link_linked {user found : User} {isNew : Bool}
    (linked : (OAuthService.link store login userinfo found identityId).2 = .ok (user, isNew)) :
    isNew = false ∧ user = found ∧ OAuthService.alreadyBound store login found = false := by
  unfold OAuthService.link at linked
  split at linked
  next => simp at linked
  next =>
    split at linked
    next => simp at linked
    next free =>
      split at linked
      next => simp at linked
      next => simp_all

theorem create_created {user : User} {isNew : Bool}
    (created : (OAuthService.create lowercase store login userinfo userId identityId).2 =
      .ok (user, isNew)) :
    isNew = true ∧ ∀ old ∈ store.users, old.id ≠ user.id := by
  unfold OAuthService.create at created
  split at created
  next => simp at created
  next =>
    split at created
    next => simp at created
    next =>
      split at created
      next => simp at created
      next made =>
        split at created
        next => simp at created
        next =>
          simp only [Except.ok.injEq, Prod.mk.injEq] at created
          obtain ⟨rfl, rfl⟩ := created
          exact ⟨rfl, (createUser_eq_some made).2⟩

theorem signUp_linked {user : User}
    (linked : (service.signUp lowercase store login userinfo userId identityId).2 =
      .ok (user, false)) :
    service.matched lowercase store login userinfo = some user ∧
      OAuthService.alreadyBound store login user = false := by
  unfold OAuthService.signUp at linked
  cases matched : service.matched lowercase store login userinfo with
  | some found =>
      simp only [matched] at linked
      obtain ⟨_, rfl, free⟩ := link_linked linked
      exact ⟨rfl, free⟩
  | none =>
      simp only [matched] at linked
      exact absurd (create_created linked).1 (by simp)

theorem signUp_created {user : User}
    (created : (service.signUp lowercase store login userinfo userId identityId).2 =
      .ok (user, true)) : ∀ old ∈ store.users, old.id ≠ user.id := by
  unfold OAuthService.signUp at created
  cases matched : service.matched lowercase store login userinfo with
  | some found =>
      simp only [matched] at created
      exact absurd (link_linked created).1 (by simp)
  | none =>
      simp only [matched] at created
      exact (create_created created).2

theorem alreadyBound_false {user : User}
    (free : OAuthService.alreadyBound store login user = false) :
    ∀ identity ∈ store.identities, identity.userId = user.id →
      identity.issuer = none ∨ identity.issuer = some login.issuer →
      identity.externalSub = login.subject := by
  intro identity member owner issuer
  by_contra other
  simp only [OAuthService.alreadyBound, List.any_eq_false, decide_eq_true_eq] at free
  exact free identity member ⟨owner, other, issuer⟩

theorem link_distinct (distinct : Distinct store) (user : User) :
    Distinct (OAuthService.link store login userinfo user identityId).1 := by
  unfold OAuthService.link
  split
  next => exact distinct
  next =>
    split
    next => exact distinct
    next =>
      split
      next => exact distinct
      next made =>
        have linked := distinct.create made
        exact ⟨linked.ids, linked.pairs⟩

theorem create_distinct (distinct : Distinct store) :
    Distinct (OAuthService.create lowercase store login userinfo userId identityId).1 := by
  unfold OAuthService.create
  split
  next => exact distinct
  next =>
    split
    next => exact distinct
    next =>
      split
      next => exact distinct
      next created made =>
        have users : Distinct created := by
          rw [(createUser_eq_some made).1]
          exact ⟨distinct.ids, distinct.pairs⟩
        split
        next => exact users
        next made' => exact users.create made'

theorem signUp_distinct (distinct : Distinct store) :
    Distinct (service.signUp lowercase store login userinfo userId identityId).1 := by
  unfold OAuthService.signUp
  split
  next user _ => exact link_distinct distinct user
  next => exact create_distinct distinct

def FirstVerified (login : ExternalLogin) (userinfo : Option ExternalUserinfo) : Prop :=
  ∀ address, (emails login userinfo).head?.map ProviderEmail.address = some address →
    Verified login userinfo address

theorem firstVerified_of_claim {email : ProviderEmail} (given : login.email = some email)
    (verified : email.verified = true) : FirstVerified login userinfo := by
  intro address first
  have head : (emails login userinfo).head? = some email := by simp [emails, given]
  rw [head] at first
  exact ⟨email, by simp [emails, given], Option.some.inj first, verified⟩

theorem firstVerified_of_only (absent : login.email = none)
    (verified : ∀ email, userinfo.bind ExternalUserinfo.email = some email →
      email.verified = true) : FirstVerified login userinfo := by
  intro address first
  cases given : userinfo.bind ExternalUserinfo.email with
  | none => simp [emails, absent, given] at first
  | some email =>
      have all : emails login userinfo = [email] := by simp [emails, absent, given]
      rw [all] at first
      exact ⟨email, by simp [all], Option.some.inj first, verified email given⟩

theorem firstVerified_of_matched (absent : login.email = none)
    (matched : service.matched lowercase store login userinfo ≠ none) :
    FirstVerified login userinfo := by
  obtain ⟨user, found⟩ := Option.ne_none_iff_exists'.mp matched
  obtain ⟨_, email, member, verified, _⟩ := matched_eq_some found
  refine firstVerified_of_only absent fun only given => ?_
  have all : emails login userinfo = [only] := by simp [emails, absent, given]
  rw [all] at member
  obtain rfl := List.mem_singleton.mp member
  exact verified

theorem vouched_refl (store' : Store) (users : store'.users = store.users)
    (ids : ∀ row ∈ store'.identities, row.id ∈ store.identities.map OAuthIdentity.id) :
    Vouched login userinfo store store' where
  links row member new := absurd (ids row member) new
  accounts _ member new := absurd (users ▸ member) new

theorem link_vouched {user : User} (first : FirstVerified login userinfo) :
    Vouched login userinfo store (OAuthService.link store login userinfo user identityId).1 := by
  have same : Vouched login userinfo store store :=
    vouched_refl store rfl fun row member => List.mem_map_of_mem member
  unfold OAuthService.link
  split
  next => exact same
  next =>
    split
    next => exact same
    next =>
      split
      next => exact same
      next made =>
        rw [createIdentity_eq_some made]
        refine ⟨?_, fun _ member new => absurd member new⟩
        intro row member new address address'
        obtain old | made := List.mem_append.mp member
        · exact absurd (List.mem_map_of_mem old) new
        · obtain rfl := List.mem_singleton.mp made
          exact first address address'

theorem create_vouched
    (first : ((emails login userinfo).any fun email =>
      (store.findByEmail lowercase email.address).isSome) = false →
        FirstVerified login userinfo) :
    Vouched login userinfo store
      (OAuthService.create lowercase store login userinfo userId identityId).1 := by
  have same : Vouched login userinfo store store :=
    vouched_refl store rfl fun row member => List.mem_map_of_mem member
  unfold OAuthService.create
  split
  next => exact same
  next free =>
    have verified := first (by simpa using free)
    split
    next => exact same
    next _ new =>
      split
      next => exact same
      next created made =>
        have account (other : User) (member : other ∈ created.users)
            (absent : other ∉ store.users) : Verified login userinfo other.email ∨
              (emails login userinfo = [] ∧ other.email = OAuthService.placeholder login) := by
          rw [(createUser_eq_some made).1] at member
          obtain old | added := List.mem_append.mp member
          · exact absurd old absent
          · obtain rfl := List.mem_singleton.mp added
            rw [(newUser_eq_some new).2]
            cases given : emails login userinfo with
            | nil => exact Or.inr ⟨rfl, rfl⟩
            | cons email rest => exact Or.inl (verified _ (by simp [given]))
        have rows : created.identities = store.identities := by rw [(createUser_eq_some made).1]
        split
        next =>
          refine ⟨?_, account⟩
          intro row member absent
          rw [rows] at member
          exact absurd (List.mem_map_of_mem member) absent
        next made' =>
          rw [createIdentity_eq_some made']
          refine ⟨?_, account⟩
          intro row member absent address address'
          obtain old | added := List.mem_append.mp member
          · rw [rows] at old
            exact absurd (List.mem_map_of_mem old) absent
          · obtain rfl := List.mem_singleton.mp added
            exact verified address address'

theorem signUp_vouched
    (linked : service.matched lowercase store login userinfo ≠ none →
      FirstVerified login userinfo)
    (created : service.matched lowercase store login userinfo = none →
      ((emails login userinfo).any fun email =>
        (store.findByEmail lowercase email.address).isSome) = false →
      FirstVerified login userinfo) :
    Vouched login userinfo store
      (service.signUp lowercase store login userinfo userId identityId).1 := by
  unfold OAuthService.signUp
  cases matched : service.matched lowercase store login userinfo with
  | some user => exact link_vouched (linked (by simp [matched]))
  | none => exact create_vouched (created matched)

end SignUp

section Runs

variable {world next : World}

/-- What a login got belongs to it. -/
structure Entry.Sound (lowercase : Text → Text) (entry : Entry) : Prop where
  owned : ∀ user, entry.result = .ok (user, false) →
    Pointed entry user ∨ Matched lowercase entry user
  fresh : ∀ user, entry.result = .ok (user, true) → ∀ old ∈ entry.before.users, old.id ≠ user.id
  vouched : entry.service.allowUnknownEmailVerification = false →
    Vouched entry.login entry.userinfo entry.before entry.after

variable (lowercase) in
structure Sound (world : World) : Prop where
  distinct : Distinct world.store
  -- what waits has passed the check of the address
  waiting : ∀ login ∈ world.waiting, world.service.checkEmailClaim login = none
  log : ∀ entry ∈ world.log, entry.Sound lowercase

variable (lowercase) in
/-- No sign-up in strict mode whose only address, the endpoint's, is neither verified nor taken. -/
def Allowed (event : Event) (world : World) : Prop :=
  match event with
  | .finish index (some userinfo) _ _ =>
      world.service.allowUnknownEmailVerification = false → world.service.signupsMatchEmail = true →
        ∀ login, world.waiting[index]? = some login → login.email = none →
          ∀ email, userinfo.email = some email →
            email.verified = true ∨
              (world.store.findByEmail lowercase email.address).isSome = true
  | _ => True

theorem Entry.refused (service : OAuthService) (login : ExternalLogin)
    (userinfo : Option ExternalUserinfo) (store : Store) (error : AppError) :
    Entry.Sound lowercase ⟨service, login, userinfo, store, store, .error error⟩ where
  owned _ ok := by simp at ok
  fresh _ ok := by simp at ok
  vouched _ := vouched_refl store rfl fun _ member => List.mem_map_of_mem member

theorem Sound.logged (sound : Sound lowercase world) {entry : Entry}
    (new : entry.Sound lowercase) : ∀ other ∈ world.log ++ [entry], other.Sound lowercase := by
  intro other member
  obtain old | added := List.mem_append.mp member
  · exact sound.log other old
  · obtain rfl := List.mem_singleton.mp added
    exact new

theorem Sound.callback (sound : Sound lowercase world) (login : ExternalLogin) :
    Sound lowercase (world.callback login) := by
  have distinct := knownUser_distinct sound.distinct login
  have before : Vouched login none world.store (OAuthService.knownUser world.store login).1 :=
    vouched_refl _ knownUser_users knownUser_ids
  unfold World.callback
  cases claim : world.service.checkEmailClaim login with
  | some error =>
      exact ⟨sound.distinct, sound.waiting, sound.logged (Entry.refused ..)⟩
  | none =>
      cases known : OAuthService.knownUser world.store login with
      | mk store result =>
          rw [known] at distinct before
          cases result with
          | error error =>
              refine ⟨distinct, sound.waiting, sound.logged ⟨?_, ?_, fun _ => before⟩⟩
              next => simp
              next => simp
          | ok found =>
              cases found with
              | none =>
                  refine ⟨distinct, ?_, sound.log⟩
                  intro other member
                  obtain old | added := List.mem_append.mp member
                  · exact sound.waiting other old
                  · obtain rfl := List.mem_singleton.mp added
                    exact claim
              | some user =>
                  refine ⟨distinct, sound.waiting, sound.logged ⟨?_, ?_, fun _ => before⟩⟩
                  next =>
                    intro user' same
                    obtain rfl : user = user' := by simpa using same
                    exact Or.inl (knownUser_ok (by rw [known]))
                  next => simp

theorem Sound.finish (sound : Sound lowercase world) {index : Nat} {login : ExternalLogin}
    (waits : world.waiting[index]? = some login) {userinfo : Option ExternalUserinfo}
    {userId identityId : Text}
    (allowed : Allowed lowercase (.finish index userinfo userId identityId) world) :
    Sound lowercase (world.finish lowercase index login userinfo userId identityId) := by
  have claim := sound.waiting login (List.mem_of_getElem? waits)
  refine ⟨signUp_distinct sound.distinct, ?_, sound.logged ⟨?_, ?_, ?_⟩⟩
  next =>
    intro other member
    exact sound.waiting other (List.mem_of_mem_eraseIdx member)
  next =>
    intro user linked
    obtain ⟨matched, free⟩ := signUp_linked linked
    obtain ⟨member, verified⟩ := matched_eq_some matched
    exact Or.inr ⟨member, verified, alreadyBound_false free⟩
  next =>
    intro user created
    exact signUp_created created
  next =>
    intro strict
    cases given : login.email with
    | some email =>
        have verified : email.verified = true := by
          have passed : email.verified = false →
              world.service.allowUnknownEmailVerification = true := by
            simpa [OAuthService.checkEmailClaim, given] using claim
          by_contra unverified
          rw [passed (by simpa using unverified)] at strict
          cases strict
        exact signUp_vouched (fun _ => firstVerified_of_claim given verified)
          fun _ _ => firstVerified_of_claim given verified
    | none =>
        refine signUp_vouched (firstVerified_of_matched given) fun _ free => ?_
        refine firstVerified_of_only given fun email only => ?_
        have asked : world.service.signupsMatchEmail = true ∧
            userinfo.bind ExternalUserinfo.email = some email := by
          cases matches' : world.service.signupsMatchEmail with
          | true => exact ⟨rfl, by simpa [OAuthService.needsUserinfo, given, matches'] using only⟩
          | false => simp [OAuthService.needsUserinfo, matches'] at only
        obtain ⟨info, rfl, address⟩ := Option.bind_eq_some_iff.mp asked.2
        obtain verified | taken := allowed strict asked.1 login waits given email address
        · exact verified
        · have listed : email ∈ emails login (some info) := by simp [emails, given, address]
          have used : (if world.service.needsUserinfo login then some info else none) =
              some info := by simp [OAuthService.needsUserinfo, given, asked.1]
          rw [used, List.any_eq_false] at free
          exact absurd taken (free email listed)

theorem Sound.step (sound : Sound lowercase world) (event : Event)
    (allowed : Allowed lowercase event world) (taken : step lowercase event world = some next) :
    Sound lowercase next := by
  cases event with
  | callback login =>
      obtain rfl := Option.some.inj taken
      exact sound.callback login
  | finish index userinfo userId identityId =>
      obtain ⟨login, waits, rfl⟩ := Option.map_eq_some_iff.mp taken
      exact sound.finish waits allowed
  | restart service =>
      obtain rfl := Option.some.inj taken
      exact ⟨sound.distinct, by simp, sound.log⟩
  | accounts users tokens =>
      obtain rfl := Option.some.inj taken
      exact ⟨⟨sound.distinct.ids, sound.distinct.pairs⟩, sound.waiting, sound.log⟩
  | removeIdentities userId =>
      obtain rfl := Option.some.inj taken
      have kept := sound.distinct.filter fun identity => identity.userId ≠ userId
      exact ⟨⟨kept.ids, kept.pairs⟩, sound.waiting, sound.log⟩

theorem Sound.safe (sound : Sound lowercase world) : Safe lowercase world where
  owned entry member := (sound.log entry member).owned
  fresh entry member := (sound.log entry member).fresh
  single := sound.distinct
  vouched entry member := (sound.log entry member).vouched

/-- Whatever logins arrive, none gets an account that is not its own, no subject has two links, and
in strict mode nothing is made under an address that is not verified, as long as the endpoint gives
none to a login without one. -/
theorem sso_safe (lowercase : Text → Text) (service : OAuthService) (store : Store)
    (distinct : Distinct store) (events : List Event) (last : World)
    (guarded : Machine.Guarded (step lowercase) (Allowed lowercase) events ⟨service, store, [], []⟩)
    (reached : Machine.run (step lowercase) events ⟨service, store, [], []⟩ = some last) :
    Safe lowercase last := by
  have start : Sound lowercase ⟨service, store, [], []⟩ := ⟨distinct, by simp, by simp⟩
  have sound := Machine.invariant_run (step lowercase) (Allowed lowercase) (Sound lowercase)
    (fun event _ _ sound allowed taken => sound.step event allowed taken) events _ last start
    guarded reached
  exact sound.safe

def bare : ExternalLogin := ⟨"idp".toList, "s1".toList, none, none⟩

def strictService : OAuthService := ⟨false, true⟩

def unverifiedEndpoint : List Event :=
  [.callback bare, .finish 0 (some ⟨some ⟨"ann@a.org".toList, false⟩, none⟩) ['u'] ['i']]

theorem endpoint_address_unverified : ∃ last,
    Machine.run (step (List.map Char.toLower)) unverifiedEndpoint
      ⟨strictService, ⟨[], [], []⟩, [], []⟩ = some last ∧
    (∃ user ∈ last.store.users, user.email = "ann@a.org".toList) ∧
    ¬ Safe (List.map Char.toLower) last := by
  refine ⟨_, rfl, ?_, ?_⟩
  next => exact ⟨⟨['u'], ⟨"ann".toList, by decide⟩, "ann@a.org".toList, "ann".toList, false⟩,
    by decide, rfl⟩
  next =>
    intro safe
    have vouched := safe.vouched _ (List.mem_singleton.mpr rfl) rfl
    obtain ⟨email, listed, _, verified⟩ := vouched.links
      ⟨['i'], ['u'], some "idp".toList, "s1".toList, some "ann@a.org".toList, none⟩
      (by decide) (by decide) "ann@a.org".toList rfl
    have only : email ∈ [(⟨"ann@a.org".toList, false⟩ : ProviderEmail)] := listed
    obtain rfl := List.mem_singleton.mp only
    cases verified

def linkedOnce : List Event :=
  [.callback ⟨"idp".toList, "s1".toList, none, some ⟨"Ann@a.org".toList, true⟩⟩,
    .finish 0 none ['u'] ['i'], .callback bare]

def ann : User := ⟨['a'], ⟨"ann".toList, by decide⟩, "ann@a.org".toList, "Ann".toList, false⟩

theorem sso_safe_ann : ∃ last,
    Machine.run (step (List.map Char.toLower)) linkedOnce
      ⟨strictService, ⟨[ann], [], []⟩, [], []⟩ = some last ∧
    last.store.identities.map OAuthIdentity.userId = [['a']] ∧
    Safe (List.map Char.toLower) last := by
  refine ⟨_, rfl, rfl, ?_⟩
  refine sso_safe (List.map Char.toLower) strictService ⟨[ann], [], []⟩ ⟨by simp, by simp⟩
    linkedOnce _ ?_ rfl
  exact And.intro trivial (And.intro trivial (And.intro trivial trivial))

end Runs

end Frona.Sso
