import Frona.Credential.KeyRotation

set_option autoImplicit false

namespace Frona.Credential

open Utf8 (Text)

variable {Key : Type}

section Held

def Held (records : RecordTable → Records Key) (table : RecordTable) (id : Text)
    (blob : Sealed Key) : Prop :=
  AList.lookup id (records table) = some (some blob)

theorem held_set (records : RecordTable → Records Key) (table : RecordTable) (id : Text)
    (blob : Sealed Key) (other : RecordTable) (otherId : Text) (content : Sealed Key)
    (held : Held (setRecord records table id blob) other otherId content) :
    (other = table ∧ otherId = id ∧ content = blob) ∨
      (¬ (other = table ∧ otherId = id) ∧ Held records other otherId content) := by
  unfold Held setRecord at held
  by_cases here : other = table
  · subst here
    rw [Function.update_self] at held
    by_cases same : otherId = id
    · subst same
      rw [AList.lookup_insert] at held
      exact Or.inl ⟨rfl, rfl, (Option.some.inj (Option.some.inj held)).symm⟩
    · rw [AList.lookup_insert_ne same] at held
      exact Or.inr ⟨fun both => same both.2, held⟩
  · rw [Function.update_of_ne here] at held
    exact Or.inr ⟨fun both => here both.1, held⟩

theorem held_erase (records : RecordTable → Records Key) (table : RecordTable) (id : Text)
    (other : RecordTable) (otherId : Text) (content : Sealed Key)
    (held : Held (eraseRecord records table id) other otherId content) :
    Held records other otherId content := by
  unfold Held eraseRecord at held
  by_cases here : other = table
  · subst here
    rw [Function.update_self] at held
    by_cases same : otherId = id
    · subst same
      rw [AList.lookup_erase] at held
      simp at held
    · rwa [AList.lookup_erase_ne same] at held
  · rwa [Function.update_of_ne here] at held

theorem mem_selectRows (table : RecordTable) (records : Records Key) (id : Text)
    (blob : Sealed Key) (held : AList.lookup id records = some (some blob)) :
    (id, some blob) ∈ selectRows table records := by
  simp only [selectRows, List.mem_filter, List.mem_map]
  refine ⟨⟨_, AList.mem_lookup_iff.mp held, rfl⟩, ?_⟩
  cases table <;> rfl

theorem selectRows_lookup (table : RecordTable) (records : Records Key)
    (row : Text × Option (Sealed Key)) (member : row ∈ selectRows table records) :
    AList.lookup row.1 records = some row.2 := by
  simp only [selectRows, List.mem_filter, List.mem_map] at member
  obtain ⟨⟨entry, listed, rfl⟩, _⟩ := member
  exact AList.mem_lookup_iff.mpr listed

theorem selectRows_nodup (table : RecordTable) (records : Records Key) :
    ((selectRows table records).map Prod.fst).Nodup := by
  have keys : (records.entries.map fun entry => (entry.1, entry.2)).map Prod.fst =
      records.entries.map Sigma.fst := by
    rw [List.map_map]
    rfl
  apply List.Nodup.sublist (List.filter_sublist.map Prod.fst)
  rw [keys]
  exact records.nodupKeys

end Held

section Progress

def Under (records : RecordTable → Records Key) (key : Key) : Prop :=
  ∀ table id blob, Held records table id blob → blob.key = key

theorem Under.set {records : RecordTable → Records Key} {key : Key} (under : Under records key)
    (table : RecordTable) (id : Text) (blob : Sealed Key) (same : blob.key = key) :
    Under (setRecord records table id blob) key := by
  intro other otherId content held
  obtain ⟨_, _, rfl⟩ | ⟨_, old⟩ := held_set records table id blob other otherId content held
  · exact same
  · exact under other otherId content old

theorem allSucceeded_iff (report : RotationReport) :
    report.allSucceeded ↔ ∀ table, (report table).failed = 0 := by
  constructor
  · intro succeeded table
    exact succeeded table (by cases table <;> decide)
  · intro succeeded table _
    exact succeeded table

theorem allSucceeded_add (report : RotationReport) (table : RecordTable) (result : RowResult) :
    (report.add table result).allSucceeded ↔ report.allSucceeded ∧ result ≠ .failed := by
  simp only [allSucceeded_iff, RotationReport.add]
  constructor
  · intro succeeded
    constructor
    · intro other
      have here := succeeded other
      by_cases same : other = table
      · subst same
        rw [Function.update_self] at here
        cases result with
        | failed => simp [RotationCounts.add] at here
        | _ => exact here
      · rwa [Function.update_of_ne same] at here
    · rintro rfl
      have here := succeeded table
      simp [RotationCounts.add] at here
  · rintro ⟨succeeded, counted⟩ other
    by_cases same : other = table
    · subst same
      rw [Function.update_self]
      cases result with
      | failed => exact absurd rfl counted
      | _ => exact succeeded other
    · rw [Function.update_of_ne same]
      exact succeeded other

structure Progress (rotation : KeyRotation Key) (table : RecordTable)
    (rows : List (Text × Option (Sealed Key))) (later : List RecordTable)
    (report : RotationReport) (records : RecordTable → Records Key) : Prop where
  current : ∀ row ∈ rows, AList.lookup row.1 (records table) = some row.2
  distinct : (rows.map Prod.fst).Nodup
  keys : ∀ other id blob, Held records other id blob →
    blob.key = rotation.oldKey ∨ blob.key = rotation.newKey
  rotated : report.allSucceeded → ∀ other id blob, Held records other id blob →
    blob.key = rotation.newKey ∨ other ∈ later ∨ (other = table ∧ id ∈ rows.map Prod.fst)

variable {rotation : KeyRotation Key} {table : RecordTable} {later : List RecordTable}
  {report : RotationReport} {records : RecordTable → Records Key} {id : Text}
  {content : Option (Sealed Key)} {rest : List (Text × Option (Sealed Key))}

theorem Progress.select {selected : RecordTable} {after : List RecordTable}
    (progress : Progress rotation table [] (selected :: after) report records) :
    Progress rotation selected (selectRows selected (records selected)) after report records where
  current row member := selectRows_lookup selected (records selected) row member
  distinct := selectRows_nodup selected (records selected)
  keys := progress.keys
  rotated succeeded other otherId blob held := by
    obtain new | listed | ⟨_, none⟩ := progress.rotated succeeded other otherId blob held
    · exact Or.inl new
    · cases List.mem_cons.mp listed with
      | inl here =>
          obtain rfl := here
          exact Or.inr (Or.inr ⟨rfl, List.mem_map.mpr ⟨_, mem_selectRows _ _ _ _ held, rfl⟩⟩)
      | inr there => exact Or.inr (Or.inl there)
    · simp at none

-- A failure is in the report from then on, and nothing is promised.
theorem Progress.fail {rows : List (Text × Option (Sealed Key))} {others : List RecordTable}
    (progress : Progress rotation table rows others report records) (selected : RecordTable)
    (left : List (Text × Option (Sealed Key))) (counted : RecordTable)
    (current : ∀ row ∈ left, AList.lookup row.1 (records selected) = some row.2)
    (distinct : (left.map Prod.fst).Nodup) :
    Progress rotation selected left later (report.add counted .failed) records where
  current := current
  distinct := distinct
  keys := progress.keys
  rotated succeeded := absurd rfl ((allSucceeded_add report counted .failed).mp succeeded).2

theorem Progress.skip
    (progress : Progress rotation table ((id, content) :: rest) later report records)
    (new : ∀ blob, content = some blob → blob.key = rotation.newKey) :
    Progress rotation table rest later (report.add table .skipped) records where
  current row member := progress.current row (List.mem_cons_of_mem _ member)
  distinct := (List.nodup_cons.mp progress.distinct).2
  keys := progress.keys
  rotated succeeded other otherId blob held := by
    have before := ((allSucceeded_add report table .skipped).mp succeeded).1
    obtain done | listed | ⟨rfl, left⟩ := progress.rotated before other otherId blob held
    · exact Or.inl done
    · exact Or.inr (Or.inl listed)
    · cases List.mem_cons.mp left with
      | inl here =>
          have stored := progress.current (id, content) List.mem_cons_self
          rw [here] at held
          exact Or.inl (new blob (Option.some.inj (stored.symm.trans held)))
      | inr there => exact Or.inr (Or.inr ⟨rfl, there⟩)

theorem Progress.write
    (progress : Progress rotation table ((id, content) :: rest) later report records)
    (fresh : Sealed Key) (new : fresh.key = rotation.newKey) :
    Progress rotation table rest later (report.add table .success)
      (setRecord records table id fresh) where
  current row member := by
    have stored := progress.current row (List.mem_cons_of_mem _ member)
    have away : row.1 ≠ id := by
      rintro same
      exact (List.nodup_cons.mp progress.distinct).1 (List.mem_map.mpr ⟨row, member, same⟩)
    rwa [setRecord, Function.update_self, AList.lookup_insert_ne away]
  distinct := (List.nodup_cons.mp progress.distinct).2
  keys other otherId blob held := by
    obtain ⟨_, _, rfl⟩ | ⟨_, old⟩ := held_set records table id fresh other otherId blob held
    · exact Or.inr new
    · exact progress.keys other otherId blob old
  rotated succeeded other otherId blob held := by
    have before := ((allSucceeded_add report table .success).mp succeeded).1
    obtain ⟨_, _, rfl⟩ | ⟨away, old⟩ := held_set records table id fresh other otherId blob held
    · exact Or.inl new
    · obtain done | listed | ⟨rfl, left⟩ := progress.rotated before other otherId blob old
      · exact Or.inl done
      · exact Or.inr (Or.inl listed)
      · cases List.mem_cons.mp left with
        | inl here => exact absurd ⟨rfl, here⟩ away
        | inr there => exact Or.inr (Or.inr ⟨rfl, there⟩)

variable [DecidableEq Key]

theorem reencrypt_cases (rotation : KeyRotation Key) (blob : Sealed Key) :
    (blob.key = rotation.oldKey ∧
        rotation.reencrypt blob = .ok ⟨rotation.newKey, blob.plaintext⟩) ∨
      (blob.key = rotation.newKey ∧ rotation.reencrypt blob = .error .alreadyRotated) ∨
      rotation.reencrypt blob = .error .failed := by
  by_cases old : blob.key = rotation.oldKey
  · exact Or.inl ⟨old, by simp [KeyRotation.reencrypt, decryptWithKey, old, encryptWithKey]⟩
  by_cases new : blob.key = rotation.newKey
  · have other : rotation.newKey ≠ rotation.oldKey := by rwa [← new]
    exact Or.inr (Or.inl ⟨new, by simp [KeyRotation.reencrypt, decryptWithKey, other, new]⟩)
  · exact Or.inr (Or.inr (by simp [KeyRotation.reencrypt, decryptWithKey, old, new]))

theorem rotateRow_cases (rotation : KeyRotation Key) (table : RecordTable)
    (content : Option (Sealed Key)) (outcome : Outcome) :
    (rotation.rotateRow table content outcome = (.skipped, none) ∧
        ∀ blob, content = some blob → blob.key = rotation.newKey) ∨
      rotation.rotateRow table content outcome = (.failed, none) ∨
      (∃ fresh : Sealed Key, fresh.key = rotation.newKey ∧
        rotation.rotateRow table content outcome = (.success, some fresh)) ∨
      (outcome = .refused ∧ table.checks = false ∧
        ∃ blob, content = some blob ∧ blob.key = rotation.oldKey) := by
  cases content with
  | none => exact Or.inl ⟨rfl, by simp⟩
  | some blob =>
      obtain ⟨old, ran⟩ | ⟨new, ran⟩ | ran := reencrypt_cases rotation blob
      · simp only [KeyRotation.rotateRow, ran]
        cases outcome with
        | done => exact Or.inr (Or.inr (Or.inl ⟨_, rfl, rfl⟩))
        | failed => exact Or.inr (Or.inl rfl)
        | refused =>
            cases checked : table.checks with
            | true => exact Or.inr (Or.inl rfl)
            | false => exact Or.inr (Or.inr (Or.inr ⟨rfl, rfl, blob, rfl, old⟩))
      · exact Or.inl ⟨by simp only [KeyRotation.rotateRow, ran], by rintro _ ⟨⟩; exact new⟩
      · exact Or.inr (Or.inl (by simp only [KeyRotation.rotateRow, ran]))

end Progress

section Runs

variable [DecidableEq Key] (deriveKey : Text → Key)

def Opens (secret : Text) (blob : Sealed Key) : Prop :=
  (decryptWithKey blob (deriveKey secret)).isSome = true

theorem opens_iff (secret : Text) (blob : Sealed Key) :
    Opens deriveKey secret blob ↔ blob.key = deriveKey secret := by
  unfold Opens decryptWithKey
  split
  next same => simp [same]
  next other => simp [other]

structure NeverStranded (server : Server Key) : Prop where
  readable : ∀ secret, server.configured = some secret →
    ∀ table id blob, Held server.records table id blob →
      (∃ stored, server.stored = some stored ∧ Opens deriveKey stored blob) ∨
        Opens deriveKey secret blob
  rotated : ∀ secret report, server.configured = some secret → server.report = some report →
    report.allSucceeded → ∀ table id blob, Held server.records table id blob →
      Opens deriveKey secret blob
  counted : server.miscounted = false

/--
A start has the secret of the start before it, or that secret is the stored one, or nothing is
under it; and no update outside the managed credentials is refused in its response.
-/
def Careful (event : Event) (server : Server Key) : Prop :=
  match event with
  | .start secret => ∀ last, server.configured = some last →
      (∃ table id blob, Held server.records table id blob ∧ Opens deriveKey last blob) →
        server.stored = some last ∨ secret = last
  | .next .refused =>
      match server.phase with
      | .rotating rotation table ((_, some blob) :: _) _ _ =>
          table.checks = true ∨ decryptWithKey blob rotation.oldKey = none
      | _ => True
  | _ => True

structure Inv (server : Server Key) : Prop where
  readable : ∀ table id blob, Held server.records table id blob →
    (∃ stored, server.stored = some stored ∧ blob.key = deriveKey stored) ∨
      ∃ secret, server.configured = some secret ∧ blob.key = deriveKey secret
  phase : match server.phase with
    | .down | .serving => True
    | .storing secret _ =>
        server.configured = some secret ∧ Under server.records (deriveKey secret)
    | .rotating rotation table rows later report => ∃ old secret,
        server.stored = some old ∧ server.configured = some secret ∧
          rotation = ⟨deriveKey old, deriveKey secret, secret⟩ ∧
            Progress rotation table rows later report server.records
  rotated : ∀ secret report, server.configured = some secret → server.report = some report →
    report.allSucceeded → Under server.records (deriveKey secret)
  counted : server.miscounted = false

variable {deriveKey} {server : Server Key}

theorem Inv.neverStranded (inv : Inv deriveKey server) : NeverStranded deriveKey server where
  readable secret configured table id blob held := by
    simp only [opens_iff]
    cases inv.readable table id blob held with
    | inl stored => exact Or.inl stored
    | inr last =>
        obtain ⟨secret', configured', under⟩ := last
        obtain rfl := Option.some.inj (configured.symm.trans configured')
        exact Or.inr under
  rotated secret report configured reported succeeded table id blob held :=
    (opens_iff deriveKey secret blob).mpr
      (inv.rotated secret report configured reported succeeded table id blob held)
  counted := inv.counted

theorem Inv.start (inv : Inv deriveKey server) (secret : Text)
    (careful : Careful deriveKey (.start secret) server) :
    Inv deriveKey (server.start deriveKey secret) := by
  -- What was under the last secret is under the stored or the new one.
  have readable : ∀ table id blob, Held server.records table id blob →
      (∃ stored, server.stored = some stored ∧ blob.key = deriveKey stored) ∨
        blob.key = deriveKey secret := by
    intro table id blob held
    cases inv.readable table id blob held with
    | inl stored => exact Or.inl stored
    | inr last =>
        obtain ⟨secret', configured, under⟩ := last
        have here := careful secret' configured
          ⟨table, id, blob, held, (opens_iff deriveKey secret' blob).mpr under⟩
        cases here with
        | inl stored => exact Or.inl ⟨secret', stored, under⟩
        | inr same => exact Or.inr (by rw [same, under])
  cases stands : server.stored with
  | none =>
      have under : Under server.records (deriveKey secret) := by
        intro table id blob held
        cases readable table id blob held with
        | inl stored => simp [stands] at stored
        | inr new => exact new
      simp only [Server.start, stands]
      constructor
      · exact fun table id blob held => Or.inr ⟨secret, rfl, under table id blob held⟩
      · exact ⟨rfl, under⟩
      · simp
      · exact inv.counted
  | some stored =>
      simp only [stands, Option.some.injEq, exists_eq_left'] at readable
      simp only [Server.start, stands]
      split
      next same =>
        constructor
        · exact fun table id blob held => Or.inr ⟨secret, rfl, by
            cases readable table id blob held with
            | inl old => rw [old, same]
            | inr new => exact new⟩
        · trivial
        · simp
        · exact inv.counted
      next other =>
        constructor
        · intro table id blob held
          cases readable table id blob held with
          | inl old => exact Or.inl ⟨stored, rfl, old⟩
          | inr new => exact Or.inr ⟨secret, rfl, new⟩
        · refine ⟨stored, secret, rfl, rfl, rfl, by simp, by simp, readable, ?_⟩
          intro _ other _ _ _
          exact Or.inr (Or.inl (by cases other <;> decide))
        · simp
        · exact inv.counted

theorem Inv.rotating {rotation : KeyRotation Key} {table : RecordTable}
    {rows : List (Text × Option (Sealed Key))} {later : List RecordTable} {report : RotationReport}
    (inv : Inv deriveKey server)
    (stands : server.phase = .rotating rotation table rows later report) (outcome : Outcome)
    (careful : Careful deriveKey (.next outcome) server) :
    Inv deriveKey (server.rotate rotation table rows later report outcome) := by
  have phase := inv.phase
  rw [stands] at phase
  obtain ⟨old, secret, stored, configured, rfl, progress⟩ := phase
  have counted := inv.counted
  unfold Server.rotate
  split
  -- Every table is through.
  next =>
    have under (succeeded : report.allSucceeded) : Under server.records (deriveKey secret) := by
      intro other id blob held
      obtain new | listed | ⟨_, left⟩ := progress.rotated succeeded other id blob held
      · exact new
      · simp at listed
      · simp at left
    constructor
    · exact inv.readable
    · split
      next finished => split at finished <;> trivial
      next finished => split at finished <;> trivial
      next secret' deleted finished =>
        split at finished
        next succeeded =>
          simp only [Phase.storing.injEq] at finished
          rw [← finished.1]
          exact ⟨configured, under succeeded⟩
        next => simp at finished
      next finished => split at finished <;> simp at finished
    · intro secret' report' configured' reported succeeded
      obtain rfl := Option.some.inj (configured.symm.trans configured')
      obtain rfl := Option.some.inj reported
      exact under succeeded
    · exact counted
  next selected after =>
    split
    next =>
      exact ⟨inv.readable, ⟨old, secret, stored, configured, rfl, progress.select⟩, inv.rotated,
        counted⟩
    next =>
      exact ⟨inv.readable, ⟨old, secret, stored, configured, rfl,
        progress.fail selected [] selected (by simp) (by simp)⟩, inv.rotated, counted⟩
  next id content rest =>
    have rest_current : ∀ row ∈ rest, AList.lookup row.1 (server.records table) = some row.2 :=
      fun row member => progress.current row (List.mem_cons_of_mem _ member)
    have rest_distinct : (rest.map Prod.fst).Nodup := (List.nodup_cons.mp progress.distinct).2
    obtain ⟨ran, new⟩ | ran | ⟨fresh, new, ran⟩ | ⟨rfl, unchecked, blob, rfl, under⟩ :=
      rotateRow_cases ⟨deriveKey old, deriveKey secret, secret⟩ table content outcome
    · rw [ran]
      exact ⟨inv.readable, ⟨old, secret, stored, configured, rfl, progress.skip new⟩, inv.rotated,
        by simpa using counted⟩
    · rw [ran]
      exact ⟨inv.readable, ⟨old, secret, stored, configured, rfl,
        progress.fail table rest table rest_current rest_distinct⟩, inv.rotated,
        by simpa using counted⟩
    · rw [ran]
      constructor
      · intro other otherId blob held
        obtain ⟨_, _, rfl⟩ | ⟨_, before⟩ :=
          held_set server.records table id fresh other otherId blob held
        · exact Or.inr ⟨secret, configured, new⟩
        · exact inv.readable other otherId blob before
      · exact ⟨old, secret, stored, configured, rfl, progress.write fresh new⟩
      · intro secret' report' configured' reported succeeded
        have same : secret = secret' := Option.some.inj (configured.symm.trans configured')
        exact (inv.rotated secret' report' configured' reported succeeded).set table id fresh
          (by rw [new, same])
      · simpa using counted
    · simp only [Careful, stands, unchecked, Bool.false_eq_true, false_or] at careful
      simp [decryptWithKey, under] at careful

omit [DecidableEq Key] in
theorem Inv.storing {secret : Text} {deleted : Bool} (inv : Inv deriveKey server)
    (stands : server.phase = .storing secret deleted) (outcome : Outcome) :
    Inv deriveKey (server.store secret deleted outcome) := by
  have phase := inv.phase
  rw [stands] at phase
  obtain ⟨configured, under⟩ := phase
  have readable : ∀ stored : Option Text, ∀ table id blob, Held server.records table id blob →
      (∃ held, stored = some held ∧ blob.key = deriveKey held) ∨
        ∃ secret, server.configured = some secret ∧ blob.key = deriveKey secret :=
    fun _ table id blob held => Or.inr ⟨secret, configured, under table id blob held⟩
  unfold Server.store
  split
  next => exact ⟨inv.readable, trivial, inv.rotated, inv.counted⟩
  next => exact ⟨readable none, ⟨configured, under⟩, inv.rotated, inv.counted⟩
  next => exact ⟨inv.readable, ⟨configured, under⟩, inv.rotated, inv.counted⟩
  next => exact ⟨readable _, trivial, inv.rotated, inv.counted⟩
  next => exact ⟨inv.readable, trivial, inv.rotated, inv.counted⟩

omit [DecidableEq Key] in
theorem Inv.write (inv : Inv deriveKey server) (serves : server.phase = .serving) (secret : Text)
    (configured : server.configured = some secret) (table : RecordTable) (id plaintext : Text) :
    Inv deriveKey (server.put table id (encryptWithKey plaintext (deriveKey secret))) := by
  constructor
  · intro other otherId blob held
    obtain ⟨_, _, rfl⟩ | ⟨_, old⟩ := held_set server.records table id _ other otherId blob held
    · exact Or.inr ⟨secret, configured, rfl⟩
    · exact inv.readable other otherId blob old
  · simp only [Server.put, serves]
  · intro secret' report configured' reported succeeded
    have same : secret = secret' := Option.some.inj (configured.symm.trans configured')
    exact (inv.rotated secret' report configured' reported succeeded).set table id _
      (by rw [← same]; rfl)
  · exact inv.counted

omit [DecidableEq Key] in
theorem Inv.remove (inv : Inv deriveKey server) (serves : server.phase = .serving)
    (table : RecordTable) (id : Text) :
    Inv deriveKey { server with records := eraseRecord server.records table id } where
  readable other otherId blob held :=
    inv.readable other otherId blob (held_erase server.records table id other otherId blob held)
  phase := by simp only [serves]
  rotated secret report configured reported succeeded other otherId blob held :=
    inv.rotated secret report configured reported succeeded other otherId blob
      (held_erase server.records table id other otherId blob held)
  counted := inv.counted

theorem step_inv (event : Event) (server next : Server Key) (inv : Inv deriveKey server)
    (careful : Careful deriveKey event server) (goes : step deriveKey event server = some next) :
    Inv deriveKey next := by
  cases event with
  | start secret =>
      obtain rfl := Option.some.inj goes
      exact inv.start secret careful
  | crash =>
      obtain rfl := Option.some.inj goes
      exact ⟨inv.readable, trivial, inv.rotated, inv.counted⟩
  | next outcome =>
      simp only [step] at goes
      split at goes
      next rotation table rows later report stands =>
        obtain rfl := Option.some.inj goes
        exact inv.rotating stands outcome careful
      next secret deleted stands =>
        obtain rfl := Option.some.inj goes
        exact inv.storing stands outcome
      next => simp at goes
  | write table id plaintext =>
      simp only [step] at goes
      split at goes
      next secret serves configured =>
        obtain rfl := Option.some.inj goes
        exact inv.write serves secret configured table id plaintext
      next => simp at goes
  | remove table id =>
      simp only [step] at goes
      split at goes
      next serves =>
        obtain rfl := Option.some.inj goes
        exact inv.remove serves table id
      next => simp at goes

omit [DecidableEq Key] in
theorem new_inv : Inv deriveKey Server.new where
  readable table id blob held := by simp [Held, Server.new] at held
  phase := trivial
  rotated := by simp [Server.new]
  counted := rfl

variable (deriveKey) in
/-- Over any starts, crashes, failures and writes that are careful, no record is stranded. -/
theorem never_stranded (events : List Event) (last : Server Key)
    (careful : Machine.Guarded (step deriveKey) (Careful deriveKey) events Server.new)
    (reached : Machine.run (step deriveKey) events Server.new = some last) :
    NeverStranded deriveKey last :=
  (Machine.invariant_run _ _ (Inv deriveKey)
    (fun event server next inv careful goes => step_inv event server next inv careful goes)
    events _ last new_inv careful reached).neverStranded

section Keypair

-- The first start, and a keypair written under its secret.
def founded : List Event :=
  [.start ['a'], .next .done, .next .done, .write .keypair ['k'] ['p']]

def restarted : List Event := [.start ['b'], .next .done, .next .done, .next .done]

-- The rest of the rotation, and `store_secret`.
def concluded : List Event := [.next .done, .next .done, .next .done, .next .done]

theorem refused_update_strands :
    ¬ ∀ events last, Machine.run (step (id : Text → Text)) events Server.new = some last →
      NeverStranded id last := by
  intro every
  have never := every (founded ++ restarted ++ [.next .refused] ++ concluded) _ rfl
  exact absurd never.counted (by decide)

theorem never_stranded_keypair :
    ∃ last, Machine.run (step (id : Text → Text))
      (founded ++ restarted ++ [.next .done] ++ concluded) Server.new = some last ∧
        last.stored = some ['b'] ∧ NeverStranded id last := by
  refine ⟨_, rfl, rfl,
    never_stranded id (founded ++ restarted ++ [.next .done] ++ concluded) _ ?_ rfl⟩
  refine And.intro (by simp [Careful, Server.new]) (And.intro trivial (And.intro trivial ?_))
  refine And.intro trivial (And.intro ?_ (And.intro trivial (And.intro trivial ?_)))
  · rintro last ⟨⟩ _
    exact Or.inl rfl
  · refine And.intro trivial (And.intro trivial (And.intro trivial (And.intro trivial ?_)))
    exact And.intro trivial (And.intro trivial trivial)

end Keypair

end Runs

end Frona.Credential
