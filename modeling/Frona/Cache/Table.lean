import Mathlib.Data.List.Basic

set_option autoImplicit false

namespace Cache

structure Table (K V : Type) where
  entries : List (K × V)

namespace Table

section Operations

variable {K V : Type} [DecidableEq K]

def empty : Table K V := ⟨[]⟩

def get (table : Table K V) (key : K) : Option V :=
  (table.entries.find? fun entry => decide (entry.1 = key)).map Prod.snd

def insert (table : Table K V) (key : K) (value : V) : Table K V :=
  ⟨(key, value) :: table.entries.filter fun entry => decide (entry.1 ≠ key)⟩

-- Invalidation and eviction both keep the entries of some keys only.
def retain (table : Table K V) (keep : K → Bool) : Table K V :=
  ⟨table.entries.filter fun entry => keep entry.1⟩

def memo {E : Type} (table : Table K V) (key : K) (compute : Except E V) :
    Except E V × Table K V :=
  match table.get key with
  | some value => (.ok value, table)
  | none =>
      match compute with
      | .error e => (.error e, table)
      | .ok value => (.ok value, table.insert key value)

end Operations

section Backed

variable {K V : Type}

def Backed (justified : K → V → Prop) (table : Table K V) : Prop :=
  ∀ entry ∈ table.entries, justified entry.1 entry.2

variable {justified justified' : K → V → Prop} {table : Table K V}

theorem backed_empty : Backed justified (empty : Table K V) := by
  simp [Backed, empty]

theorem Backed.mono (backed : Backed justified table)
    (weaker : ∀ key value, justified key value → justified' key value) :
    Backed justified' table :=
  fun entry member => weaker _ _ (backed entry member)

theorem Backed.retain (backed : Backed justified table) (keep : K → Bool) :
    Backed justified (table.retain keep) :=
  fun entry member => backed entry (List.mem_filter.mp member).1

theorem Backed.retain_eq_empty (backed : Backed justified table) (keep : K → Bool)
    (drops : ∀ key value, justified key value → keep key = false) :
    table.retain keep = empty := by
  rw [Table.retain, empty, Table.mk.injEq, List.filter_eq_nil_iff]
  intro entry member
  simp [drops _ _ (backed entry member)]

variable [DecidableEq K]

theorem Backed.get (backed : Backed justified table) {key : K} {value : V}
    (found : table.get key = some value) : justified key value := by
  rw [Table.get, Option.map_eq_some_iff] at found
  obtain ⟨entry, found, rfl⟩ := found
  have same : entry.1 = key := by simpa using List.find?_some found
  exact same ▸ backed entry (List.mem_of_find?_eq_some found)

theorem Backed.insert (backed : Backed justified table) {key : K} {value : V}
    (fits : justified key value) : Backed justified (table.insert key value) := by
  intro entry member
  rcases List.mem_cons.mp member with rfl | member
  · exact fits
  · exact backed entry (List.mem_filter.mp member).1

@[simp] theorem get_empty (key : K) : (empty : Table K V).get key = none := rfl

theorem Backed.memo_fst {E : Type} (backed : Backed justified table) (key : K)
    (compute : Except E V) (sound : ∀ value, justified key value → compute = .ok value) :
    (table.memo key compute).1 = compute := by
  cases found : table.get key with
  | some value =>
      simp only [memo, found]
      exact (sound value (backed.get found)).symm
  | none => cases compute <;> simp [memo, found]

theorem Backed.memo_snd {E : Type} (backed : Backed justified table) (key : K)
    (compute : Except E V) (complete : ∀ value, compute = .ok value → justified key value) :
    Backed justified (table.memo key compute).2 := by
  cases found : table.get key with
  | some value => simpa only [memo, found] using backed
  | none =>
      cases compute with
      | error e => simpa only [memo, found] using backed
      | ok value => simpa only [memo, found] using backed.insert (complete value rfl)

end Backed

end Table

end Cache
