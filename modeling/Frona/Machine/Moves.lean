import Mathlib.Data.List.Nodup
import Mathlib.Logic.Function.Basic

set_option autoImplicit false

namespace Moves

variable {K V : Type} [DecidableEq K]

def simultaneous (moves : List (K × K)) (key : K) : K :=
  match moves.find? (fun move => move.1 = key) with
  | some move => move.2
  | none => key

def sequential : List (K × K) → K → K
  | [], key => key
  | (source, target) :: rest, key => sequential rest (if key = source then target else key)

/-- No move goes where a later move starts. -/
def Ordered (moves : List (K × K)) : Prop :=
  moves.Pairwise fun earlier later => earlier.2 ≠ later.1

instance (moves : List (K × K)) : Decidable (Ordered moves) :=
  inferInstanceAs (Decidable (moves.Pairwise fun earlier later => earlier.2 ≠ later.1))

theorem simultaneous_cons (source target : K) (rest : List (K × K)) (key : K) :
    simultaneous ((source, target) :: rest) key =
      if key = source then target else simultaneous rest key := by
  by_cases same : source = key
  · simp [simultaneous, same]
  · simp [simultaneous, same, Ne.symm same]

theorem simultaneous_unmoved (moves : List (K × K)) (key : K)
    (unmoved : ∀ move ∈ moves, move.1 ≠ key) : simultaneous moves key = key := by
  have missing : moves.find? (fun move => move.1 = key) = none := by
    simpa using unmoved
  simp [simultaneous, missing]

theorem simultaneous_moved (moves : List (K × K)) (once : (moves.map Prod.fst).Nodup)
    (source target : K) (member : (source, target) ∈ moves) :
    simultaneous moves source = target := by
  induction moves with
  | nil => simp at member
  | cons move rest ih =>
      obtain ⟨first, second⟩ := move
      simp only [List.map_cons, List.nodup_cons] at once
      rw [simultaneous_cons]
      cases List.mem_cons.mp member with
      | inl here =>
          obtain ⟨rfl, rfl⟩ : source = first ∧ target = second := by simpa using here
          simp
      | inr deeper =>
          have other : source ≠ first := by
            rintro rfl
            exact once.1 (List.mem_map.mpr ⟨_, deeper, rfl⟩)
          rw [if_neg other, ih once.2 deeper]

theorem simultaneous_cases (moves : List (K × K)) (key : K) :
    (∃ move ∈ moves, move.1 = key ∧ simultaneous moves key = move.2) ∨
      ((∀ move ∈ moves, move.1 ≠ key) ∧ simultaneous moves key = key) := by
  cases found : moves.find? (fun move => move.1 = key) with
  | none =>
      right
      exact ⟨by simpa using found, by simp [simultaneous, found]⟩
  | some move =>
      left
      exact ⟨move, List.mem_of_find?_eq_some found, by simpa using List.find?_some found,
        by simp [simultaneous, found]⟩

theorem sequential_unmoved (moves : List (K × K)) (key : K)
    (unmoved : ∀ move ∈ moves, move.1 ≠ key) : sequential moves key = key := by
  induction moves with
  | nil => rfl
  | cons move rest ih =>
      have other : key ≠ move.1 := (unmoved move (by simp)).symm
      have tail := ih fun later member => unmoved later (by simp [member])
      simp [sequential, other, tail]

theorem sequential_eq (moves : List (K × K)) (ordered : Ordered moves) (key : K) :
    sequential moves key = simultaneous moves key := by
  induction moves generalizing key with
  | nil => rfl
  | cons move rest ih =>
      obtain ⟨source, target⟩ := move
      obtain ⟨later, tail⟩ := List.pairwise_cons.mp ordered
      rw [sequential, simultaneous_cons]
      by_cases same : key = source
      · rw [if_pos same, if_pos same]
        exact sequential_unmoved rest target fun move member => (later move member).symm
      · rw [if_neg same, if_neg same, ih tail]

theorem sequential_still (moves : List (K × K)) (still : ∀ move ∈ moves, move.1 = move.2)
    (key : K) : sequential moves key = key := by
  induction moves generalizing key with
  | nil => rfl
  | cons move rest ih =>
      have here := still move (by simp)
      have tail := ih (fun later member => still later (by simp [member]))
      rw [sequential, tail]
      by_cases same : key = move.1
      · rw [if_pos same, ← here, same]
      · rw [if_neg same]

def moveOne (accepts removes : K → Bool) (move : K × K) (store : K → Option V) : K → Option V :=
  match store move.1 with
  | none => store
  | some value =>
      if accepts move.2 then
        let written := Function.update store move.2 (some value)
        if removes move.1 then Function.update written move.1 none else written
      else store

def moveAll (accepts removes : K → Bool) (moves : List (K × K)) (store : K → Option V) :
    K → Option V :=
  moves.foldl (fun store move => moveOne accepts removes move store) store

theorem moveOne_at (accepts removes : K → Bool) (move : K × K) (store : K → Option V) {value : V}
    (stored : store move.1 = some value) (accepted : accepts move.2 = true) (key : K) :
    moveOne accepts removes move store key =
      if key = move.1 ∧ removes move.1 = true then none
      else if key = move.2 then some value else store key := by
  cases removed : removes move.1 <;>
    by_cases left : key = move.1 <;> by_cases arrived : key = move.2 <;>
      simp_all [moveOne]

theorem moveOne_stays (accepts removes : K → Bool) (move : K × K) (store : K → Option V)
    (stays : store move.1 = none ∨ accepts move.2 = false) :
    moveOne accepts removes move store = store := by
  cases stored : store move.1 <;> simp_all [moveOne]

theorem moveOne_untouched (accepts removes : K → Bool) (move : K × K) (store : K → Option V)
    (key : K) (unmoved : move.1 ≠ key) (unhit : move.2 ≠ key) :
    moveOne accepts removes move store key = store key := by
  cases stored : store move.1 with
  | none => rw [moveOne_stays accepts removes move store (.inl stored)]
  | some value =>
      cases accepted : accepts move.2 with
      | false => rw [moveOne_stays accepts removes move store (.inr accepted)]
      | true =>
          rw [moveOne_at accepts removes move store stored accepted,
            if_neg fun gone => unmoved gone.1.symm, if_neg unhit.symm]

theorem moveOne_eq_self (accepts removes : K → Bool) (move : K × K) (store : K → Option V) :
    moveOne accepts removes move store = store ↔
      store move.1 = none ∨ accepts move.2 = false ∨
        removes move.1 = false ∧ store move.2 = store move.1 := by
  cases stored : store move.1 with
  | none => simp [moveOne, stored]
  | some value =>
      cases accepted : accepts move.2 with
      | false => simp [moveOne, stored, accepted]
      | true =>
          simp only [reduceCtorEq, Bool.true_eq_false, false_or]
          constructor
          · intro same
            have left := congrFun same move.1
            have arrived := congrFun same move.2
            rw [moveOne_at accepts removes move store stored accepted] at left arrived
            cases removed : removes move.1 with
            | true => simp [removed, stored] at left
            | false => simpa [removed] using arrived.symm
          · rintro ⟨removed, same⟩
            funext key
            rw [moveOne_at accepts removes move store stored accepted]
            by_cases arrived : key = move.2 <;> simp_all

theorem moveAll_untouched (accepts removes : K → Bool) (moves : List (K × K)) (store : K → Option V)
    (key : K) (unmoved : ∀ move ∈ moves, move.1 ≠ key) (unhit : ∀ move ∈ moves, move.2 ≠ key) :
    moveAll accepts removes moves store key = store key := by
  induction moves generalizing store with
  | nil => rfl
  | cons move rest ih =>
      have tail := ih (moveOne accepts removes move store)
        (fun later member => unmoved later (by simp [member]))
        (fun later member => unhit later (by simp [member]))
      have here := moveOne_untouched accepts removes move store key (unmoved move (by simp))
        (unhit move (by simp))
      exact tail.trans here

theorem moveAll_target (accepts removes : K → Bool) (moves : List (K × K)) (store : K → Option V)
    (ordered : Ordered moves) (sources : (moves.map Prod.fst).Nodup)
    (targets : (moves.map Prod.snd).Nodup) (away : ∀ move ∈ moves, move.1 ≠ move.2)
    (source target : K) (value : V) (member : (source, target) ∈ moves)
    (stored : store source = some value) (accepted : accepts target = true) :
    moveAll accepts removes moves store target = some value := by
  induction moves generalizing store with
  | nil => simp at member
  | cons move rest ih =>
      obtain ⟨later, tail⟩ := List.pairwise_cons.mp ordered
      simp only [List.map_cons, List.nodup_cons] at sources targets
      change moveAll accepts removes rest (moveOne accepts removes move store) target = some value
      cases List.mem_cons.mp member with
      | inl here =>
          subst here
          have distinct : target ≠ source := (away (source, target) (by simp)).symm
          have arrived : moveOne accepts removes (source, target) store target = some value := by
            rw [moveOne_at accepts removes (source, target) store stored accepted,
              if_neg fun gone => distinct gone.1, if_pos rfl]
          rw [moveAll_untouched accepts removes rest _ target
            (fun move member => (later move member).symm), arrived]
          intro move member same
          exact targets.1 (List.mem_map.mpr ⟨move, member, same⟩)
      | inr deeper =>
          have kept : moveOne accepts removes move store source = store source := by
            apply moveOne_untouched
            · intro same
              exact sources.1 (List.mem_map.mpr ⟨_, deeper, same.symm⟩)
            · exact later _ deeper
          exact ih _ tail sources.2 targets.2 (fun move member => away move (by simp [member]))
            deeper (kept.trans stored)

def Carried (accepts removes : K → Bool) : List (K × K) → K → K → Prop
  | [], origin, key => origin = key
  | (source, target) :: rest, origin, key =>
      if origin = source ∧ accepts target = true then
        Carried accepts removes rest target key ∨
          removes source = false ∧ Carried accepts removes rest source key
      else Carried accepts removes rest origin key

theorem moveAll_origin (accepts removes : K → Bool) (moves : List (K × K)) (store : K → Option V)
    (key : K) (value : V) (stored : moveAll accepts removes moves store key = some value) :
    ∃ origin, Carried accepts removes moves origin key ∧ store origin = some value := by
  induction moves generalizing store with
  | nil => exact ⟨key, rfl, stored⟩
  | cons move rest ih =>
      obtain ⟨source, target⟩ := move
      obtain ⟨between, goes, held⟩ := ih (moveOne accepts removes (source, target) store) stored
      by_cases stays : store source = none ∨ accepts target = false
      · rw [moveOne_stays accepts removes (source, target) store stays] at held
        refine ⟨between, ?_, held⟩
        rw [Carried, if_neg]
        · exact goes
        · rintro ⟨rfl, accepted⟩
          simp [held, accepted] at stays
      · obtain ⟨filled, accepted⟩ := not_or.mp stays
        obtain ⟨moved, started⟩ := Option.ne_none_iff_exists'.mp filled
        have accepted : accepts target = true := by simpa using accepted
        rw [moveOne_at accepts removes (source, target) store started accepted] at held
        split at held
        · cases held
        · next left =>
            split at held
            · next arrived =>
                obtain rfl : between = target := arrived
                obtain rfl := Option.some.inj held
                exact ⟨source, by rw [Carried, if_pos ⟨rfl, accepted⟩]; exact .inl goes, started⟩
            · refine ⟨between, ?_, held⟩
              rw [Carried]
              split
              · next here =>
                  obtain rfl : between = source := here.1
                  exact .inr ⟨by simpa using left, goes⟩
              · exact goes

theorem moveOne_still (accepts removes : K → Bool) (move : K × K) (store : K → Option V)
    (still : move.1 = move.2) (key : K) :
    moveOne accepts removes move store key =
      if key = move.1 ∧ accepts key = true ∧ removes key = true then none else store key := by
  obtain ⟨source, target⟩ := move
  obtain rfl : source = target := still
  cases stored : store source with
  | none =>
      rw [moveOne_stays accepts removes (source, source) store (.inl stored)]
      by_cases here : key = source <;> simp [here, stored]
  | some value =>
      cases accepted : accepts source with
      | false =>
          rw [moveOne_stays accepts removes (source, source) store (.inr accepted)]
          by_cases here : key = source <;> simp [here, accepted]
      | true =>
          rw [moveOne_at accepts removes (source, source) store stored accepted]
          by_cases here : key = source <;> simp [here, stored, accepted]

theorem moveAll_still (accepts removes : K → Bool) (moves : List (K × K)) (store : K → Option V)
    (still : ∀ move ∈ moves, move.1 = move.2) (key : K) :
    moveAll accepts removes moves store key =
      if key ∈ moves.map Prod.fst ∧ accepts key = true ∧ removes key = true then none
      else store key := by
  induction moves generalizing store with
  | nil => simp [moveAll]
  | cons move rest ih =>
      change moveAll accepts removes rest (moveOne accepts removes move store) key = _
      rw [ih _ fun later member => still later (by simp [member]),
        moveOne_still accepts removes move store (still move (by simp))]
      simp only [List.map_cons, List.mem_cons]
      grind

def ownKeys (store : K → Option V) (key : K) : Option K := (store key).map fun _ => key

theorem moveOne_from (accepts removes : K → Bool) (move : K × K) (store : K → Option V) {key : K}
    {value : V} (stored : moveOne accepts removes move store key = some value) :
    ∃ origin, store origin = some value := by
  obtain ⟨origin, -, held⟩ := moveAll_origin accepts removes [move] store key value stored
  exact ⟨origin, held⟩

theorem moveOne_bind (accepts removes : K → Bool) (move : K × K) (store : K → Option V)
    (origins : K → Option K)
    (present : ∀ key origin, origins key = some origin → store origin ≠ none) :
    moveOne accepts removes move (fun key => (origins key).bind store) =
      fun key => (moveOne accepts removes move origins key).bind store := by
  funext key
  cases from_ : origins move.1 with
  | none => simp [moveOne, from_]
  | some origin =>
      obtain ⟨value, stored⟩ := Option.ne_none_iff_exists'.mp (present _ _ from_)
      have held : (origins move.1).bind store = some value := by
        rw [from_, Option.bind_some, stored]
      cases accepted : accepts move.2 with
      | false =>
          rw [moveOne_stays _ _ _ _ (.inr accepted), moveOne_stays _ _ _ _ (.inr accepted)]
      | true =>
          rw [moveOne_at accepts removes move _ held accepted,
            moveOne_at accepts removes move _ from_ accepted]
          split
          · rfl
          · split
            · exact stored.symm
            · rfl

theorem moveAll_bind (accepts removes : K → Bool) (moves : List (K × K)) (store : K → Option V)
    (origins : K → Option K)
    (present : ∀ key origin, origins key = some origin → store origin ≠ none) (key : K) :
    moveAll accepts removes moves (fun key => (origins key).bind store) key =
      (moveAll accepts removes moves origins key).bind store := by
  induction moves generalizing origins with
  | nil => rfl
  | cons move rest ih =>
      change moveAll accepts removes rest
          (moveOne accepts removes move fun key => (origins key).bind store) key =
        (moveAll accepts removes rest (moveOne accepts removes move origins) key).bind store
      rw [moveOne_bind accepts removes move store origins present]
      apply ih
      intro key origin found
      obtain ⟨other, held⟩ := moveOne_from accepts removes move origins found
      exact present other origin held

theorem moveAll_ownKeys (accepts removes : K → Bool) (moves : List (K × K)) (store : K → Option V)
    (key : K) :
    moveAll accepts removes moves store key =
      (moveAll accepts removes moves (ownKeys store) key).bind store := by
  rw [← moveAll_bind]
  · congr 1
    funext key
    cases stored : store key <;> simp [ownKeys, stored]
  · intro key origin own
    obtain ⟨value, stored, rfl⟩ := Option.map_eq_some_iff.mp own
    simp [stored]

end Moves

namespace Contraction

variable {K L : Type}

def Contracted (rename : K → K) (edges : K → L → K → Prop) (source : K) (label : L) (target : K) :
    Prop :=
  source ≠ target ∧ ∃ source' target', rename source' = source ∧ rename target' = target ∧
    edges source' label target'

variable {rename : K → K} {edges edges' : K → L → K → Prop} {source target : K} {label : L}

theorem Contracted.mono (included : ∀ source label target, edges source label target →
    edges' source label target) (edge : Contracted rename edges source label target) :
    Contracted rename edges' source label target := by
  obtain ⟨away, source', target', start, stop, held⟩ := edge
  exact ⟨away, source', target', start, stop, included _ _ _ held⟩

theorem contracted_congr {edges edges' : K → L → K → Prop}
    (same : ∀ source target, edges source label target ↔ edges' source label target) :
    Contracted rename edges source label target ↔ Contracted rename edges' source label target := by
  simp only [Contracted, same]

theorem contracted_comp (next : K → K) :
    Contracted next (Contracted rename edges) source label target ↔
      Contracted (next ∘ rename) edges source label target := by
  constructor
  · intro edge
    obtain ⟨away, _, _, start, stop, _, source', target', first, last, held⟩ := edge
    exact ⟨away, source', target', by simp [first, start], by simp [last, stop], held⟩
  · intro edge
    obtain ⟨away, source', target', start, stop, held⟩ := edge
    refine ⟨away, rename source', rename target', start, stop, ?_, source', target', rfl, rfl, held⟩
    intro loop
    have same : next (rename source') = next (rename target') := congrArg next loop
    exact away (start.symm.trans (same.trans stop))

section Follow

variable [DecidableEq K]

def follow (move : K × K) (key : K) : K := if key = move.1 then move.2 else key

theorem follow_ne {move : K × K} (away : move.1 ≠ move.2) (key : K) : follow move key ≠ move.1 := by
  rw [follow]
  split
  · exact away.symm
  · assumption

theorem follow_eq_target {move : K × K} {key : K} :
    follow move key = move.2 ↔ key = move.1 ∨ key = move.2 := by
  rw [follow]
  split <;> simp_all

theorem follow_eq_other {move : K × K} {key other : K} (elsewhere : other ≠ move.2) :
    follow move key = other ↔ key ≠ move.1 ∧ key = other := by
  rw [follow]
  split
  · simp_all [Ne.symm elsewhere]
  · simp_all

theorem sequential_eq (move : K × K) (rest : List (K × K)) :
    Moves.sequential (move :: rest) = Moves.sequential rest ∘ follow move := rfl

end Follow

end Contraction
