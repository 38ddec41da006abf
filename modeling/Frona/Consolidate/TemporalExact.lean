import Frona.Consolidate.TemporalSound

set_option autoImplicit false

namespace Frona.Consolidate

section Steps

variable {c : Clock}

theorem bind_ok {A B : Type} {x : Except Panic A} {f : A → Except Panic B} {result : B} :
    (x >>= f) = .ok result ↔ ∃ a, x = .ok a ∧ f a = .ok result := by
  cases x <;> simp [bind, Except.bind]

theorem plus_ok {instant length result : Int} :
    c.plus instant length = .ok result ↔ c.TimeInRange (instant + length) ∧ instant + length = result := by
  unfold Clock.plus
  split <;> simp_all

theorem addDays_ok {date days result : Int} :
    c.addDays date days = .ok result ↔ c.DateInRange (date + days) ∧ date + days = result := by
  unfold Clock.addDays
  split <;> simp_all

theorem dateNaive_ok {anchor date : Int} :
    c.dateNaive anchor = .ok date ↔
      c.TimeInRange (c.localAt anchor) ∧ c.localAt anchor / dayLength = date := by
  unfold Clock.dateNaive
  split <;> simp_all

theorem shifted_ok {anchor length : Int} {answer : Resolved} :
    (do let start ← c.plus anchor length
        .ok (some (start, none))) = Except.ok answer ↔
      c.TimeInRange (anchor + length) ∧ answer = some (anchor + length, none) := by
  rw [bind_ok]
  simp only [plus_ok, Except.ok.injEq]
  constructor
  · rintro ⟨start, ⟨range, rfl⟩, rfl⟩
    exact ⟨range, rfl⟩
  · rintro ⟨range, rfl⟩
    exact ⟨_, ⟨range, rfl⟩, rfl⟩

theorem span_total {date length : Int} :
    (∃ answer, span c date length = .ok answer) ↔
      ∀ start, c.single (date * dayLength) = some start → c.TimeInRange (start + length) := by
  unfold span
  cases c.single (date * dayLength) with
  | none => simp
  | some start => simp [bind_ok, plus_ok]

theorem span_start {date length start : Int} {stop : Option Int}
    (found : span c date length = .ok (some (start, stop))) :
    c.single (date * dayLength) = some start := by
  unfold span at found
  cases single : c.single (date * dayLength) with
  | none => simp [single] at found
  | some first =>
      simp only [single, bind_ok, Except.ok.injEq, Option.some.injEq, Prod.mk.injEq] at found
      obtain ⟨_, -, rfl, -⟩ := found
      rfl

theorem monthSpan_start {index months start : Int} {stop : Option Int}
    (found : monthSpan c index months = some (start, stop)) :
    c.single (c.calendar.firstDay index * dayLength) = some start := by
  unfold monthSpan at found
  cases begins : c.monthStart index with
  | none => simp [begins] at found
  | some first =>
      rw [begins] at found
      have same : first = start := by
        cases ends : c.monthStart (index + months) with
        | none => simp [ends] at found
        | some last =>
            simp only [ends] at found
            split at found
            · exact (Prod.mk.inj (Option.some.inj found)).1
            · cases found
      unfold Clock.monthStart at begins
      split at begins
      · rw [begins, same]
      · cases begins

end Steps

section Casts

theorem toI32_of_isI32 {value : Int} (fits : IsI32 value) : toI32 value = value := by
  unfold IsI32 at fits
  unfold toI32
  rw [Int.bmod_eq_of_le] <;> omega

theorem toI32_wraps {value : Int} (bounds : -2 ^ 32 < value ∧ value < 2 ^ 32)
    (wraps : ¬IsI32 value) : (0 < value → toI32 value < 0) ∧ (value < 0 → 0 < toI32 value) := by
  unfold IsI32 at wraps
  unfold toI32
  rw [Int.bmod_def]
  constructor <;> intro sign <;> split <;> omega

theorem month_cast {c : Clock} {time shift : Int} (range : c.TimeInRange time)
    (bounds : -2 ^ 32 < shift ∧ shift < 2 ^ 32) :
    12 * toI32 ((c.calendar.monthIndex (time / dayLength) + shift) / 12) +
        (c.calendar.monthIndex (time / dayLength) + shift) % 12 =
      c.calendar.monthIndex (time / dayLength) + shift := by
  have first : c.minDay ≤ time / dayLength := by
    rw [Int.le_ediv_iff_mul_le (by decide)]
    exact range.1
  have last : time / dayLength < c.maxDay + 1 := by
    rw [Int.ediv_lt_iff_lt_mul (by decide)]
    exact range.2
  have low : 12 * minYear ≤ c.calendar.monthIndex (time / dayLength) :=
    (c.calendar.opens _ _).mpr first
  have high : c.calendar.monthIndex (time / dayLength) < 12 * (maxYear + 1) := by
    by_contra reached
    have := (c.calendar.opens (12 * (maxYear + 1)) (time / dayLength)).mp (by omega)
    unfold Clock.maxDay at last
    omega
  unfold minYear at low
  unfold maxYear at high
  rw [toI32_of_isI32 (by unfold IsI32; omega)]
  omega

end Casts

section Resolving

variable {c : Clock} {anchor : Int}

def RelativeDuration.shift (value : RelativeDuration) : Int :=
  value.direction.sign * value.amount.toNat

/-- The years of a calendar are counted with what the cast to `i32` leaves of them. -/
def RelativeDuration.castsYears (value : RelativeDuration) : Prop :=
  value.semantics = .calendar ∧ value.unit = .year

def dated : TemporalSemantics → TemporalUnit → Bool
  | .elapsed, _ | .calendar, .minute | .calendar, .hour => false
  | .calendar, .day | .calendar, .week | .calendar, .month | .calendar, .year => true

def Begins (c : Clock) (anchor : Int) (semantics : TemporalSemantics) (unit : TemporalUnit)
    (shift start : Int) : Prop :=
  if dated semantics unit then
    c.single (targetDate c (c.localAt anchor / dayLength) shift unit * dayLength) = some start
  else ∃ length, unit.length = some length ∧ start = anchor + length * shift

theorem shift_bounds (value : RelativeDuration) :
    -2 ^ 32 < value.shift ∧ value.shift < 2 ^ 32 := by
  have bound := value.amount.toNat_lt
  unfold RelativeDuration.shift
  cases value.direction <;> simp only [TemporalDirection.sign] <;> omega

theorem amount_pos {value : RelativeDuration} (nonzero : value.amount ≠ 0) :
    0 < value.amount.toNat := by
  rw [Nat.pos_iff_ne_zero]
  intro zero
  exact nonzero (UInt32.toNat_inj.mp zero)

theorem length_shift (amount length sign : Int) :
    amount * length * sign = length * (sign * amount) := by
  rw [Int.mul_comm amount length, Int.mul_assoc, Int.mul_comm amount sign]

theorem representable_iff (value : RelativeDuration) :
    Representable c anchor value ↔
      (∃ answer, resolveDuration c anchor value = .ok answer) ∧
      (value.castsYears → ¬IsI32 value.shift →
        monthSpan c (12 * (c.calendar.monthIndex (c.localAt anchor / dayLength) / 12 +
          toI32 value.shift)) 12 = none) := by
  by_cases zero : value.amount = 0
  · have fits : IsI32 value.shift := by
      simp [RelativeDuration.shift, zero, IsI32]
    simp [Representable, resolveDuration, zero, fits]
  · obtain ⟨direction, amount, unit, semantics⟩ := value
    simp only at zero
    simp only [Representable, resolveDuration, zero, false_or, if_false,
      RelativeDuration.castsYears, RelativeDuration.shift]
    cases semantics with
    | elapsed =>
        cases unit with
        | minute | hour | day | week =>
            simp [TemporalUnit.length, shifted_ok, length_shift]
        | month | year => simp [TemporalUnit.length]
    | calendar =>
        cases unit with
        | minute | hour => simp [bind_ok, dateNaive_ok, plus_ok, length_shift]
        | day => simp [bind_ok, dateNaive_ok, addDays_ok, ← span_total, SpanInRange]
        | week =>
            simp [bind_ok, dateNaive_ok, addDays_ok, ← span_total, SpanInRange, ← sub_eq_add_neg]
        | month => simp [bind_ok, dateNaive_ok]
        | year =>
            simp only [bind_ok, dateNaive_ok]
            constructor
            · rintro ⟨range, fits, wraps⟩
              exact ⟨⟨_, _, ⟨range, rfl⟩, if_pos fits⟩, fun _ => wraps⟩
            · rintro ⟨⟨answer, date, ⟨range, rfl⟩, answered⟩, wraps⟩
              refine ⟨range, ?_, wraps ⟨trivial, trivial⟩⟩
              by_contra overflows
              simp [overflows] at answered

def RelativeDuration.effective (value : RelativeDuration) : Int :=
  if value.semantics = .calendar ∧ value.unit = .year then toI32 value.shift else value.shift

theorem length_nonneg {unit : TemporalUnit} {length : Int} (has : unit.length = some length) :
    0 ≤ length := by
  cases unit with
  | minute | hour | day | week =>
      obtain rfl := Option.some.inj has
      decide
  | month | year => cases has

theorem begins_of_resolve {value : RelativeDuration} {start : Int} {stop : Option Int}
    (resolved : resolveDuration c anchor value = .ok (some (start, stop))) :
    value.amount ≠ 0 ∧
      Begins c anchor value.semantics value.unit value.effective start := by
  by_cases zero : value.amount = 0
  · simp [resolveDuration, zero] at resolved
  · refine ⟨zero, ?_⟩
    have bounds := shift_bounds value
    obtain ⟨direction, amount, unit, semantics⟩ := value
    simp only [resolveDuration, if_neg zero] at resolved
    simp only [Begins, RelativeDuration.effective]
    cases semantics with
    | elapsed =>
        cases unit with
        | minute | hour | day | week =>
            simp only [TemporalUnit.length, shifted_ok, Option.some.injEq, Prod.mk.injEq] at resolved
            simp only [dated, TemporalUnit.length, RelativeDuration.shift]
            simpa [length_shift] using resolved.2.1
        | month | year => simp [TemporalUnit.length] at resolved
    | calendar =>
        simp only [bind_ok, dateNaive_ok] at resolved
        obtain ⟨date, ⟨range, rfl⟩, resolved⟩ := resolved
        cases unit with
        | minute | hour =>
            simp only [bind_ok, plus_ok, Except.ok.injEq, Option.some.injEq, Prod.mk.injEq] at resolved
            obtain ⟨_, ⟨-, rfl⟩, rfl, -⟩ := resolved
            simp [dated, TemporalUnit.length, RelativeDuration.shift, length_shift]
        | day =>
            simp only [bind_ok, addDays_ok] at resolved
            obtain ⟨_, ⟨-, rfl⟩, resolved⟩ := resolved
            exact span_start resolved
        | week =>
            simp only [bind_ok, addDays_ok, ← sub_eq_add_neg] at resolved
            obtain ⟨_, ⟨-, rfl⟩, _, ⟨-, rfl⟩, resolved⟩ := resolved
            exact span_start resolved
        | month =>
            have index := month_cast range bounds
            simp only [RelativeDuration.shift] at index
            rw [index] at resolved
            exact monthSpan_start (Except.ok.inj resolved)
        | year =>
            dsimp only at resolved
            split at resolved
            · exact monthSpan_start (Except.ok.inj resolved)
            · cases resolved

section Sides

variable {semantics : TemporalSemantics} {unit : TemporalUnit} {shift start : Int}

theorem dated_units (date : dated semantics unit = true) : unit ≠ .minute ∧ unit ≠ .hour := by
  cases semantics <;> cases unit <;> simp_all [dated]

theorem begins_ahead (begins : Begins c anchor semantics unit shift start) (ahead : 0 < shift) :
    anchor ≤ start := by
  unfold Begins at begins
  split at begins
  next date =>
    exact (anchor_lt_start begins (targetDate_future _ ahead (dated_units date))).le
  next =>
    obtain ⟨length, has, rfl⟩ := begins
    have := Int.mul_nonneg (length_nonneg has) ahead.le
    omega

theorem begins_back (begins : Begins c anchor semantics unit shift start) (back : shift ≤ 0) :
    start ≤ anchor := by
  unfold Begins at begins
  split at begins
  next => exact start_le_anchor begins (targetDate_past _ back unit)
  next =>
    obtain ⟨length, has, rfl⟩ := begins
    have := Int.mul_nonpos_of_nonneg_of_nonpos (length_nonneg has) back
    omega

theorem begins_mono {more start' : Int} (begins : Begins c anchor semantics unit shift start)
    (begins' : Begins c anchor semantics unit more start') (le : shift ≤ more) : start ≤ start' := by
  unfold Begins at begins begins'
  split at begins
  next => exact start_mono begins (by simpa [*] using begins') (targetDate_mono _ le unit)
  next undated =>
    rw [if_neg undated] at begins'
    obtain ⟨length, has, rfl⟩ := begins
    obtain ⟨length', has', rfl⟩ := begins'
    obtain rfl := Option.some.inj (has.symm.trans has')
    have := Int.mul_le_mul_of_nonneg_left le (length_nonneg has)
    omega

end Sides

theorem resolve_year_iff {direction : TemporalDirection} {amount : UInt32} {answer : Resolved}
    (nonzero : amount ≠ 0) :
    let year := c.calendar.monthIndex (c.localAt anchor / dayLength) / 12 +
      toI32 (direction.sign * amount.toNat)
    resolveDuration c anchor ⟨direction, amount, .year, .calendar⟩ = .ok answer ↔
      c.TimeInRange (c.localAt anchor) ∧ IsI32 year ∧ monthSpan c (12 * year) 12 = answer := by
  simp only [resolveDuration, if_neg nonzero, bind_ok, dateNaive_ok]
  constructor
  · rintro ⟨_, ⟨range, rfl⟩, answered⟩
    split at answered
    next fits => exact ⟨range, fits, Except.ok.inj answered⟩
    next => cases answered
  · rintro ⟨range, fits, rfl⟩
    exact ⟨_, ⟨range, rfl⟩, if_pos fits⟩

theorem resolve_year {value : RelativeDuration} {answer : Resolved} (casts : value.castsYears)
    (nonzero : value.amount ≠ 0) (resolved : resolveDuration c anchor value = .ok answer) :
    answer = monthSpan c (12 * (c.calendar.monthIndex (c.localAt anchor / dayLength) / 12 +
      toI32 value.shift)) 12 := by
  obtain ⟨direction, amount, unit, semantics⟩ := value
  obtain ⟨rfl, rfl⟩ := casts
  exact ((resolve_year_iff nonzero).mp resolved).2.2.symm

theorem effective_of_fits {value : RelativeDuration} (fits : value.castsYears → IsI32 value.shift) :
    value.effective = value.shift := by
  unfold RelativeDuration.effective
  split
  next casts => exact toI32_of_isI32 (fits casts)
  next => rfl

theorem fits_less {value : RelativeDuration} {less : UInt32} (le : less ≤ value.amount)
    (fits : IsI32 value.shift) : IsI32 { value with amount := less }.shift := by
  have bound : less.toNat ≤ value.amount.toNat := UInt32.le_iff_toNat_le.mp le
  unfold IsI32 RelativeDuration.shift at *
  cases direction : value.direction <;>
    simp only [direction, TemporalDirection.sign] at fits ⊢ <;> omega

theorem fits_of_resolve {value : RelativeDuration} {start : Int} {stop : Option Int}
    (wraps : value.castsYears → ¬IsI32 value.shift →
      monthSpan c (12 * (c.calendar.monthIndex (c.localAt anchor / dayLength) / 12 +
        toI32 value.shift)) 12 = none)
    (resolved : resolveDuration c anchor value = .ok (some (start, stop))) :
    value.castsYears → IsI32 value.shift := by
  intro casts
  by_contra outside
  have answer := resolve_year casts (begins_of_resolve resolved).1 resolved
  rw [wraps casts outside] at answer
  cases answer

theorem cast_misleads {value : RelativeDuration} {start : Int} {stop : Option Int}
    (casts : value.castsYears) (outside : ¬IsI32 value.shift)
    (resolved : resolveDuration c anchor value = .ok (some (start, stop))) :
    value.direction = .future ∧ start < anchor ∨ value.direction = .past ∧ anchor < start := by
  have ⟨nonzero, begins⟩ := begins_of_resolve resolved
  have positive := amount_pos nonzero
  have ⟨ahead, back⟩ := toI32_wraps (shift_bounds value) outside
  have date : dated value.semantics value.unit = true := by
    rw [casts.1, casts.2]
    rfl
  have counted : value.effective = toI32 value.shift := if_pos casts
  rw [Begins, if_pos date, counted, casts.2] at begins
  cases direction : value.direction with
  | future =>
      have : 0 < value.shift := by simp [RelativeDuration.shift, direction, TemporalDirection.sign, positive]
      exact .inl ⟨rfl, start_lt_anchor begins (targetDate_back _ (ahead this))⟩
  | past =>
      have : value.shift < 0 := by simp [RelativeDuration.shift, direction, TemporalDirection.sign, positive]
      exact .inr ⟨rfl, anchor_lt_start begins (targetDate_future _ (back this) (by simp))⟩
  | present =>
      have : value.shift = 0 := by simp [RelativeDuration.shift, direction, TemporalDirection.sign]
      exact absurd (by simp [this, IsI32]) outside

/-- A relative date resolves soundly exactly when everything it asks for can be represented. -/
theorem resolvesSoundly_iff (c : Clock) (anchor : Int) (value : RelativeDuration) :
    ResolvesSoundly c anchor value ↔ Representable c anchor value := by
  rw [representable_iff]
  constructor
  · intro sound
    refine ⟨sound.total, fun casts outside => ?_⟩
    obtain ⟨answer, resolved⟩ := sound.total
    by_cases zero : value.amount = 0
    · exact absurd (by simp [RelativeDuration.shift, zero, IsI32]) outside
    · have same := resolve_year casts zero resolved
      cases answer with
      | none => exact same.symm
      | some range =>
          rcases cast_misleads casts outside resolved with ⟨ahead, before⟩ | ⟨back, after⟩
          · have := sound.future ahead range.1 range.2 resolved
            omega
          · have := sound.past back range.1 range.2 resolved
            omega
  · rintro ⟨total, wraps⟩
    refine ⟨total, fun ahead start stop resolved => ?_, fun back start stop resolved => ?_, ?_⟩
    · have ⟨nonzero, begins⟩ := begins_of_resolve resolved
      rw [effective_of_fits (fits_of_resolve wraps resolved)] at begins
      refine begins_ahead begins ?_
      simp [RelativeDuration.shift, ahead, TemporalDirection.sign, amount_pos nonzero]
    · have begins := (begins_of_resolve resolved).2
      rw [effective_of_fits (fits_of_resolve wraps resolved)] at begins
      refine begins_back begins ?_
      simp [RelativeDuration.shift, back, TemporalDirection.sign]
    · intro less le nearer stop' start stop near far
      have fits := fits_of_resolve wraps far
      have ⟨nonzero, begins⟩ := begins_of_resolve near
      have begins' := (begins_of_resolve far).2
      have bound : less.toNat ≤ value.amount.toNat := UInt32.le_iff_toNat_le.mp le
      have positive := amount_pos nonzero
      rw [effective_of_fits fits] at begins'
      rw [effective_of_fits fun casts => fits_less le (fits casts)] at begins
      obtain ⟨direction, amount, unit, semantics⟩ := value
      simp only [RelativeDuration.shift] at begins begins' bound positive
      -- Both lie on the side of the direction, and the larger amount is the farther one.
      cases direction with
      | future =>
          simp only [TemporalDirection.sign, Int.one_mul] at begins begins'
          have := begins_ahead begins (by omega)
          have := begins_mono begins begins' (by omega)
          omega
      | past =>
          simp only [TemporalDirection.sign] at begins begins'
          have := begins_back begins (by omega)
          have := begins_mono begins' begins (by omega)
          omega
      | present =>
          simp only [TemporalDirection.sign, Int.zero_mul] at begins begins'
          have := begins_mono begins begins' (Int.le_refl _)
          have := begins_mono begins' begins (Int.le_refl _)
          omega

theorem future_year_past : ¬ResolvesSoundly utc noon ⟨.future, 4294967295, .year, .calendar⟩ := by
  intro sound
  have resolved : resolveDuration utc noon ⟨.future, 4294967295, .year, .calendar⟩ =
      .ok (some (20089 * dayLength, some (20454 * dayLength))) := by decide
  exact absurd (sound.future rfl _ _ resolved) (by decide)

example : resolveDuration utc noon ⟨.future, 4294967295, .day, .elapsed⟩ = .error .instant := by
  decide +kernel

end Resolving

end Frona.Consolidate
