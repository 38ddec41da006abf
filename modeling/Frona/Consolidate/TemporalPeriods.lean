import Frona.Consolidate.TemporalExact

set_option autoImplicit false

namespace Frona.Consolidate

section Claims

variable (c : Clock) (anchor : Int)

/-- A local time that there is just once is not shown at any other instant. -/
def Clock.Once : Prop :=
  ∀ time instant other, c.single time = some instant → c.localAt other = time → other = instant

structure MidnightOf (date instant : Int) : Prop where
  shows : c.localAt instant = date * dayLength
  only : ∀ other, c.single (date * dayLength) = some other → other = instant

/-- A period that is resolved begins at midnight of its first day, and ends at midnight of the first
day of the next one. -/
def CoversPeriod (value : RelativeDuration) : Prop :=
  ∀ start stop, resolveDuration c anchor value = .ok (some (start, some stop)) →
    c.single (targetDate c (c.localAt anchor / dayLength) value.shift value.unit * dayLength) =
        some start ∧
      MidnightOf c (targetDate c (c.localAt anchor / dayLength) (value.shift + 1) value.unit) stop

/-- The clock is not changed during a day or a week that is resolved. -/
def SteadyDays (value : RelativeDuration) : Prop :=
  value.amount ≠ 0 → Representable c anchor value → dated value.semantics value.unit = true →
    ∀ length start, value.unit.length = some length →
      c.single (targetDate c (c.localAt anchor / dayLength) value.shift value.unit * dayLength) =
        some start →
      c.localAt (start + length) = c.localAt start + length

/-- No year is resolved that the cast to `i32` has changed. -/
def CastsNoYear (value : RelativeDuration) : Prop :=
  let year := c.calendar.monthIndex (c.localAt anchor / dayLength) / 12 + toI32 value.shift
  value.castsYears → ¬IsI32 value.shift → c.TimeInRange (c.localAt anchor) → IsI32 year →
    monthSpan c (12 * year) 12 = none

end Claims

section Periods

variable {c : Clock} {anchor : Int}

theorem span_ok {date length start stop : Int} :
    span c date length = .ok (some (start, some stop)) ↔
      c.single (date * dayLength) = some start ∧ c.TimeInRange stop ∧ stop = start + length := by
  unfold span
  cases single : c.single (date * dayLength) with
  | none => simp
  | some first =>
      simp only [bind_ok, plus_ok, Except.ok.injEq, Option.some.injEq, Prod.mk.injEq]
      constructor
      · rintro ⟨_, ⟨range, rfl⟩, rfl, rfl⟩
        exact ⟨rfl, range, rfl⟩
      · rintro ⟨rfl, range, rfl⟩
        exact ⟨_, ⟨range, rfl⟩, rfl, rfl⟩

theorem monthSpan_stop {index months start : Int} {stop : Option Int}
    (found : monthSpan c index months = some (start, stop)) :
    ∃ last, stop = some last ∧
      c.single (c.calendar.firstDay (index + months) * dayLength) = some last := by
  unfold monthSpan at found
  cases begins : c.monthStart index with
  | none => simp [begins] at found
  | some first =>
      rw [begins] at found
      cases ends : c.monthStart (index + months) with
      | none => simp [ends] at found
      | some last =>
          simp only [ends] at found
          split at found
          · obtain ⟨-, same⟩ := Prod.mk.inj (Option.some.inj found)
            refine ⟨last, same.symm, ?_⟩
            unfold Clock.monthStart at ends
            split at ends
            · exact ends
            · cases ends
          · cases found

theorem midnight_of_single {date instant : Int}
    (found : c.single (date * dayLength) = some instant) : MidnightOf c date instant where
  shows := c.reads found
  only _ same := Option.some.inj (same.symm.trans found)

theorem single_date {date other instant : Int}
    (here : c.single (date * dayLength) = some instant)
    (there : c.single (other * dayLength) = some instant) : date = other := by
  have same := (c.reads here).symm.trans (c.reads there)
  exact Int.eq_of_mul_eq_mul_right (by decide) same

theorem toI32_ne {value : Int} (bounds : -2 ^ 32 < value ∧ value < 2 ^ 32)
    (outside : ¬IsI32 value) : toI32 value ≠ value := by
  have ⟨ahead, back⟩ := toI32_wraps bounds outside
  intro same
  rw [same] at ahead back
  have zero : value = 0 := by omega
  exact outside (by simp [zero, IsI32])

section Units

variable {direction : TemporalDirection} {amount : UInt32} {answer : Resolved}

theorem resolve_day (nonzero : amount ≠ 0) :
    resolveDuration c anchor ⟨direction, amount, .day, .calendar⟩ = .ok answer ↔
      c.TimeInRange (c.localAt anchor) ∧
      c.DateInRange (c.localAt anchor / dayLength + direction.sign * amount.toNat) ∧
      span c (c.localAt anchor / dayLength + direction.sign * amount.toNat) dayLength =
        .ok answer := by
  simp only [resolveDuration, if_neg nonzero, bind_ok, dateNaive_ok, addDays_ok]
  constructor
  · rintro ⟨_, ⟨range, rfl⟩, _, ⟨exists_, rfl⟩, spanned⟩
    exact ⟨range, exists_, spanned⟩
  · rintro ⟨range, exists_, spanned⟩
    exact ⟨_, ⟨range, rfl⟩, _, ⟨exists_, rfl⟩, spanned⟩

theorem resolve_week (nonzero : amount ≠ 0) :
    let monday := c.localAt anchor / dayLength - daysFromMonday (c.localAt anchor / dayLength)
    resolveDuration c anchor ⟨direction, amount, .week, .calendar⟩ = .ok answer ↔
      c.TimeInRange (c.localAt anchor) ∧ c.DateInRange monday ∧
      c.DateInRange (monday + 7 * (direction.sign * amount.toNat)) ∧
      span c (monday + 7 * (direction.sign * amount.toNat)) (7 * dayLength) = .ok answer := by
  simp only [resolveDuration, if_neg nonzero, bind_ok, dateNaive_ok, addDays_ok, ← sub_eq_add_neg]
  constructor
  · rintro ⟨_, ⟨range, rfl⟩, _, ⟨monday, rfl⟩, _, ⟨exists_, rfl⟩, spanned⟩
    exact ⟨range, monday, exists_, spanned⟩
  · rintro ⟨range, monday, exists_, spanned⟩
    exact ⟨_, ⟨range, rfl⟩, _, ⟨monday, rfl⟩, _, ⟨exists_, rfl⟩, spanned⟩

theorem resolve_month (nonzero : amount ≠ 0) :
    resolveDuration c anchor ⟨direction, amount, .month, .calendar⟩ = .ok answer ↔
      c.TimeInRange (c.localAt anchor) ∧
      monthSpan c (c.calendar.monthIndex (c.localAt anchor / dayLength) +
        direction.sign * amount.toNat) 1 = answer := by
  simp only [resolveDuration, if_neg nonzero, bind_ok, dateNaive_ok, Except.ok.injEq]
  have bounds := shift_bounds ⟨direction, amount, .month, .calendar⟩
  simp only [RelativeDuration.shift] at bounds
  constructor
  · rintro ⟨_, ⟨range, rfl⟩, spanned⟩
    rw [month_cast range bounds] at spanned
    exact ⟨range, spanned⟩
  · rintro ⟨range, spanned⟩
    refine ⟨_, ⟨range, rfl⟩, ?_⟩
    rw [month_cast range bounds]
    exact spanned

end Units

theorem targetDate_next (date shift : Int) {semantics : TemporalSemantics} {unit : TemporalUnit}
    {length : Int} (date_ : dated semantics unit = true) (has : unit.length = some length) :
    targetDate c date (shift + 1) unit * dayLength =
      targetDate c date shift unit * dayLength + length := by
  cases unit with
  | minute | hour => cases semantics <;> cases date_
  | day | week =>
      obtain rfl := Option.some.inj has
      simp only [targetDate, dayLength, minuteLength]
      omega
  | month | year => cases has

section Days

variable {value : RelativeDuration} {length start : Int}
  (nonzero : value.amount ≠ 0) (date : dated value.semantics value.unit = true)
  (has : value.unit.length = some length)

include nonzero date has

theorem days_stop {stop : Int}
    (resolved : resolveDuration c anchor value = .ok (some (start, some stop))) :
    stop = start + length := by
  obtain ⟨direction, amount, unit, semantics⟩ := value
  cases semantics with
  | elapsed => cases date
  | calendar =>
      cases unit with
      | minute | hour => cases date
      | month | year => cases has
      | day =>
          obtain rfl := Option.some.inj has
          exact (span_ok.mp ((resolve_day nonzero).mp resolved).2.2).2.2
      | week =>
          obtain rfl := Option.some.inj has
          exact (span_ok.mp ((resolve_week nonzero).mp resolved).2.2.2).2.2

theorem days_resolve (represents : Representable c anchor value)
    (single : c.single
      (targetDate c (c.localAt anchor / dayLength) value.shift value.unit * dayLength) =
        some start) :
    resolveDuration c anchor value = .ok (some (start, some (start + length))) := by
  obtain ⟨direction, amount, unit, semantics⟩ := value
  have represents := represents.resolve_left nonzero
  cases semantics with
  | elapsed => cases date
  | calendar =>
      cases unit with
      | minute | hour => cases date
      | month | year => cases has
      | day =>
          obtain rfl := Option.some.inj has
          obtain ⟨range, exists_, stops⟩ := represents
          exact (resolve_day nonzero).mpr
            ⟨range, exists_, span_ok.mpr ⟨single, stops start single, rfl⟩⟩
      | week =>
          obtain rfl := Option.some.inj has
          obtain ⟨range, monday, exists_, stops⟩ := represents
          exact (resolve_week nonzero).mpr
            ⟨range, monday, exists_, span_ok.mpr ⟨single, stops start single, rfl⟩⟩

end Days

end Periods

section Exact

variable {c : Clock} {anchor : Int} {value : RelativeDuration}

theorem CoversPeriod.steadyDays (covers : CoversPeriod c anchor value) :
    SteadyDays c anchor value := by
  intro nonzero represents date length start has single
  have resolved := days_resolve nonzero date has represents single
  have ends := (covers start _ resolved).2.shows
  rw [ends, targetDate_next _ _ date has, c.reads single]

theorem CoversPeriod.castsNoYear (covers : CoversPeriod c anchor value) :
    CastsNoYear c anchor value := by
  intro casts outside range fits
  have nonzero : value.amount ≠ 0 := by
    intro zero
    exact outside (by simp [RelativeDuration.shift, zero, IsI32])
  have bounds := shift_bounds value
  obtain ⟨direction, amount, unit, semantics⟩ := value
  obtain ⟨rfl, rfl⟩ := casts
  cases spanned : monthSpan c (12 * (c.calendar.monthIndex (c.localAt anchor / dayLength) / 12 +
      toI32 (RelativeDuration.shift ⟨direction, amount, .year, .calendar⟩))) 12 with
  | none => rfl
  | some answer =>
      obtain ⟨start, stop⟩ := answer
      obtain ⟨last, rfl, -⟩ := monthSpan_stop spanned
      have resolved := (resolve_year_iff nonzero).mpr ⟨range, fits, spanned⟩
      -- Two years that begin on one date are the same year.
      have same := single_date (covers start last resolved).1 (monthSpan_start spanned)
      have years := c.calendar.firstDay_inj same
      exact absurd (by omega) (toI32_ne bounds outside)

theorem dated_of_stop {start stop : Int}
    (resolved : resolveDuration c anchor value = .ok (some (start, some stop))) :
    dated value.semantics value.unit = true := by
  have nonzero := (begins_of_resolve resolved).1
  obtain ⟨direction, amount, unit, semantics⟩ := value
  simp only [resolveDuration, if_neg nonzero] at resolved
  cases semantics with
  | elapsed =>
      cases unit with
      | minute | hour | day | week => simp [TemporalUnit.length, bind_ok] at resolved
      | month | year => simp [TemporalUnit.length] at resolved
  | calendar =>
      cases unit with
      | minute | hour => simp [bind_ok] at resolved
      | day | week | month | year => rfl

theorem coversPeriod_of_steady (once : c.Once) (steady : SteadyDays c anchor value)
    (years : CastsNoYear c anchor value) : CoversPeriod c anchor value := by
  intro start stop resolved
  have date := dated_of_stop resolved
  have ⟨nonzero, begins⟩ := begins_of_resolve resolved
  have fits : value.castsYears → IsI32 value.shift := by
    intro casts
    by_contra outside
    have answer := resolve_year casts nonzero resolved
    obtain ⟨direction, amount, unit, semantics⟩ := value
    obtain ⟨rfl, rfl⟩ := casts
    obtain ⟨range, isI32, -⟩ := (resolve_year_iff nonzero).mp resolved
    rw [years ⟨rfl, rfl⟩ outside range isI32] at answer
    cases answer
  rw [effective_of_fits fits, Begins, if_pos date] at begins
  refine ⟨begins, ?_⟩
  cases has : value.unit.length with
  | some length =>
      have represents : Representable c anchor value := by
        rw [representable_iff]
        exact ⟨⟨_, resolved⟩, fun casts outside => absurd (fits casts) outside⟩
      have moved := steady nonzero represents date length start has begins
      obtain rfl := days_stop nonzero date has resolved
      rw [c.reads begins, ← targetDate_next _ _ date has] at moved
      exact ⟨moved, fun other single => (once _ _ _ single moved).symm⟩
  | none =>
      obtain ⟨direction, amount, unit, semantics⟩ := value
      cases semantics with
      | elapsed => cases date
      | calendar =>
          cases unit with
          | minute | hour | day | week => cases has
          | month =>
              obtain ⟨-, spanned⟩ := (resolve_month nonzero).mp resolved
              obtain ⟨_, ⟨⟩, ends⟩ := monthSpan_stop spanned
              rw [Int.add_assoc] at ends
              exact midnight_of_single ends
          | year =>
              obtain ⟨-, -, spanned⟩ := (resolve_year_iff nonzero).mp resolved
              obtain ⟨_, ⟨⟩, ends⟩ := monthSpan_stop spanned
              have cast : toI32 (direction.sign * amount.toNat) = direction.sign * amount.toNat :=
                toI32_of_isI32 (fits ⟨rfl, rfl⟩)
              rw [cast, show ∀ year : Int, 12 * year + 12 = 12 * (year + 1) from by intro; omega,
                Int.add_assoc] at ends
              exact midnight_of_single ends

/-- What resolves covers its period from midnight to midnight exactly when the clock is not changed
on the way through a day or a week, and no year has been cast. -/
theorem coversPeriod_iff (once : c.Once) :
    CoversPeriod c anchor value ↔ SteadyDays c anchor value ∧ CastsNoYear c anchor value :=
  ⟨fun covers => ⟨covers.steadyDays, covers.castsNoYear⟩,
    fun ⟨steady, years⟩ => coversPeriod_of_steady once steady years⟩

theorem CoversPeriod.adjacent (covers : CoversPeriod c anchor value) {next : RelativeDuration}
    (follows : CoversPeriod c anchor next) (shift : next.shift = value.shift + 1)
    (unit : next.unit = value.unit) {start stop start' stop' : Int}
    (resolved : resolveDuration c anchor value = .ok (some (start, some stop)))
    (resolved' : resolveDuration c anchor next = .ok (some (start', some stop'))) :
    stop = start' := by
  have begins := (follows start' stop' resolved').1
  rw [shift, unit] at begins
  exact ((covers start stop resolved).2.only start' begins).symm

end Exact

section Clocks

def hourLength : Int := 60 * minuteLength

def springSingle (jump time : Int) : Option Int :=
  if time < jump then some time
  else if jump + hourLength ≤ time then some (time - hourLength)
  else none

theorem springSingle_found {jump time instant : Int}
    (found : springSingle jump time = some instant) :
    time < jump ∧ instant = time ∨ jump + hourLength ≤ time ∧ instant = time - hourLength := by
  unfold springSingle at found
  split at found
  next before => exact .inl ⟨before, (Option.some.inj found).symm⟩
  next =>
    split at found
    next after => exact .inr ⟨after, (Option.some.inj found).symm⟩
    next => cases found

def springForward (jump : Int) : Clock where
  calendar := Machine.Gregorian.calendar
  localAt instant := if instant < jump then instant else instant + hourLength
  single := springSingle jump
  reads := by
    intro time instant found
    have length : 0 < hourLength := by decide
    rcases springSingle_found found with ⟨before, rfl⟩ | ⟨after, rfl⟩ <;>
      split <;> omega
  divides := by
    intro time instant found other
    have length : 0 < hourLength := by decide
    rcases springSingle_found found with ⟨before, rfl⟩ | ⟨after, rfl⟩ <;>
      split <;> omega

theorem springForward_once (jump : Int) : (springForward jump).Once := by
  intro time instant other found shown
  have length : 0 < hourLength := by decide
  simp only [springForward] at shown
  rcases springSingle_found found with ⟨before, rfl⟩ | ⟨after, rfl⟩ <;> split at shown <;> omega

theorem utc_once : utc.Once := by
  intro time instant other found shown
  exact shown.trans (Option.some.inj found)

theorem coversPeriod_iff_week : CoversPeriod utc noon ⟨.future, 1, .week, .calendar⟩ :=
  (coversPeriod_iff utc_once).mpr
    ⟨fun _ _ _ length start _ _ => rfl, fun casts => by cases casts.2⟩

-- One o'clock on 2026-03-29
def london : Clock := springForward (20541 * dayLength + hourLength)

theorem day_too_long : london.Once ∧
    ¬CoversPeriod london (20540 * dayLength + 12 * hourLength) ⟨.future, 1, .day, .calendar⟩ := by
  refine ⟨springForward_once _, fun covers => ?_⟩
  have resolved : resolveDuration london (20540 * dayLength + 12 * hourLength)
      ⟨.future, 1, .day, .calendar⟩ =
        .ok (some (20541 * dayLength, some (20542 * dayLength))) := by decide
  exact absurd (covers _ _ resolved).2.shows (by decide)

end Clocks

end Frona.Consolidate
