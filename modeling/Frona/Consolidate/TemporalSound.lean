import Frona.Consolidate.Temporal

set_option autoImplicit false

namespace Frona.Consolidate

section Claims

variable (c : Clock) (anchor : Int)

/-- There is an answer; it does not lie on the wrong side of the anchor, and no smaller amount leads
further away from it. -/
structure ResolvesSoundly (value : RelativeDuration) : Prop where
  total : ∃ answer, resolveDuration c anchor value = .ok answer
  future : value.direction = .future → ∀ start stop,
    resolveDuration c anchor value = .ok (some (start, stop)) → anchor ≤ start
  past : value.direction = .past → ∀ start stop,
    resolveDuration c anchor value = .ok (some (start, stop)) → start ≤ anchor
  grows : ∀ less ≤ value.amount, ∀ nearer stop' start stop,
    resolveDuration c anchor { value with amount := less } = .ok (some (nearer, stop')) →
    resolveDuration c anchor value = .ok (some (start, stop)) →
    (nearer - anchor).natAbs ≤ (start - anchor).natAbs

def SpanInRange (date length : Int) : Prop :=
  c.DateInRange date ∧
    ∀ start, c.single (date * dayLength) = some start → c.TimeInRange (start + length)

/-- Every instant and date that is computed on the way lies in the range of its type. A year that
does not survive the cast to `i32` turns into one that does not resolve. -/
def Representable (value : RelativeDuration) : Prop :=
  let shift := value.direction.sign * value.amount.toNat
  let date := c.localAt anchor / dayLength
  let year := c.calendar.monthIndex date / 12 + toI32 shift
  value.amount = 0 ∨
  match value.semantics, value.unit with
  | .elapsed, .month | .elapsed, .year => True
  | .elapsed, .minute => c.TimeInRange (anchor + minuteLength * shift)
  | .elapsed, .hour => c.TimeInRange (anchor + 60 * minuteLength * shift)
  | .elapsed, .day => c.TimeInRange (anchor + dayLength * shift)
  | .elapsed, .week => c.TimeInRange (anchor + 7 * dayLength * shift)
  | .calendar, .minute => c.TimeInRange (c.localAt anchor) ∧
      c.TimeInRange (anchor + minuteLength * shift)
  | .calendar, .hour => c.TimeInRange (c.localAt anchor) ∧
      c.TimeInRange (anchor + 60 * minuteLength * shift)
  | .calendar, .day => c.TimeInRange (c.localAt anchor) ∧ SpanInRange c (date + shift) dayLength
  | .calendar, .week => c.TimeInRange (c.localAt anchor) ∧
      c.DateInRange (date - daysFromMonday date) ∧
      SpanInRange c (date - daysFromMonday date + 7 * shift) (7 * dayLength)
  | .calendar, .month => c.TimeInRange (c.localAt anchor)
  | .calendar, .year => c.TimeInRange (c.localAt anchor) ∧ IsI32 year ∧
      (¬IsI32 shift → monthSpan c (12 * year) 12 = none)

end Claims

section Targets

variable {c : Clock} {anchor : Int}

def targetDate (c : Clock) (date shift : Int) : TemporalUnit → Int
  | .day => date + shift
  | .week => date - daysFromMonday date + 7 * shift
  | .month => c.calendar.firstDay (c.calendar.monthIndex date + shift)
  | .year => c.calendar.firstDay (12 * (c.calendar.monthIndex date / 12 + shift))
  | .minute | .hour => date

theorem targetDate_mono (date : Int) {less more : Int} (le : less ≤ more) (unit : TemporalUnit) :
    targetDate c date less unit ≤ targetDate c date more unit := by
  cases unit with
  | day => simp only [targetDate]; omega
  | week => simp only [targetDate]; omega
  | month => exact c.calendar.firstDay_mono (by omega)
  | year => exact c.calendar.firstDay_mono (by omega)
  | minute | hour => exact Int.le_refl _

theorem targetDate_past (date : Int) {shift : Int} (back : shift ≤ 0) (unit : TemporalUnit) :
    targetDate c date shift unit ≤ date := by
  refine (targetDate_mono date back unit).trans ?_
  cases unit with
  | day => simp [targetDate]
  | week => simp only [targetDate, daysFromMonday]; omega
  | month => simpa [targetDate] using c.calendar.firstDay_monthIndex date
  | year =>
      exact (c.calendar.firstDay_mono (by omega)).trans (c.calendar.firstDay_monthIndex date)
  | minute | hour => exact Int.le_refl _

theorem targetDate_future (date : Int) {shift : Int} (ahead : 0 < shift) {unit : TemporalUnit}
    (dated : unit ≠ .minute ∧ unit ≠ .hour) : date < targetDate c date shift unit := by
  refine lt_of_lt_of_le ?_ (targetDate_mono date (show 1 ≤ shift by omega) unit)
  cases unit with
  | day => simp [targetDate]
  | week => simp only [targetDate, daysFromMonday]; omega
  | month => exact c.calendar.lt_firstDay (by omega)
  | year => exact c.calendar.lt_firstDay (by omega)
  | minute => simp at dated
  | hour => simp at dated

theorem targetDate_back (date : Int) {shift : Int} (back : shift < 0) :
    targetDate c date shift .year < date := by
  have strict : targetDate c date shift .year < targetDate c date 0 .year :=
    c.calendar.firstDay_strict (by omega)
  exact lt_of_lt_of_le strict (targetDate_past date (Int.le_refl _) .year)

theorem localAt_bounds (c : Clock) (anchor : Int) :
    c.localAt anchor / dayLength * dayLength ≤ c.localAt anchor ∧
      c.localAt anchor < (c.localAt anchor / dayLength + 1) * dayLength := by
  simp only [dayLength, minuteLength]
  omega

theorem start_le_anchor {date start : Int} (found : c.single (date * dayLength) = some start)
    (earlier : date ≤ c.localAt anchor / dayLength) : start ≤ anchor := by
  rw [c.divides found]
  have bounds := localAt_bounds c anchor
  have : date * dayLength ≤ c.localAt anchor / dayLength * dayLength :=
    Int.mul_le_mul_of_nonneg_right earlier (by decide)
  omega

theorem anchor_lt_start {date start : Int} (found : c.single (date * dayLength) = some start)
    (later : c.localAt anchor / dayLength < date) : anchor < start := by
  by_contra before
  have reached := (c.divides found anchor).mp (by omega)
  have bounds := localAt_bounds c anchor
  have : (c.localAt anchor / dayLength + 1) * dayLength ≤ date * dayLength :=
    Int.mul_le_mul_of_nonneg_right later (by decide)
  omega

theorem start_lt_anchor {date start : Int} (found : c.single (date * dayLength) = some start)
    (earlier : date < c.localAt anchor / dayLength) : start < anchor := by
  have le := start_le_anchor found earlier.le
  have reads := c.reads found
  have bounds := localAt_bounds c anchor
  have : date * dayLength + dayLength ≤ c.localAt anchor / dayLength * dayLength := by
    have := Int.mul_le_mul_of_nonneg_right (show date + 1 ≤ _ from earlier)
      (show 0 ≤ dayLength by decide)
    rwa [Int.add_mul, Int.one_mul] at this
  have length : 0 < dayLength := by decide
  rcases Int.lt_or_eq_of_le le with before | rfl
  · exact before
  · omega

theorem start_mono {date later start start' : Int}
    (found : c.single (date * dayLength) = some start)
    (found' : c.single (later * dayLength) = some start') (le : date ≤ later) :
    start ≤ start' := by
  rw [c.divides found, c.reads found']
  exact Int.mul_le_mul_of_nonneg_right le (by decide)

end Targets

end Frona.Consolidate
