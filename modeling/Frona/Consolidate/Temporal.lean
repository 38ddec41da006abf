import Frona.Machine.Calendar
import Mathlib.Tactic.Linarith

set_option autoImplicit false

namespace Frona.Consolidate

open Machine (MonthCalendar)

inductive TemporalDirection where
  | past | present | future

inductive TemporalUnit where
  | minute | hour | day | week | month | year
  deriving DecidableEq

inductive TemporalSemantics where
  | elapsed | calendar
  deriving DecidableEq

structure RelativeDuration where
  direction : TemporalDirection
  amount : UInt32
  unit : TemporalUnit
  semantics : TemporalSemantics

structure Clock where
  calendar : MonthCalendar
  /-- The local time at an instant. -/
  localAt : Int → Int
  /-- The instant of a local time that there is just once. -/
  single : Int → Option Int
  reads : ∀ {time instant}, single time = some instant → localAt instant = time
  /-- Before that instant the clock shows earlier times, and from then on no earlier ones. -/
  divides : ∀ {time instant}, single time = some instant →
    ∀ other, instant ≤ other ↔ time ≤ localAt other

def minuteLength : Int := 60 * 1000000000

def dayLength : Int := 24 * 60 * minuteLength

-- The years of `NaiveDate`.
def minYear : Int := -262143

def maxYear : Int := 262142

inductive Panic where
  | instant
  | localTime
  | date
  | overflow
  deriving DecidableEq

namespace Clock

variable (c : Clock)

def minDay : Int := c.calendar.firstDay (12 * minYear)

def maxDay : Int := c.calendar.firstDay (12 * (maxYear + 1)) - 1

def DateInRange (date : Int) : Prop := c.minDay ≤ date ∧ date ≤ c.maxDay

/-- `MIN_UTC` and `MAX_UTC` bound the instants, and the same bounds hold for local times. -/
def TimeInRange (time : Int) : Prop :=
  c.minDay * dayLength ≤ time ∧ time < (c.maxDay + 1) * dayLength

instance (date : Int) : Decidable (c.DateInRange date) := inferInstanceAs (Decidable (_ ∧ _))

instance (time : Int) : Decidable (c.TimeInRange time) := inferInstanceAs (Decidable (_ ∧ _))

def plus (instant length : Int) : Except Panic Int :=
  if c.TimeInRange (instant + length) then .ok (instant + length) else .error .instant

def addDays (date days : Int) : Except Panic Int :=
  if c.DateInRange (date + days) then .ok (date + days) else .error .date

def dateNaive (instant : Int) : Except Panic Int :=
  if c.TimeInRange (c.localAt instant) then .ok (c.localAt instant / dayLength)
  else .error .localTime

/-- `from_ymd_opt` for the first day of a month, and the instant at which that begins. -/
def monthStart (index : Int) : Option Int :=
  if minYear ≤ index / 12 ∧ index / 12 ≤ maxYear then
    c.single (c.calendar.firstDay index * dayLength)
  else none

end Clock

-- `as i32`
def toI32 (value : Int) : Int := value.bmod (2 ^ 32)

def IsI32 (value : Int) : Prop := -2 ^ 31 ≤ value ∧ value < 2 ^ 31

instance (value : Int) : Decidable (IsI32 value) := inferInstanceAs (Decidable (_ ∧ _))

def TemporalDirection.sign : TemporalDirection → Int
  | past => -1
  | present => 0
  | future => 1

def TemporalUnit.length : TemporalUnit → Option Int
  | minute => some minuteLength
  | hour => some (60 * minuteLength)
  | day => some dayLength
  | week => some (7 * dayLength)
  | month | year => none

def daysFromMonday (date : Int) : Int := (date + 3) % 7

section Resolve

variable (c : Clock) (anchor : Int)

abbrev Resolved := Option (Int × Option Int)

def span (date length : Int) : Except Panic Resolved :=
  match c.single (date * dayLength) with
  | some start => do
      let stop ← c.plus start length
      .ok (some (start, some stop))
  | none => .ok none

def monthSpan (index months : Int) : Resolved :=
  match c.monthStart index with
  | some start =>
      match c.monthStart (index + months) with
      | some stop => if c.TimeInRange stop then some (start, some stop) else none
      | none => none
  | none => none

def resolveDuration (value : RelativeDuration) : Except Panic Resolved :=
  let shift := value.direction.sign * value.amount.toNat
  if value.amount = 0 then .ok none
  else match value.semantics with
    | .elapsed =>
        match value.unit.length with
        | none => .ok none
        | some length => do
            let start ← c.plus anchor (value.amount.toNat * length * value.direction.sign)
            .ok (some (start, none))
    | .calendar => do
        let date ← c.dateNaive anchor
        match value.unit with
        | .week => do
            let monday ← c.addDays date (-daysFromMonday date)
            let startDate ← c.addDays monday (7 * shift)
            span c startDate (7 * dayLength)
        | .day => do
            let startDate ← c.addDays date shift
            span c startDate dayLength
        | .month =>
            let index := c.calendar.monthIndex date + shift
            .ok (monthSpan c (12 * toI32 (index / 12) + index % 12) 1)
        | .year =>
            let year := c.calendar.monthIndex date / 12 + toI32 shift
            if IsI32 year then .ok (monthSpan c (12 * year) 12) else .error .overflow
        | .hour => do
            let start ← c.plus anchor (value.amount.toNat * (60 * minuteLength) * value.direction.sign)
            .ok (some (start, none))
        | .minute => do
            let start ← c.plus anchor (value.amount.toNat * minuteLength * value.direction.sign)
            .ok (some (start, none))

end Resolve

section Clocks

def utc : Clock where
  calendar := Machine.Gregorian.calendar
  localAt instant := instant
  single time := some time
  reads same := (Option.some.inj same).symm
  divides same other := by rw [Option.some.inj same]

-- Noon of 2026-03-01
def noon : Int := 20513 * dayLength + 12 * 60 * minuteLength

end Clocks

end Frona.Consolidate
