import Mathlib.Order.Monotone.Basic
import Mathlib.Algebra.Order.Ring.Int

set_option autoImplicit false

namespace Machine

structure MonthCalendar where
  firstDay : Int → Int
  monthIndex : Int → Int
  grows : ∀ index, firstDay index < firstDay (index + 1)
  opens : ∀ index day, index ≤ monthIndex day ↔ firstDay index ≤ day

namespace MonthCalendar

variable (c : MonthCalendar)

theorem firstDay_mono {a b : Int} (le : a ≤ b) : c.firstDay a ≤ c.firstDay b :=
  (c.opens a _).mp (le.trans ((c.opens b _).mpr (Int.le_refl _)))

theorem firstDay_strict {a b : Int} (lt : a < b) : c.firstDay a < c.firstDay b :=
  lt_of_lt_of_le (c.grows a) (c.firstDay_mono lt)

theorem firstDay_inj {a b : Int} (same : c.firstDay a = c.firstDay b) : a = b := by
  rcases Int.lt_trichotomy a b with before | rfl | after
  · exact absurd same (c.firstDay_strict before).ne
  · rfl
  · exact absurd same (c.firstDay_strict after).ne'

theorem firstDay_monthIndex (day : Int) : c.firstDay (c.monthIndex day) ≤ day :=
  (c.opens _ day).mp (Int.le_refl _)

theorem lt_firstDay {index day : Int} (later : c.monthIndex day < index) :
    day < c.firstDay index := by
  by_contra open_
  have := (c.opens index day).mpr (by omega)
  omega

end MonthCalendar

namespace Gregorian

def yearDays (year : Int) : Int := 365 * year + year / 4 - year / 100 + year / 400

-- The months of such a year have 31 or 30 days in turn, but for the last one.
def monthDays (month : Int) : Int := (153 * month + 2) / 5

def firstDay (index : Int) : Int :=
  yearDays ((index - 2) / 12) + monthDays ((index - 2) % 12) - 719468

def yearOf (day : Int) : Int :=
  let estimate := day * 400 / 146097
  if day < yearDays estimate then estimate - 1
  else if yearDays (estimate + 1) ≤ day then estimate + 1
  else estimate

def monthIndex (day : Int) : Int :=
  let year := yearOf (day + 719468)
  12 * year + (5 * (day + 719468 - yearDays year) + 2) / 153 + 2

theorem yearDays_bounds (year : Int) :
    146097 * year - 699 ≤ 400 * yearDays year ∧ 400 * yearDays year ≤ 146097 * year + 396 := by
  unfold yearDays
  omega

theorem yearDays_step (year : Int) :
    yearDays year + 365 ≤ yearDays (year + 1) ∧ yearDays (year + 1) ≤ yearDays year + 366 := by
  unfold yearDays
  omega

theorem yearOf_spec (day : Int) :
    yearDays (yearOf day) ≤ day ∧ day < yearDays (yearOf day + 1) := by
  have before := yearDays_bounds (day * 400 / 146097 - 1)
  have after := yearDays_bounds (day * 400 / 146097 + 1 + 1)
  unfold yearOf
  generalize estimated : day * 400 / 146097 = estimate at before after ⊢
  dsimp only
  split
  next early =>
    rw [Int.sub_add_cancel]
    omega
  next =>
    split
    next => omega
    next => omega

theorem firstDay_step (index : Int) : firstDay index < firstDay (index + 1) := by
  have step := yearDays_step ((index - 2) / 12)
  unfold firstDay
  by_cases last : (index - 2) % 12 = 11
  next =>
    have year : (index + 1 - 2) / 12 = (index - 2) / 12 + 1 := by omega
    have month : (index + 1 - 2) % 12 = 0 := by omega
    rw [year, month, last]
    unfold monthDays
    omega
  next =>
    have year : (index + 1 - 2) / 12 = (index - 2) / 12 := by omega
    have month : (index + 1 - 2) % 12 = (index - 2) % 12 + 1 := by omega
    rw [year, month]
    unfold monthDays
    omega

theorem firstDay_mono {a b : Int} (le : a ≤ b) : firstDay a ≤ firstDay b :=
  monotone_int_of_le_succ (fun index => (firstDay_step index).le) le

theorem monthIndex_spec (day : Int) :
    firstDay (monthIndex day) ≤ day ∧ day < firstDay (monthIndex day + 1) := by
  have spec := yearOf_spec (day + 719468)
  have step := yearDays_step (yearOf (day + 719468))
  unfold monthIndex
  dsimp only
  generalize yearOf (day + 719468) = year at spec step ⊢
  generalize from_ : day + 719468 - yearDays year = since
  have month : 0 ≤ (5 * since + 2) / 153 ∧ (5 * since + 2) / 153 ≤ 11 := by omega
  generalize counted : (5 * since + 2) / 153 = m at month ⊢
  constructor
  next =>
    unfold firstDay
    rw [show (12 * year + m + 2 - 2) / 12 = year by omega,
      show (12 * year + m + 2 - 2) % 12 = m by omega]
    unfold monthDays
    omega
  next =>
    unfold firstDay
    by_cases last : m = 11
    next =>
      rw [show (12 * year + m + 2 + 1 - 2) / 12 = year + 1 by omega,
        show (12 * year + m + 2 + 1 - 2) % 12 = 0 by omega]
      unfold monthDays
      omega
    next =>
      rw [show (12 * year + m + 2 + 1 - 2) / 12 = year by omega,
        show (12 * year + m + 2 + 1 - 2) % 12 = m + 1 by omega]
      unfold monthDays
      omega

def calendar : MonthCalendar where
  firstDay := firstDay
  monthIndex := monthIndex
  grows := firstDay_step
  opens index day := by
    have spec := monthIndex_spec day
    constructor
    next =>
      intro le
      exact (firstDay_mono le).trans spec.1
    next =>
      intro open_
      by_contra later
      have := firstDay_mono (show monthIndex day + 1 ≤ index by omega)
      omega

example : firstDay (12 * 2024 + 2) = 19783 ∧ monthIndex 19782 = 12 * 2024 + 1 := by decide

end Gregorian

end Machine
