import Mathlib.Algebra.BigOperators.Intervals
import Mathlib.Algebra.Order.BigOperators.Group.Finset
import Mathlib.Order.Interval.Finset.Nat

/-! Dates of the Gregorian calendar, their order, and the seconds between the beginning
of a year and a later date. -/

set_option autoImplicit false

namespace ShedKernel.Foundation

/-- Every fourth year, except the full centuries that 400 does not divide. -/
def IsLeapYear (year : Nat) : Prop := year % 4 = 0 ∧ (year % 100 = 0 → year % 400 = 0)

instance (year : Nat) : Decidable (IsLeapYear year) := by
  unfold IsLeapYear
  infer_instance

def daysInYear (year : Nat) : Nat := if IsLeapYear year then 366 else 365

/-- The months are counted from 1. -/
def daysInMonth (year month : Nat) : Nat :=
  if month = 2 then if IsLeapYear year then 29 else 28
  else if month ∈ [4, 6, 9, 11] then 30
  else 31

structure DateTime where
  year : Nat
  month : Nat
  day : Nat
  hour : Nat
  minute : Nat
  second : Nat
  month_valid : 1 ≤ month ∧ month ≤ 12
  day_valid : 1 ≤ day ∧ day ≤ daysInMonth year month
  hour_valid : hour < 24
  minute_valid : minute < 60
  second_valid : second < 60

namespace DateTime

/-- The fields from the most significant one on. -/
def fields (date : DateTime) : List Nat :=
  [date.year, date.month, date.day, date.hour, date.minute, date.second]

instance : LT DateTime := ⟨fun date later => date.fields < later.fields⟩

instance : LE DateTime := ⟨fun date later => ¬later < date⟩

instance (date later : DateTime) : Decidable (date < later) :=
  inferInstanceAs (Decidable (date.fields < later.fields))

instance (date later : DateTime) : Decidable (date ≤ later) :=
  inferInstanceAs (Decidable ¬later < date)

/-- Days of the same year before this one. -/
def dayOfYear (date : DateTime) : Nat :=
  ∑ month ∈ Finset.Ico 1 date.month, daysInMonth date.year month + (date.day - 1)

def secondOfDay (date : DateTime) : Nat := 3600 * date.hour + 60 * date.minute + date.second

/-- Seconds since the beginning of the year `origin`. -/
def secondsSince (origin : Nat) (date : DateTime) : Nat :=
  86400 * (∑ year ∈ Finset.Ico origin date.year, daysInYear year + date.dayOfYear) +
    date.secondOfDay

end DateTime

theorem daysInYear_le (year : Nat) : daysInYear year ≤ 366 := by
  unfold daysInYear
  split <;> omega

theorem daysInMonth_le (year month : Nat) : daysInMonth year month ≤ 31 := by
  unfold daysInMonth
  split
  · split <;> omega
  · split <;> omega

theorem sum_daysInMonth (year : Nat) :
    ∑ month ∈ Finset.Ico 1 13, daysInMonth year month = daysInYear year := by
  by_cases leap : IsLeapYear year
  · simp [Finset.sum_Ico_succ_top, daysInMonth, daysInYear, leap]
  · simp [Finset.sum_Ico_succ_top, daysInMonth, daysInYear, leap]

/-- The whole of an earlier period lies before a later one. -/
theorem sum_Ico_add_le (length : Nat → Nat) {origin first second : Nat} (low : origin ≤ first)
    (earlier : first < second) :
    ∑ period ∈ Finset.Ico origin first, length period + length first ≤
      ∑ period ∈ Finset.Ico origin second, length period := by
  rw [← Finset.sum_Ico_succ_top low]
  exact Finset.sum_le_sum_of_subset (Finset.Ico_subset_Ico_right earlier)

namespace DateTime

theorem secondOfDay_lt (date : DateTime) : date.secondOfDay < 86400 := by
  have hour := date.hour_valid
  have minute := date.minute_valid
  have second := date.second_valid
  unfold secondOfDay
  omega

theorem dayOfYear_lt_month (date : DateTime) {later : Nat} (earlier : date.month < later) :
    date.dayOfYear < ∑ month ∈ Finset.Ico 1 later, daysInMonth date.year month := by
  have day := date.day_valid
  have month := sum_Ico_add_le (daysInMonth date.year) date.month_valid.1 earlier
  unfold dayOfYear
  omega

theorem dayOfYear_lt (date : DateTime) : date.dayOfYear < daysInYear date.year := by
  rw [← sum_daysInMonth]
  exact date.dayOfYear_lt_month (Nat.lt_succ_of_le date.month_valid.2)

/-- Later dates are more seconds away. -/
theorem secondsSince_lt {origin : Nat} {date later : DateTime} (begun : origin ≤ date.year)
    (earlier : date < later) : date.secondsSince origin < later.secondsSince origin := by
  have ordered : date.fields < later.fields := earlier
  simp only [fields, List.cons_lt_cons_iff, List.lt_irrefl, and_false, or_false] at ordered
  have inDay := date.secondOfDay_lt
  unfold secondsSince
  rcases ordered with year | ⟨year, month | ⟨month, day | ⟨day, time⟩⟩⟩
  · have years := sum_Ico_add_le daysInYear begun year
    have inYear := date.dayOfYear_lt
    omega
  · have inMonth := date.dayOfYear_lt_month month
    have days : date.dayOfYear < later.dayOfYear := by
      rw [year] at inMonth
      exact Nat.lt_of_lt_of_le inMonth (Nat.le_add_right _ _)
    rw [year]
    omega
  · have first := date.day_valid
    have days : date.dayOfYear < later.dayOfYear := by
      unfold dayOfYear
      rw [year, month]
      omega
    rw [year]
    omega
  · have days : date.dayOfYear = later.dayOfYear := by
      unfold dayOfYear
      rw [year, month, day]
    have minute := date.minute_valid
    have second := date.second_valid
    have seconds : date.secondOfDay < later.secondOfDay := by
      unfold secondOfDay
      omega
    rw [year, days]
    omega

theorem secondsSince_le {origin : Nat} {date later : DateTime} (begun : origin ≤ date.year)
    (ordered : date ≤ later) : date.secondsSince origin ≤ later.secondsSince origin := by
  by_cases earlier : date < later
  · exact Nat.le_of_lt (secondsSince_lt begun earlier)
  · have same : date.fields = later.fields := List.le_antisymm ordered (List.not_lt.mp earlier)
    simp only [fields, List.cons.injEq, and_true] at same
    obtain ⟨year, month, day, hour, minute, second⟩ := same
    unfold secondsSince dayOfYear secondOfDay
    rw [year, month, day, hour, minute, second]

end DateTime

end ShedKernel.Foundation
