import ShedKernel.Foundation.Calendar
import ShedKernel.Time.Mktime
import Mathlib.Tactic.IntervalCases

/-! `kernel_mktime` against the Gregorian calendar, over all seconds that fit in a
32-bit `long` from 1970 on. -/

set_option autoImplicit false

namespace ShedKernel.Time

open Foundation

/-- The `struct tm` of a date: years from 1900 on, months from 0 on. -/
def Tm.ofDate (date : DateTime) : Tm where
  tmSec := date.second
  tmMin := date.minute
  tmHour := date.hour
  tmMday := date.day
  tmMon := date.month - 1
  tmYear := date.year - 1900

/-- The first second of the Unix time. -/
def epoch : DateTime := ⟨1970, 1, 1, 0, 0, 0, by decide, by decide, by decide, by decide, by decide⟩

/-- The last second that a 32-bit `long` can count. -/
def lastSecond : DateTime :=
  ⟨2038, 1, 19, 3, 14, 7, by decide, by decide, by decide, by decide, by decide⟩

/-- The 29th of February that the table counts and the calendar does not. -/
def surplusDay (date : DateTime) : Nat := if 2 < date.month ∧ ¬IsLeapYear date.year then 1 else 0

/-- The days by which `kernel_mktime` is wrong. -/
def leapError (date : DateTime) : Int :=
  if date.month ≤ 2 ∨ date.year % 2 = 1 then 0
  else if IsLeapYear date.year then -1
  else 1

private theorem int32_of_bounds {value : Int} (low : -2147483648 ≤ value) (high : value < 2147483648) :
    int32 value = some value := if_pos ⟨low, high⟩

private theorem int32_bind {value : Int} (low : -2147483648 ≤ value) (high : value < 2147483648)
    (next : Int → Option Int) : (int32 value).bind next = next value := by
  rw [int32_of_bounds low high, Option.bind_some]

/-- No full century but 2000 falls into these years. -/
theorem isLeapYear_iff {year : Nat} (low : 1970 ≤ year) (high : year < 2100) :
    IsLeapYear year ↔ year % 4 = 0 := by
  unfold IsLeapYear
  omega

private theorem sum_daysInYear {year : Nat} (low : 1970 ≤ year) :
    year ≤ 2100 → ∑ y ∈ Finset.Ico 1970 year, daysInYear y =
      365 * (year - 1970) + (year - 1970 + 1) / 4 := by
  induction year, low using Nat.le_induction with
  | base => exact fun _ => rfl
  | succ year low ih =>
    intro high
    have leap := isLeapYear_iff low high
    rw [Finset.sum_Ico_succ_top low, ih (Nat.le_of_succ_le high)]
    unfold daysInYear
    by_cases fourth : year % 4 = 0
    · rw [if_pos (leap.mpr fourth)]
      omega
    · rw [if_neg fun isLeap => fourth (leap.mp isLeap)]
      omega

private theorem surplusDay_le (date : DateTime) :
    surplusDay date ≤ 1 ∧ (date.month = 1 → surplusDay date = 0) := by
  unfold surplusDay
  refine ⟨?_, fun first => if_neg (by omega)⟩
  split <;> omega

private theorem leapError_bounds (date : DateTime) :
    -1 ≤ leapError date ∧ leapError date ≤ 1 ∧ (date.month = 1 → leapError date = 0) := by
  unfold leapError
  split
  · omega
  split <;> omega

/-- The table counts 29 days for every February. -/
theorem month_eq (date : DateTime) :
    month ((date.month : Int) - 1) = some (DAY *
      (∑ k ∈ Finset.Ico 1 date.month, daysInMonth date.year k + surplusDay date : Nat)) := by
  obtain ⟨low, high⟩ := date.month_valid
  unfold surplusDay
  generalize date.month = m at *
  by_cases leap : IsLeapYear date.year
  · interval_cases m <;> simp [Finset.sum_Ico_succ_top, daysInMonth, leap] <;> rfl
  · interval_cases m <;> simp [Finset.sum_Ico_succ_top, daysInMonth, leap] <;> rfl

/-- What `subtractDay` leaves of the table's 29 days. -/
theorem subtractDay_eq {date : DateTime} {res : Int} (low : 1970 ≤ date.year)
    (high : date.year < 2100) (notNegative : 0 ≤ res) (small : res < 2147483648) :
    subtractDay (.ofDate date) (date.year - 1900 - 70) res =
      some (res + (DAY * leapError date - DAY * surplusDay date)) := by
  have leap := isLeapYear_iff low high
  unfold subtractDay
  by_cases early : date.month ≤ 2
  · have surplus : surplusDay date = 0 := if_neg (by omega)
    have right : leapError date = 0 := if_pos (.inl early)
    rw [if_neg (by simp only [Tm.ofDate]; omega), surplus, right]
    simp
  have late : 2 < date.month := by omega
  rw [if_pos (by simp only [Tm.ofDate]; omega),
    int32_of_bounds (by omega) (by omega), Option.bind_eq_bind, Option.bind_some,
    Int.tmod_eq_emod_of_nonneg (by omega)]
  -- the test spares every second even year, but not those with a leap day
  by_cases spared : ((date.year : Int) - 1900 - 70 + 4) % 4 = 0
  · have common : ¬IsLeapYear date.year := fun isLeap => by have := leap.mp isLeap; omega
    have surplus : surplusDay date = 1 := if_pos ⟨late, common⟩
    have wrong : leapError date = 1 := (if_neg (by omega)).trans (if_neg common)
    rw [if_neg (not_not.mpr spared), surplus, wrong]
    simp
  rw [if_pos spared, int32_of_bounds (by unfold DAY HOUR MINUTE; omega)
    (by unfold DAY HOUR MINUTE; omega)]
  by_cases odd : date.year % 2 = 1
  · have common : ¬IsLeapYear date.year := fun isLeap => by have := leap.mp isLeap; omega
    have surplus : surplusDay date = 1 := if_pos ⟨late, common⟩
    have right : leapError date = 0 := if_pos (.inr odd)
    rw [surplus, right]
    simp [Int.sub_eq_add_neg]
  · have isLeap : IsLeapYear date.year := leap.mpr (by omega)
    have surplus : surplusDay date = 0 := if_neg fun both => both.2 isLeap
    have wrong : leapError date = -1 := (if_neg (by omega)).trans (if_pos isLeap)
    rw [surplus, wrong]
    simp [Int.sub_eq_add_neg]

/-- The year, and what the last year leaves of the months and of the days. -/
theorem year_of_le_lastSecond {date : DateTime} (ordered : date ≤ lastSecond) :
    date.year ≤ 2038 ∧ (date.year = 2038 → date.month = 1) := by
  have fields : ¬lastSecond.fields < date.fields := ordered
  have month := date.month_valid
  simp only [DateTime.fields, List.cons_lt_cons_iff, lastSecond] at fields
  omega

/-- The seconds of a date, with the leap days of the past years counted by division. -/
theorem secondsSince_eq {date : DateTime} (low : 1970 ≤ date.year) (high : date.year ≤ 2100) :
    (date.secondsSince 1970 : Int) =
      YEAR * (date.year - 1900 - 70) + DAY * (((date.year : Int) - 1900 - 70 + 1) / 4) +
        DAY * (∑ k ∈ Finset.Ico 1 date.month, daysInMonth date.year k : Nat) +
        DAY * (date.day - 1) + HOUR * date.hour + MINUTE * date.minute + date.second := by
  have day := date.day_valid
  unfold DateTime.secondsSince DateTime.dayOfYear DateTime.secondOfDay YEAR DAY HOUR MINUTE
  rw [sum_daysInYear low high]
  omega

/-- No step overflows when the sums up to the month and up to the second fit. -/
theorem kernelMktime_of_bounds {tm : Tm} {start correction : Int} (year : 70 ≤ tm.tmYear)
    (table : month tm.tmMon = some start) (notNegative : 0 ≤ start)
    (small : YEAR * (tm.tmYear - 70) + DAY * ((tm.tmYear - 70 + 1) / 4) + start < 2147483648)
    (corrected : ∀ res, 0 ≤ res → res < 2147483648 →
      subtractDay tm (tm.tmYear - 70) res = some (res + correction))
    (least : -2 * DAY ≤ correction) (day : 1 ≤ tm.tmMday ∧ tm.tmMday ≤ 31)
    (hour : 0 ≤ tm.tmHour ∧ tm.tmHour < 24) (minute : 0 ≤ tm.tmMin ∧ tm.tmMin < 60)
    (second : 0 ≤ tm.tmSec)
    (fits : YEAR * (tm.tmYear - 70) + DAY * ((tm.tmYear - 70 + 1) / 4) + start + correction +
      DAY * (tm.tmMday - 1) + HOUR * tm.tmHour + MINUTE * tm.tmMin + tm.tmSec < 2147483648) :
    kernelMktime tm = some (YEAR * (tm.tmYear - 70) + DAY * ((tm.tmYear - 70 + 1) / 4) + start +
      correction + DAY * (tm.tmMday - 1) + HOUR * tm.tmHour + MINUTE * tm.tmMin + tm.tmSec) := by
  unfold YEAR DAY HOUR MINUTE at *
  unfold kernelMktime YEAR DAY HOUR MINUTE
  simp only [Option.bind_eq_bind]
  rw [int32_bind (by omega) (by omega), int32_bind (by omega) (by omega),
    int32_bind (by omega) (by omega), Int.tdiv_eq_ediv_of_nonneg (by omega),
    int32_bind (by omega) (by omega), int32_bind (by omega) (by omega), table, Option.bind_some,
    int32_bind (by omega) (by omega), corrected _ (by omega) (by omega), Option.bind_some,
    int32_bind (by omega) (by omega), int32_bind (by omega) (by omega),
    int32_bind (by omega) (by omega), int32_bind (by omega) (by omega),
    int32_bind (by omega) (by omega), int32_bind (by omega) (by omega),
    int32_bind (by omega) (by omega), int32_of_bounds (by omega) (by omega)]

/-- In range, nothing overflows, and the result is off by whole days. -/
theorem kernelMktime_eq (date : DateTime) (low : 1970 ≤ date.year) (high : date ≤ lastSecond) :
    kernelMktime (.ofDate date) = some (date.secondsSince 1970 + DAY * leapError date) := by
  have year := year_of_le_lastSecond high
  have seconds := secondsSince_eq low (by omega)
  have final : date.secondsSince 1970 ≤ 2147483647 := DateTime.secondsSince_le low high
  have inYear := Nat.lt_of_lt_of_le date.dayOfYear_lt (daysInYear_le date.year)
  have surplus := surplusDay_le date
  have wrong := leapError_bounds date
  have corrected := fun res => @subtractDay_eq date res low (by omega)
  have table := month_eq date
  have day := date.day_valid.1
  have lastDay := Nat.le_trans date.day_valid.2 (daysInMonth_le _ _)
  have hour := date.hour_valid
  have minute := date.minute_valid
  have second := date.second_valid
  have january : date.month = 1 → ∑ k ∈ Finset.Ico 1 date.month, daysInMonth date.year k = 0 :=
    fun first => by rw [first, Finset.Ico_self, Finset.sum_empty]
  unfold DateTime.dayOfYear at inYear
  generalize ∑ k ∈ Finset.Ico 1 date.month, daysInMonth date.year k = months at *
  have result := @kernelMktime_of_bounds (.ofDate date) _ _ (by simp only [Tm.ofDate]; omega) table
    (by unfold DAY HOUR MINUTE; omega) (by simp only [Tm.ofDate, YEAR, DAY, HOUR, MINUTE]; omega)
    corrected (by unfold DAY HOUR MINUTE; omega) (by simp only [Tm.ofDate]; omega)
    (by simp only [Tm.ofDate]; omega) (by simp only [Tm.ofDate]; omega)
    (by simp only [Tm.ofDate]; omega)
    (by simp only [Tm.ofDate, YEAR, DAY, HOUR, MINUTE] at seconds ⊢; omega)
  rw [result, seconds]
  simp only [Tm.ofDate, YEAR, DAY, HOUR, MINUTE]
  congr 1
  omega

/-- The first second of a day. -/
def midnight (year month day : Nat) (month_valid : 1 ≤ month ∧ month ≤ 12)
    (day_valid : 1 ≤ day ∧ day ≤ daysInMonth year month) : DateTime :=
  ⟨year, month, day, 0, 0, 0, month_valid, day_valid, by decide, by decide, by decide⟩

/-- The result is the number of seconds. -/
def MktimeExact (date : DateTime) : Prop :=
  kernelMktime (.ofDate date) = some (date.secondsSince 1970 : Int)

/-- Up to the last second that fits, the result is right in January, in February and in odd
years and in no other month, and the right results are in the order of the dates. -/
theorem kernel_mktime_exact_iff (date : DateTime) (low : epoch ≤ date) (high : date ≤ lastSecond) :
    (∃ res, kernelMktime (.ofDate date) = some res) ∧
      (MktimeExact date ↔ date.month ≤ 2 ∨ date.year % 2 = 1) ∧
      ∀ later, date < later → MktimeExact date → MktimeExact later →
        ∃ res laterRes, kernelMktime (.ofDate date) = some res ∧
          kernelMktime (.ofDate later) = some laterRes ∧ res < laterRes := by
  have year : 1970 ≤ date.year := by
    have fields : ¬date.fields < epoch.fields := low
    simp only [DateTime.fields, List.cons_lt_cons_iff, epoch] at fields
    omega
  have result := kernelMktime_eq date year high
  refine ⟨⟨_, result⟩, ?_, fun later earlier exact exactLater => ?_⟩
  · unfold MktimeExact
    rw [result, Option.some.injEq]
    unfold leapError DAY HOUR MINUTE
    split
    · next right => exact iff_of_true (by omega) right
    · next wrong =>
      refine iff_of_false (fun same => ?_) wrong
      split at same <;> omega
  · exact ⟨_, _, exact, exactLater, Int.ofNat_lt.mpr (DateTime.secondsSince_lt year earlier)⟩

/-- The first second of March of a leap year and of an odd year. -/
theorem kernel_mktime_exact_march :
    (∃ res, kernelMktime (.ofDate (midnight 1972 3 1 (by decide) (by decide))) = some res) ∧
      ¬MktimeExact (midnight 1972 3 1 (by decide) (by decide)) ∧
      MktimeExact (midnight 1973 3 1 (by decide) (by decide)) := by
  have leap := kernel_mktime_exact_iff (midnight 1972 3 1 (by decide) (by decide))
    (by decide) (by decide)
  have odd := kernel_mktime_exact_iff (midnight 1973 3 1 (by decide) (by decide))
    (by decide) (by decide)
  exact ⟨leap.1, fun exact => absurd (leap.2.1.mp exact) (by decide), odd.2.1.mpr (by decide)⟩

/-- In the first year, the last of February and the first of March are two days apart. -/
theorem kernel_mktime_first_march :
    ¬∀ date, epoch ≤ date → date ≤ lastSecond → MktimeExact date := by
  intro exact
  have march := exact (midnight 1970 3 1 (by decide) (by decide)) (by decide) (by decide)
  exact absurd march (by unfold MktimeExact; decide)

end ShedKernel.Time
