import Mathlib.Data.Int.Init

/-! `kernel_mktime` of `time.c`. An `int` and a `long` have 32 bits, and a signed
operation that overflows has no result. -/

set_option autoImplicit false

namespace ShedKernel.Time

/-- The fields of `struct tm` that `kernel_mktime` reads. -/
structure Tm where
  tmSec : Int
  tmMin : Int
  tmHour : Int
  tmMday : Int
  tmMon : Int
  tmYear : Int

def MINUTE : Int := 60

def HOUR : Int := MINUTE * 60

def DAY : Int := 24 * HOUR

def YEAR : Int := 365 * DAY

/-- The table `month`. -/
def monthTable : List Int :=
  [0, 31, 31 + 29, 31 + 29 + 31, 31 + 29 + 31 + 30, 31 + 29 + 31 + 30 + 31,
    31 + 29 + 31 + 30 + 31 + 30, 31 + 29 + 31 + 30 + 31 + 30 + 31,
    31 + 29 + 31 + 30 + 31 + 30 + 31 + 31, 31 + 29 + 31 + 30 + 31 + 30 + 31 + 31 + 30,
    31 + 29 + 31 + 30 + 31 + 30 + 31 + 31 + 30 + 31,
    31 + 29 + 31 + 30 + 31 + 30 + 31 + 31 + 30 + 31 + 30].map (DAY * ·)

/-- The entry of `month`, if the index is inside the table. -/
def month (tmMon : Int) : Option Int := if tmMon < 0 then none else monthTable[tmMon.toNat]?

/-- The result of a signed operation, unless it overflows. -/
def int32 (value : Int) : Option Int :=
  if -2147483648 ≤ value ∧ value < 2147483648 then some value else none

/-- The correction for the years without a leap day. -/
def subtractDay (tm : Tm) (year res : Int) : Option Int :=
  if 1 < tm.tmMon then do
    let shifted ← int32 (year + 4)
    if shifted.tmod 4 ≠ 0 then int32 (res - DAY) else some res
  else some res

def kernelMktime (tm : Tm) : Option Int := do
  let year ← int32 (tm.tmYear - 70)
  let years ← int32 (YEAR * year)
  let next ← int32 (year + 1)
  let leapDays ← int32 (DAY * next.tdiv 4)
  let res ← int32 (years + leapDays)
  let months ← month tm.tmMon
  let res ← int32 (res + months)
  let res ← subtractDay tm year res
  let mday ← int32 (tm.tmMday - 1)
  let days ← int32 (DAY * mday)
  let res ← int32 (res + days)
  let hours ← int32 (HOUR * tm.tmHour)
  let res ← int32 (res + hours)
  let minutes ← int32 (MINUTE * tm.tmMin)
  let res ← int32 (res + minutes)
  int32 (res + tm.tmSec)

end ShedKernel.Time
