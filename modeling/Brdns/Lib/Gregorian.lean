import Mathlib.Data.Int.Basic
import Mathlib.Tactic.Common

/-! The proleptic Gregorian calendar on day numbers. Years begin on 1 March, so that the leap day
is the last day of its year; day 0 is 1 March of year 0. -/

namespace Lib.Gregorian

/-- The day number of 1970-01-01. -/
def unixEpochDay : ℤ := 719468

/-- The first day of a year. -/
def yearStart (y : ℤ) : ℤ := 365 * y + y / 4 - y / 100 + y / 400

/-- The year of a day: an estimate from the mean year length, off by at most one. -/
def yearOf (day : ℤ) : ℤ :=
  let y := (400 * day + 200) / 146097
  if day < yearStart y then y - 1 else if yearStart (y + 1) ≤ day then y + 1 else y

/-- Days since the first day of the year. -/
def dayOfYear (day : ℤ) : ℤ := day - yearStart (yearOf day)

/-- Months since March. -/
def monthOfYear (day : ℤ) : ℤ := (5 * dayOfYear day + 2) / 153

/-- Days from 1 March to the first of the `m`-th month after it. -/
def monthStart (m : ℤ) : ℤ := (153 * m + 2) / 5

/-- The day of the month, from 1. -/
def dayOfMonth (day : ℤ) : ℤ := dayOfYear day - monthStart (monthOfYear day) + 1

/-- Days since the last Monday. -/
def daysFromMonday (day : ℤ) : ℤ := (day + 2) % 7

end Lib.Gregorian
