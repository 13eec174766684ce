import Brdns.Lib.Gregorian
import Brdns.Spec.Model

/-! `lib/quota.rs`: the start of the hour, day, week or month a timestamp falls in. -/

namespace Brdns

open Lib

/-- A UTC date and time: the day counted from 1970-01-01 and the second of the day. -/
structure DateTime where
  day : ℤ
  second : ℤ
  deriving DecidableEq

namespace DateTime

/-- First and last day the date type can hold: 1 January of -262143, 31 December of 262142. -/
def minDay : ℤ := -96465292

def maxDay : ℤ := 95026236

def fromTimestamp (secs : ℤ) : Option DateTime :=
  if minDay ≤ secs / 86400 ∧ secs / 86400 ≤ maxDay then some ⟨secs / 86400, secs % 86400⟩
  else none

def timestamp (dt : DateTime) : ℤ := dt.day * 86400 + dt.second

def hour (dt : DateTime) : ℤ := dt.second / 3600

def numDaysFromMonday (dt : DateTime) : ℤ :=
  Gregorian.daysFromMonday (dt.day + Gregorian.unixEpochDay)

/-- `dt - Duration::days(n)`, which fails below the first day. -/
def subDays (dt : DateTime) (n : ℤ) : Option DateTime :=
  if minDay ≤ dt.day - n then some { dt with day := dt.day - n } else none

/-- `dt.with_day(1)`. -/
def withDayOne (dt : DateTime) : DateTime :=
  { dt with day := dt.day - (Gregorian.dayOfMonth (dt.day + Gregorian.unixEpochDay) - 1) }

end DateTime

namespace Quota

def startOfDay (dt : DateTime) : DateTime := { dt with second := 0 }

def windowStart (now : ℤ) (window : Window) : CplResult ℤ :=
  match DateTime.fromTimestamp now with
  | none => .error (.panic "unix timestamp out of range")
  | some dt =>
    match window with
    | .Hour => .ok ((startOfDay dt).timestamp + dt.hour * 3600)
    | .Day => .ok (startOfDay dt).timestamp
    | .Week =>
      match dt.subDays dt.numDaysFromMonday with
      | none => .error (.panic "DateTime - TimeDelta overflowed")
      | some monday => .ok (startOfDay monday).timestamp
    | .Month => .ok (startOfDay dt.withDayOne).timestamp

example : windowStart 1704067200 .Week = .ok 1704067200 ∧
    windowStart (1704067200 + 2 * 86400) .Week = .ok 1704067200 ∧
    windowStart (1709251200 + 14 * 86400) .Month = .ok 1709251200 := by decide

end Quota

end Brdns
