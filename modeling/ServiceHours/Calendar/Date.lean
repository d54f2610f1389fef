/-!
# Dates

Days of the proleptic Gregorian calendar, numbered from 1970-01-01. The computation uses years that begin in March,
so that a leap day is the last day of its year, and eras of 400 such years, which all have 146097 days.

* `Date.ofDay` gives the date of a day number and `Date.toDay` the number of a date;
* `weekdayOfDay` gives the day of the week, 0 for Sunday.
-/

namespace ServiceHours

/-- A calendar date. The year before year 1 is year 0. -/
structure Date where
  year : Int
  month : Nat
  day : Nat
deriving DecidableEq, Repr, Inhabited

/-- The days of 400 years. -/
def daysPerEra : Nat := 146097

/-- The days from the first of March of year 0 to 1970-01-01. -/
def epochDay : Nat := 719468

namespace Date

/-- The date of a day counted from 1970-01-01. -/
def ofDay (n : Int) : Date :=
  let shifted := n + epochDay
  let era := shifted / daysPerEra
  let dayOfEra := (shifted % daysPerEra).toNat
  let yearOfEra := (dayOfEra - dayOfEra / 1460 + dayOfEra / 36524 - dayOfEra / 146096) / 365
  let dayOfYear := dayOfEra - (365 * yearOfEra + yearOfEra / 4 - yearOfEra / 100)
  let month := (5 * dayOfYear + 2) / 153
  { year := era * 400 + yearOfEra + (if month < 10 then 0 else 1)
    month := if month < 10 then month + 3 else month - 9
    day := dayOfYear - (153 * month + 2) / 5 + 1 }

/-- The number of a date, counted from 1970-01-01. -/
def toDay (d : Date) : Int :=
  let year := if d.month ≤ 2 then d.year - 1 else d.year
  let month := if d.month ≤ 2 then d.month + 9 else d.month - 3
  let yearOfEra := (year % 400).toNat
  let dayOfYear := (153 * month + 2) / 5 + (d.day - 1)
  year / 400 * daysPerEra + (yearOfEra * 365 + yearOfEra / 4 - yearOfEra / 100 + dayOfYear : Nat) - epochDay

def isLeap (year : Int) : Bool :=
  year % 4 == 0 && (year % 100 != 0 || year % 400 == 0)

def daysOfMonth (year : Int) (month : Nat) : Nat :=
  if month = 2 then (if isLeap year then 29 else 28)
  else if month = 4 || month = 6 || month = 9 || month = 11 then 30
  else 31

end Date

/-- The day of the week of a day number, 0 for Sunday. 1970-01-01 was a Thursday. -/
def weekdayOfDay (n : Int) : Nat :=
  ((n + 4) % 7).toNat

theorem weekdayOfDay_lt (n : Int) : weekdayOfDay n < 7 := by
  unfold weekdayOfDay
  omega

end ServiceHours
