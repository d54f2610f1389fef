import ServiceHours.Calendar.Date
import ServiceHours.Text.Numeral

/-!
# Timestamps

An instant together with the offset of the wall clock that shows it. A leap second belongs to the second before it:
its nanoseconds run from one to two thousand million.

* `Timestamp.noLater` orders instants, whatever their offsets;
* `Timestamp.plus` moves an instant by whole seconds and leaves a leap second on the way;
* `weekday`, `minuteOfDay` and `localDay` are what the wall clock shows;
* `serialText`, `displayText` and `clockText` are its written forms.
-/

namespace ServiceHours

def secondsPerDay : Nat := 86400

def nanosPerSecond : Nat := 1000000000

/-- An instant: whole seconds since 1970-01-01T00:00:00Z and nanoseconds, shown at an offset from UTC in seconds. -/
structure Timestamp where
  second : Int
  nano : Nat
  offset : Int
deriving DecidableEq, Repr, Inhabited

namespace Timestamp

def noLater (a b : Timestamp) : Bool :=
  a.second < b.second || (a.second = b.second && a.nano ≤ b.nano)

/-- The seconds that the wall clock has counted since the start of 1970. -/
def localSecond (t : Timestamp) : Int :=
  t.second + t.offset

def localDay (t : Timestamp) : Int :=
  t.localSecond / secondsPerDay

/-- Seconds from local midnight. -/
def secondOfDay (t : Timestamp) : Nat :=
  (t.localSecond % secondsPerDay).toNat

/-- Minutes from local midnight. -/
def minuteOfDay (t : Timestamp) : Nat :=
  t.secondOfDay / 60

/-- The local day of the week, 0 for Sunday. -/
def weekday (t : Timestamp) : Nat :=
  weekdayOfDay t.localDay

theorem weekday_lt (t : Timestamp) : t.weekday < 7 :=
  weekdayOfDay_lt t.localDay

/-- The instant some minutes after local midnight of a day, at the given offset. -/
def ofLocal (day : Int) (minutes : Int) (offset : Int) : Timestamp :=
  { second := day * secondsPerDay + minutes * 60 - offset, nano := 0, offset }

/-- A time of day reckoned from local midnight lies on that day. -/
theorem localDay_ofLocal {minutes : Int} (day offset : Int) (h : 0 ≤ minutes) (h' : minutes < 1440) :
    (ofLocal day minutes offset).localDay = day := by
  simp only [ofLocal, localDay, localSecond, secondsPerDay]
  omega

theorem minuteOfDay_ofLocal {minutes : Nat} (day offset : Int) (h : minutes < 1440) :
    (ofLocal day minutes offset).minuteOfDay = minutes := by
  simp only [ofLocal, minuteOfDay, secondOfDay, localSecond, secondsPerDay]
  omega

/-- The instant some seconds later, or earlier for a negative number. A leap second counts as the second that it
follows when going on, and as the second that follows it when going back. -/
def plus (t : Timestamp) (seconds : Int) : Timestamp :=
  if t.nano < nanosPerSecond || seconds = 0 then { t with second := t.second + seconds }
  else if 0 < seconds then { t with second := t.second + seconds, nano := t.nano - nanosPerSecond }
  else { t with second := t.second + seconds + 1, nano := t.nano - nanosPerSecond }

/-- A year with four digits; one that needs more, or is negative, with its sign. -/
def yearText (year : Int) : String :=
  if 0 ≤ year ∧ year ≤ 9999 then Text.padded 4 year.natAbs
  else (if year < 0 then "-" else "+") ++ Text.padded 4 year.natAbs

def dateText (t : Timestamp) : String :=
  let d := Date.ofDay t.localDay
  yearText d.year ++ "-" ++ Text.padded 2 d.month ++ "-" ++ Text.padded 2 d.day

/-- The local time of day in whole seconds; a leap second is second 60. -/
def timeText (t : Timestamp) : String :=
  let s := t.secondOfDay
  let leap := if t.nano < nanosPerSecond then 0 else 1
  Text.padded 2 (s / 3600) ++ ":" ++ Text.padded 2 (s / 60 % 60) ++ ":" ++ Text.padded 2 (s % 60 + leap)

/-- The fraction of the second with as few of 0, 3, 6 or 9 places as show it exactly. -/
def fractionText (t : Timestamp) : String :=
  let n := t.nano % nanosPerSecond
  if n = 0 then ""
  else if n % 1000000 = 0 then "." ++ Text.padded 3 (n / 1000000)
  else if n % 1000 = 0 then "." ++ Text.padded 6 (n / 1000)
  else "." ++ Text.padded 9 n

def offsetText (t : Timestamp) : String :=
  let minutes := t.offset.natAbs / 60
  (if t.offset < 0 then "-" else "+") ++ Text.padded 2 (minutes / 60) ++ ":" ++ Text.padded 2 (minutes % 60)

/-- The form in data: `T` between date and time, and `Z` for no offset. -/
def serialText (t : Timestamp) : String :=
  t.dateText ++ "T" ++ t.timeText ++ t.fractionText ++ (if t.offset = 0 then "Z" else t.offsetText)

/-- The form in the journal: date, time and offset between spaces. -/
def displayText (t : Timestamp) : String :=
  t.dateText ++ " " ++ t.timeText ++ t.fractionText ++ " " ++ t.offsetText

def clockText (t : Timestamp) : String :=
  t.dateText ++ " " ++ t.timeText

end Timestamp

end ServiceHours
