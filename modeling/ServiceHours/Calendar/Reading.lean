import ServiceHours.Calendar.Timestamp
import ServiceHours.Text.Segment

/-!
# Reading timestamps

Timestamps of the form `2024-01-01T12:00:00.5+01:00`, with `Z` for no offset and second 60 for a leap second.
-/

namespace ServiceHours.Timestamp

/-- Reads an optional fraction of a second as nanoseconds; digits behind the ninth do not count. -/
def takeFraction? : List Char → Option (Nat × List Char)
  | '.' :: cs =>
    let digits := cs.takeWhile Char.isDigit
    if digits.isEmpty then none
    else some (Nat.ofDigitChars 10 ((digits ++ List.replicate 9 '0').take 9) 0, cs.dropWhile Char.isDigit)
  | cs => some (0, cs)

/-- Reads an offset from UTC in seconds, to the end of the text. -/
def offset? : List Char → Option Int
  | ['Z'] => some 0
  | sign :: cs => do
    let (hours, cs) ← Text.fixedDigits? 2 cs
    let cs ← Text.expect? ':' cs
    let (minutes, cs) ← Text.fixedDigits? 2 cs
    let seconds : Nat := hours * 3600 + minutes * 60
    if cs.isEmpty && hours < 24 && minutes < 60 then
      if sign = '+' then some seconds
      else if sign = '-' then some (-seconds)
      else none
    else none
  | [] => none

def read? (text : String) : Option Timestamp := do
  let (year, cs) ← Text.fixedDigits? 4 text.toList
  let cs ← Text.expect? '-' cs
  let (month, cs) ← Text.fixedDigits? 2 cs
  let cs ← Text.expect? '-' cs
  let (day, cs) ← Text.fixedDigits? 2 cs
  let cs ← Text.expect? 'T' cs
  let (hour, cs) ← Text.fixedDigits? 2 cs
  let cs ← Text.expect? ':' cs
  let (minute, cs) ← Text.fixedDigits? 2 cs
  let cs ← Text.expect? ':' cs
  let (second, cs) ← Text.fixedDigits? 2 cs
  let (nano, cs) ← takeFraction? cs
  let offset ← offset? cs
  if 1 ≤ month && month ≤ 12 && 1 ≤ day && day ≤ Date.daysOfMonth year month && hour ≤ 23 && minute ≤ 59
      && second ≤ 60 then
    let whole := Nat.min second 59
    some
      { second := (Date.mk year month day).toDay * secondsPerDay + (hour * 3600 + minute * 60 + whole : Nat) - offset
        nano := if second = 60 then nano + nanosPerSecond else nano
        offset }
  else none

end ServiceHours.Timestamp
