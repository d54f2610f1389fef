import ServiceHours.Schedule.Error
import ServiceHours.Text.Blank
import ServiceHours.Text.Segment

/-!
# Weekly recurrences

A time of day on some days of the week, written `minute hour days`. Days count from Sunday, which is 0. The days are
one day (`3`), a range (`1-5`) or a list (`0/6`).

* `Recurrence.read` reads a recurrence and names the first piece at fault;
* `Recurrence.text` writes it with its days listed;
* `Recurrence.WellFormed` says which values stand for a time in the week.
-/

namespace ServiceHours

/-- A time of day on the listed days; without days it never comes. -/
structure Recurrence where
  minute : Nat := 0
  hour : Nat := 0
  days : List Nat := []
deriving DecidableEq, Repr, Inhabited

namespace Recurrence

def minuteOfDay (r : Recurrence) : Nat :=
  r.hour * 60 + r.minute

/-- Whether the recurrence comes on a day of the week. -/
def comesOn (r : Recurrence) (weekday : Nat) : Bool :=
  r.days.contains weekday

/-- A real time of day on at least one day of the week, no day listed twice. -/
structure WellFormed (r : Recurrence) : Prop where
  minute_le : r.minute ≤ 59
  hour_le : r.hour ≤ 23
  days_ne_nil : r.days ≠ []
  nodup : r.days.Nodup
  day_le : ∀ d ∈ r.days, d ≤ 6

/-- The written form: minute, hour and the days between slashes. -/
def text (r : Recurrence) : String :=
  String.ofList (Nat.toDigits 10 r.minute ++ [' '] ++ Nat.toDigits 10 r.hour ++ [' ']
    ++ ['/'].intercalate (r.days.map (Nat.toDigits 10)))

def readField (expr : String) (field : TimeField) (value : List Char) : Except ScheduleError Nat :=
  match Text.natural? Text.maxCount value with
  | none => .error (.notNumber field (String.ofList value) expr)
  | some n => if n ≤ field.greatest then .ok n else .error (.outOfRange field n expr)

/-- Reads listed days one after the other behind those already `seen`; none may come twice. -/
def readListed (expr : String) (seen : List Nat) : List (List Char) → Except ScheduleError (List Nat)
  | [] => .ok seen
  | value :: values => do
    let day ← readField expr .day value
    if seen.contains day then .error (.repeatedDay day expr)
    else readListed expr (seen ++ [day]) values

/-- Reads the days: a list if there is a slash, else a range if there is a dash, else one day. -/
def readDays (expr : String) (days : List Char) : Except ScheduleError (List Nat) :=
  if days.contains '/' then readListed expr [] (Text.split (· == '/') days)
  else match Text.splitFirst '-' days with
    | some (first, last) => do
      let a ← readField expr .day first
      let b ← readField expr .day last
      if b < a then .error (.emptyRange expr) else .ok (List.range' a (b + 1 - a))
    | none => do
      let day ← readField expr .day days
      return [day]

/-- Reads a recurrence from its three fields. -/
def read (expr : String) : Except ScheduleError Recurrence :=
  match Text.words expr.toList with
  | [minute, hour, days] => do
    let minute ← readField expr .minute minute
    let hour ← readField expr .hour hour
    let days ← readDays expr days
    return ⟨minute, hour, days⟩
  | _ => .error (.fieldCount expr)

end Recurrence

end ServiceHours
