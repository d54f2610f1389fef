import ServiceHours.Text.Quoted

/-!
# What can be wrong with a schedule

Each constructor is one cause; `ScheduleError.message` words it, quoting the piece of the schedule at fault.
-/

namespace ServiceHours

inductive TimeField
  | minute
  | hour
  | day
deriving DecidableEq, Repr

namespace TimeField

def text : TimeField → String
  | minute => "minute"
  | hour => "hour"
  | day => "day"

/-- The largest value the field takes; the smallest is zero. -/
def greatest : TimeField → Nat
  | minute => 59
  | hour => 23
  | day => 6

end TimeField

/-- Why a schedule, or one of its recurrences, cannot be read. -/
inductive ScheduleError
  | clauseForm (clause : String)
  | unknownKey (key : String)
  | fieldCount (expr : String)
  | notNumber (field : TimeField) (value expr : String)
  | outOfRange (field : TimeField) (value : Nat) (expr : String)
  | repeatedDay (day : Nat) (expr : String)
  | emptyRange (expr : String)
  | notCount (value : String)
  | unresolved (reference : String)
deriving DecidableEq, Repr

open Text in
def ScheduleError.message : ScheduleError → String
  | clauseForm clause => "expected state=expression, got " ++ quoted clause
  | unknownKey key => "unknown state " ++ quoted key
  | fieldCount expr => "expected \"<minute> <hour> <days>\", got " ++ quoted expr
  | notNumber field value expr => "invalid " ++ field.text ++ " " ++ quoted value ++ " in " ++ quoted expr
  | outOfRange field value expr =>
    field.text ++ " " ++ decimal value ++ " out of range 0..=" ++ decimal field.greatest ++ " in " ++ quoted expr
  | repeatedDay day expr => "duplicate day of week " ++ decimal day ++ " in " ++ quoted expr
  | emptyRange expr => "day range " ++ quoted expr ++ " is empty"
  | notCount value => "invalid count " ++ quoted value
  | unresolved reference => "reference " ++ quoted reference ++ " was not resolved"

end ServiceHours
