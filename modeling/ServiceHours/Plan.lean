import ServiceHours.Calendar.Timestamp
import ServiceHours.Schedule.Reading
import ServiceHours.Schedule.Reference
import ServiceHours.Service

/-!
# Plans

A plan puts one service under schedule control. Its schedule is a text, which may be a reference to another service's
schedule, or a list of changes that carry only the text of their recurrence.

* `Plan.scheduleText` is the text that counts, after a reference was resolved;
* `Plan.validate` reads the schedule; a plan that cannot be read is disabled and keeps the reason;
* `Plan.countAt` is the count that today's last change so far asks for.
-/

namespace ServiceHours

/-- One service and its schedule. -/
structure Plan where
  service : Service
  /-- The schedule as configured, possibly a reference. -/
  configured : String := ""
  /-- The schedule that a reference led to. -/
  resolved : Option String := none
  /-- The changes, by time of day once the plan is validated. -/
  changes : List Change := []
  disabled : Bool := false
  fault : Option String := none
deriving DecidableEq, Repr, Inhabited

namespace Change

/-- Reads the recurrence of each change from its text, up to the first that cannot be read. -/
def readAll : List Change → List Change × Option ScheduleError
  | [] => ([], none)
  | c :: cs =>
    match Recurrence.read c.cron with
    | .ok recurrence => ({ c with recurrence } :: (readAll cs).1, (readAll cs).2)
    | .error e => (c :: cs, some e)

end Change

namespace Plan

/-- The schedule text to read. -/
def scheduleText (p : Plan) : String :=
  p.resolved.getD p.configured

/-- Whether the schedule is a reference that was not followed yet. -/
def isUnresolved (p : Plan) : Bool :=
  p.resolved.isNone && Reference.isReference p.configured

/-- The plan with the outcome of following its reference. -/
def withResolution (p : Plan) (r : Resolution) : Plan :=
  if r.wasReference then { p with resolved := some r.schedule } else p

/-- The changes of the schedule as far as they can be read, with the warnings or the fault. A schedule text replaces
the listed changes; they count only when it is blank. -/
def readChanges (p : Plan) : List Change × Except ScheduleError (List Warning) :=
  if p.isUnresolved then (p.changes, .error (.unresolved p.configured))
  else if Text.allBlank p.scheduleText then
    match Change.readAll p.changes with
    | (changes, none) => (changes, .ok [])
    | (changes, some e) => (changes, .error e)
  else
    match Schedule.read p.scheduleText with
    | .ok reading => (reading.changes, .ok reading.warnings)
    | .error e => (p.changes, .error e)

/-- Reads the schedule into changes in the order of their times of day. On a fault the plan is disabled, so that a
service with a faulty schedule is left alone. -/
def validate (p : Plan) : Except ScheduleError (List Warning) × Plan :=
  match p.readChanges with
  | (changes, .ok warnings) => (.ok warnings, { p with changes := Change.sortByTime changes })
  | (changes, .error e) => (.error e, { p with changes, disabled := true, fault := some e.message })

/-- What validation reports while it reads a schedule text. -/
def readJournal (p : Plan) : List Event :=
  if p.isUnresolved || Text.allBlank p.scheduleText then [] else Schedule.journal p.scheduleText

def isActive (p : Plan) : Bool :=
  !p.disabled && !p.changes.isEmpty

/-- The count of today's last change at or before the time of day of `now`; 0 before the first. -/
def countAt (p : Plan) (now : Timestamp) : Nat :=
  match ((p.changes.filter fun c => c.recurrence.comesOn now.weekday).takeWhile fun c =>
      c.minuteOfDay ≤ now.minuteOfDay).getLast? with
  | some c => c.count
  | none => 0

end Plan

end ServiceHours
