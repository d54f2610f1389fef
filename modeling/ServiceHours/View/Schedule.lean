import ServiceHours.Control.Agenda
import ServiceHours.Document

/-!
# The schedule view

The weekly table for readers: all seven days with their transitions in order, and which day is today.

* `ScheduleView.ofWeek` builds the view;
* `Agenda.schedule` shows the table as it is, `Agenda.report` with the existence of services checked anew on a copy.
-/

namespace ServiceHours

/-- The name of a day of the week, from Sunday on. -/
def weekdayName (weekday : Nat) : String :=
  match weekday with
  | 0 => "Sunday"
  | 1 => "Monday"
  | 2 => "Tuesday"
  | 3 => "Wednesday"
  | 4 => "Thursday"
  | 5 => "Friday"
  | 6 => "Saturday"
  | _ => "?"

structure DayView where
  weekday : Nat
  isToday : Bool
  entries : List Occurrence
deriving DecidableEq, Repr

/-- The weekly table at a time. -/
structure ScheduleView where
  profile : String
  generatedAt : Timestamp
  days : List DayView
deriving DecidableEq, Repr

namespace ScheduleView

/-- The view of a table; every day of the week is shown. -/
def ofWeek (profile : String) (w : Week) (now : Timestamp) : ScheduleView :=
  { profile, generatedAt := now
    days := (List.range daysPerWeek).map fun d =>
      { weekday := d, isToday := d = now.weekday, entries := w.onDay d } }

def entries (v : ScheduleView) : List Occurrence :=
  v.days.flatMap (·.entries)

/-- The entries of services that do not exist remotely. -/
def missing (v : ScheduleView) : List Occurrence :=
  v.entries.filter fun o => !o.known

end ScheduleView

def Occurrence.entryDocument (o : Occurrence) : Document :=
  .record
    [("service", .text o.service.path), ("service-name", .text o.service.name),
      ("cluster-name", .text o.service.clusterName), ("hour", .number o.hour), ("minute", .number o.minute),
      ("desired-state", .text o.state.code), ("desired-count", .number o.count), ("cron", .text o.cron),
      ("exists-remotely", .flag o.known)]

def DayView.document (d : DayView) : Document :=
  .record
    [("weekday", .number d.weekday), ("name", .text (weekdayName d.weekday)), ("is-today", .flag d.isToday),
      ("entries", .list (d.entries.map Occurrence.entryDocument))]

def ScheduleView.document (v : ScheduleView) : Document :=
  .record
    [("profile", .text v.profile), ("generated-at", .text v.generatedAt.serialText),
      ("days", .list (v.days.map DayView.document))]

namespace Agenda

def viewSpan (a : Agenda) (mode : String) : Span :=
  ⟨"projection", [("exec", .text mode), ("profile", .text a.profile)]⟩

def schedule (a : Agenda) (now : Timestamp) : Run σ ScheduleView :=
  Run.within (a.viewSpan "schedule") do
    Run.tell [.plain .information "write schedule" []]
    return .ofWeek a.profile a.week now

/-- The schedule with services checked against the present inventory. The agenda keeps its own marks. -/
def report (a : Agenda) (m : Manager σ) (now : Timestamp) : Run σ (Except RemoteError ScheduleView) :=
  Run.within (a.viewSpan "report") do
    match ← m.listServices none with
    | .error e => return .error e
    | .ok services =>
      let view := ScheduleView.ofWeek a.profile (a.week.markKnown (inventoryOf services).contains) now
      Run.tell (view.missing.map fun o =>
        .plain .warning "scheduled service does not exist remotely" [("service", .text o.service.path)])
      Run.tell [.plain .information "write report" []]
      return .ok view

end Agenda

end ServiceHours
