import ServiceHours.Control.Outcome
import ServiceHours.Document
import ServiceHours.Remote.Manager

/-!
# Forms in data

How schedules, plans, tables, decisions and outcomes look as documents. Names of fields are in lower case with hyphens,
and a field without a value is left out.
-/

namespace ServiceHours

def Recurrence.document (r : Recurrence) : Document :=
  .record
    [("minute", .number r.minute), ("hour", .number r.hour), ("days-of-week", .list (r.days.map .number))]

def Change.document (c : Change) : Document :=
  .record
    [("desired-state", .text c.state.code), ("desired-count", .number c.count), ("cron", .text c.cron)]

def Plan.document (p : Plan) : Document :=
  .record
    ([("service", .text p.service.path), ("raw-config", .text p.configured)]
      ++ Document.field? "resolved-config" (p.resolved.map .text)
      ++ [("state-changes", .list (p.changes.map Change.document)), ("disabled", .flag p.disabled)]
      ++ Document.field? "config-error" (p.fault.map .text))

def Switch.document (x : Switch) : Document :=
  .record
    [("service", .text x.service.path), ("hour", .number x.hour), ("minute", .number x.minute),
      ("desired-state", .text x.state.code), ("desired-count", .number x.count), ("cron-text", .text x.cron),
      ("exists-remotely", .flag x.known)]

def Day.document (d : Day) : Document :=
  .record [("weekday", .number d.weekday), ("occurrences", .list (d.switches.map Switch.document))]

/-- The days that have transitions, each under its number. -/
def Week.document (w : Week) : Document :=
  .record [("days", .record (w.days.map fun entry => (Text.decimal entry.1, entry.2.document)))]

def Transition.document (t : Transition) : Document :=
  .record
    [("service", .text t.service.path), ("desired-state", .text t.state.code), ("desired-count", .number t.count),
      ("at", .text t.instant.serialText)]

def Status.document (s : Status) : Document :=
  .record
    [("state", .text s.state.code), ("running-count", .number s.runningCount),
      ("desired-count", .number s.desiredCount)]

def Action.document (a : Action) : Document :=
  let count := match a with
    | .setDesiredCount _ count => some (.number count)
    | .stopRunningTasks _ => none
  .record
    ([("type", .text a.name), ("service", .text a.service.path)] ++ Document.field? "count" count)

/-- A reason under its own name, with its details if it has any. -/
def SkipCause.document : SkipCause → Document
  | disabled => .record [("reason", .text "disabled")]
  | unscheduled => .record [("reason", .text "unscheduled")]
  | describeFailed detail => .record [("reason", .text "describe-failed"), ("detail", .text detail)]
  | missing => .record [("reason", .text "missing")]

def Decision.document (d : Decision) : Document :=
  .record
    (("decision", .text d.name) ::
      match d with
      | skip reason => [("reason", reason.document)]
      | start count => [("count", .number count)]
      | rescale current wanted => [("from", .number current), ("to", .number wanted)]
      | noOp | stop => [])

def Outcome.document (o : Outcome) : Document :=
  .record
    ([("service", .text o.service.path), ("decision", o.decision.document),
        ("justification", .text o.justification), ("actions", .list (o.actions.map Action.document)),
        ("applied", .flag o.applied)]
      ++ Document.field? "error" (o.error.map .text))

def Summary.document (s : Summary) : Document :=
  .record
    [("started", .number s.started), ("stopped", .number s.stopped), ("rescaled", .number s.rescaled),
      ("unchanged", .number s.unchanged), ("skipped", .number s.skipped), ("failed", .number s.failed)]

end ServiceHours
