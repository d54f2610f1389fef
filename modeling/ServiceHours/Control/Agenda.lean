import ServiceHours.Control.Execution
import ServiceHours.Control.Outcome
import ServiceHours.Control.Survey

/-!
# The agenda of a run

The plans of a run with their weekly table, and what is done with them.

* `Agenda.pass` goes through the plans, decides on each and, unless it is a dry run, carries the decision out; a
  failure of one service is part of its outcome and does not end the pass;
* `Agenda.start`, `Agenda.stop` and `Agenda.rescale` change one service by hand.
-/

namespace ServiceHours

/-- The plans of a run for one profile, and their weekly table. -/
structure Agenda where
  profile : String
  plans : List Plan
  week : Week
deriving DecidableEq, Repr, Inhabited

namespace Agenda

/-- The agenda of some plans, whose services are taken to exist. -/
def ofPlans (profile : String) (plans : List Plan) : Agenda :=
  { profile, plans, week := .ofPlans plans }

/-- The agenda of a survey; transitions of services outside its inventory are marked. -/
def ofSurvey (profile : String) (v : Survey) : Agenda :=
  { profile, plans := v.plans, week := (Week.ofPlans v.plans).markKnown v.knows }

def journal (plans : List Plan) : List Event :=
  plans.flatMap Plan.addJournal

/-! ## Passes -/

def skipped (p : Plan) (reason : SkipCause) : Outcome :=
  { service := p.service, decision := .skip reason }

/-- What the journal says about a decision on a described service. -/
def decisionEvent (p : Plan) (t : Transition) (status : Status) (d : Decision) : Event :=
  if d = .skip .missing then
    .plain .warning "state unknown and service missing remotely, skipping" [("service", .text p.service.name)]
  else
    .plain .information d.justification
      [("service", .text p.service.name), ("state", .text status.state.text), ("tasks", .number status.runningCount),
        ("schedule", .text p.scheduleText), ("desired", .text t.state.text), ("desired_count", .number t.count),
        ("since", .text t.instant.displayText), ("decision", .text d.name)]

/-- Carries out a decision that changes something. -/
def carryOut (m : Manager σ) (s : Service) (d : Decision) : Run σ Outcome := do
  match ← m.executeAll (d.actions s) with
  | .ok () => return { service := s, decision := d, applied := true }
  | .error e =>
    Run.tell [.plain .error "failed to apply decision"
      [("service", .text s.name), ("decision", .text d.name), ("error", .text e.message)]]
    return { service := s, decision := d, error := some e.message }

def visit (a : Agenda) (m : Manager σ) (now : Timestamp) (dryRun : Bool) (p : Plan) : Run σ Outcome := do
  if p.disabled then
    Run.tell [.plain .warning "disabled plan, skipping" [("service", .text p.service.name)]]
    return skipped p .disabled
  else match a.week.lastTransition p.service now with
    | none =>
      Run.tell [.plain .detail "no scheduled events, skipping" [("service", .text p.service.name)]]
      return skipped p .unscheduled
    | some t =>
      match ← m.describe p.service with
      | .error e =>
        Run.tell [.plain .warning "failed to describe service, skipping"
          [("service", .text p.service.name), ("error", .text e.message)]]
        return skipped p (.describeFailed e.message)
      | .ok status =>
        let d := Decision.ofStatus status t.state t.count (a.week.known p.service)
        Run.tell [decisionEvent p t status d]
        if d.isChange && !dryRun then carryOut m p.service d
        else return { service := p.service, decision := d }

def visitAll (a : Agenda) (m : Manager σ) (now : Timestamp) (dryRun : Bool) : List Plan → Run σ (List Outcome)
  | [] => pure []
  | p :: rest => do
    let outcome ← a.visit m now dryRun p
    return outcome :: (← a.visitAll m now dryRun rest)

/-- What the journal says at the end of a pass. -/
def closingEvent (s : Summary) (dryRun : Bool) : Event :=
  .plain .information "reconcile pass complete"
    [("started", .number s.started), ("stopped", .number s.stopped), ("rescaled", .number s.rescaled),
      ("unchanged", .number s.unchanged), ("skipped", .number s.skipped), ("failed", .number s.failed),
      ("dry_run", .flag dryRun)]

/-- Goes through all plans once at the time `now`; a dry run decides and changes nothing. -/
def pass (a : Agenda) (m : Manager σ) (now : Timestamp) (dryRun : Bool) : Run σ (List Outcome) :=
  Run.within ⟨"reconcile", [("exec", .text (if dryRun then "plan" else "apply")), ("profile", .text a.profile)]⟩ do
    Run.tell [.plain .information "executing"
      [("time", .text now.displayText), ("dry_run", .flag dryRun), ("plans", .number a.plans.length)]]
    let outcomes ← a.visitAll m now dryRun a.plans
    Run.tell [closingEvent (.ofOutcomes outcomes) dryRun]
    return outcomes

/-- A pass that only shows what would be done. -/
def plan (a : Agenda) (m : Manager σ) (now : Timestamp) : Run σ (List Outcome) :=
  a.pass m now true

def apply (a : Agenda) (m : Manager σ) (now : Timestamp) : Run σ (List Outcome) :=
  a.pass m now false

/-! ## Changes by hand -/

/-- Carries out actions on a service whose name is given by hand, whatever its schedule. -/
def override (a : Agenda) (m : Manager σ) (mode service : String) (actions : Service → List Action) :
    Run σ (Except ExecutionError Unit) :=
  Run.within ⟨"adhoc", [("exec", .text mode), ("profile", .text a.profile)]⟩ do
    let s : Service := ⟨Text.trimmed service⟩
    if s.isEmpty then return .error .missingService
    else
      Run.tell [.plain .information "manual override" [("service", .text s.name)]]
      m.executeAll (actions s)

def start (a : Agenda) (m : Manager σ) (service : String) : Run σ (Except ExecutionError Unit) :=
  a.override m "start" service fun s => (Decision.start 1).actions s

def stop (a : Agenda) (m : Manager σ) (service : String) : Run σ (Except ExecutionError Unit) :=
  a.override m "stop" service fun s => Decision.stop.actions s

def rescale (a : Agenda) (m : Manager σ) (service : String) (count : Nat) : Run σ (Except ExecutionError Unit) :=
  a.override m "rescale" service fun s => [.setDesiredCount s count]

end Agenda

end ServiceHours
