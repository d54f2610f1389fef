import ServiceHours.View.Schedule
import ServiceHours.Week.Utilization

/-!
# The status view

Every plan with the present status of its service, its utilization and a hint where its number of tasks is off.
-/

namespace ServiceHours

/-- A suggestion to change the number of tasks of a running service. -/
inductive ScaleHint
  | upscale (count : Nat)
  | downscale (count : Nat)
deriving DecidableEq, Repr

/-- Compares a running service with today's count. Below it, it should be scaled up to it; above it and above one
task, down to a single task. -/
def ScaleHint.ofCounts? (state : ObservedState) (running desired : Nat) : Option ScaleHint :=
  if !state.isRunning then none
  else if running < desired then some (.upscale desired)
  else if 1 < running && desired < running then some (.downscale 1)
  else none

def ScaleHint.document : ScaleHint → Document
  | upscale count => .record [("hint", .text "upscale"), ("count", .number count)]
  | downscale count => .record [("hint", .text "downscale"), ("count", .number count)]

/-- One plan and what was seen of its service. -/
structure StatusRow where
  service : Service
  /-- The observed state; an unknown one is shown as stopped. -/
  state : ObservedState
  runningCount : Nat
  /-- Today's count so far. -/
  desiredCount : Nat
  utilization : Float
  schedule : String
  resolvedSchedule : Option String
  fault : Option String
  disabled : Bool
  hint : Option ScaleHint

namespace StatusRow

/-- An unknown state is shown as stopped. -/
def shownState : ObservedState → ObservedState
  | .unknown => .stopped
  | state => state

/-- The row of a plan at the time `now`. -/
def ofPlan (p : Plan) (status : Status) (now : Timestamp) : StatusRow :=
  { service := p.service
    state := shownState status.state
    runningCount := status.runningCount
    desiredCount := p.countAt now
    utilization := p.utilization
    schedule := p.configured
    resolvedSchedule := p.resolved
    fault := p.fault
    disabled := p.disabled
    hint := ScaleHint.ofCounts? (shownState status.state) status.runningCount (p.countAt now) }

/-- The utilization in whole percent, rounded down. -/
def percent (r : StatusRow) : Nat :=
  (r.utilization * 100.0).toUInt64.toNat

def document (r : StatusRow) : Document :=
  .record
    ([("service", .text r.service.path), ("service-name", .text r.service.name),
        ("cluster-name", .text r.service.clusterName), ("actual-state", .text r.state.code),
        ("running-count", .number r.runningCount), ("desired-count", .number r.desiredCount),
        ("percentage-running", .real r.utilization), ("schedule", .text r.schedule)]
      ++ Document.field? "resolved-schedule" (r.resolvedSchedule.map .text)
      ++ Document.field? "config-error" (r.fault.map .text)
      ++ [("disabled", .flag r.disabled)]
      ++ Document.field? "scale-hint" (r.hint.map ScaleHint.document))

end StatusRow

structure StatusView where
  profile : String
  generatedAt : Timestamp
  rows : List StatusRow

namespace StatusView

/-- The name of the day on which the view was made. -/
def weekday (v : StatusView) : String :=
  weekdayName v.generatedAt.weekday

def document (v : StatusView) : Document :=
  .record
    [("profile", .text v.profile), ("generated-at", .text v.generatedAt.serialText), ("weekday", .text v.weekday),
      ("services", .list (v.rows.map StatusRow.document))]

end StatusView

namespace Agenda

/-- The status of a service, unknown when it cannot be described. -/
def observe (m : Manager σ) (s : Service) : Run σ Status := do
  match ← m.describe s with
  | .ok status => return status
  | .error e =>
    Run.tell [.plain .warning "failed to describe service"
      [("service", .text s.name), ("error", .text e.message)]]
    return .unknown

def statusRows (m : Manager σ) (now : Timestamp) : List Plan → Run σ (List StatusRow)
  | [] => pure []
  | p :: rest => do
    let status ← observe m p.service
    Run.tell p.utilizationJournal
    return .ofPlan p status now :: (← statusRows m now rest)

/-- The status of every plan, disabled ones included. -/
def status (a : Agenda) (m : Manager σ) (now : Timestamp) : Run σ StatusView :=
  Run.within (a.viewSpan "status") do
    let rows ← statusRows m now a.plans
    Run.tell [.plain .information "write status" [("services", .number rows.length)]]
    return { profile := a.profile, generatedAt := now, rows }

end Agenda

end ServiceHours
