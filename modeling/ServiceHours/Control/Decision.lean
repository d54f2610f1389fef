import ServiceHours.Control.Action
import ServiceHours.Week.Transition

/-!
# Decisions

What is to be done about a service, from its status and its last transition.

* `Decision.ofStatus` is the decision table;
* `Decision.actions` are the actions that carry a decision out.
-/

namespace ServiceHours

/-- Why a service is left alone without a look at its state. -/
inductive SkipCause
  | disabled
  | unscheduled
  | describeFailed (detail : String)
  | missing
deriving DecidableEq, Repr

/-- The wording of a reason, without its details. -/
def SkipCause.text : SkipCause → String
  | disabled => "plan is disabled"
  | unscheduled => "service has no scheduled events"
  | describeFailed _ => "service status could not be obtained"
  | missing => "service status is unknown and it does not exist remotely"

/-- The step that brings one service to its scheduled state. -/
inductive Decision
  | skip (reason : SkipCause)
  | noOp
  | stop
  | start (count : Nat)
  | rescale (current wanted : Nat)
deriving DecidableEq, Repr

namespace Decision

def name : Decision → String
  | skip _ => "skip"
  | noOp => "no-op"
  | stop => "stop"
  | start _ => "start"
  | rescale _ _ => "rescale"

def isChange : Decision → Bool
  | stop | start _ | rescale _ _ => true
  | skip _ | noOp => false

def justification : Decision → String
  | skip (.describeFailed detail) => "skipped: " ++ (SkipCause.describeFailed detail).text ++ ": " ++ detail
  | skip reason => "skipped: " ++ reason.text
  | noOp => "service is in expected state"
  | stop => "service is running but must be stopped"
  | start count => "service must be running with " ++ Text.decimal count ++ " task(s)"
  | rescale current wanted =>
    "service must have a different task count: " ++ Text.decimal current ++ " -> " ++ Text.decimal wanted

/-- The actions that carry out the decision. To stop a service it is first scaled to zero, then the tasks that still
run are ended. -/
def actions (s : Service) : Decision → List Action
  | skip _ | noOp => []
  | stop => [.setDesiredCount s 0, .stopRunningTasks s]
  | start count => [.setDesiredCount s count]
  | rescale _ wanted => [.setDesiredCount s wanted]

end Decision

/-- The count a running service should have; where none is given, one task. -/
def wantedCount (count : Nat) : Nat :=
  max 1 count

namespace Decision

/-- Compares a running service with the scheduled count. -/
def ofCounts (running count : Nat) : Decision :=
  if running = wantedCount count then noOp else rescale running (wantedCount count)

/-- Decides on a service from its status and its last transition. An unknown status counts as stopped for a service
that exists remotely; one that does not is skipped. -/
def ofStatus (status : Status) (state : DesiredState) (count : Nat) (known : Bool) : Decision :=
  match status.state, state with
  | .running, .stopped => stop
  | .running, .running => ofCounts status.runningCount count
  | .stopped, .running => start (wantedCount count)
  | .stopped, .stopped => noOp
  | .unknown, wanted =>
    if known then
      match wanted with
      | .running => start (wantedCount count)
      | .stopped => noOp
    else skip .missing

end Decision

end ServiceHours
