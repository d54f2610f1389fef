import ServiceHours.Control.Action
import ServiceHours.Remote.Manager

/-!
# Execution

Carrying out actions through a manager. A list of actions is carried out in order up to the first failure.
-/

namespace ServiceHours

inductive ExecutionError
  | remote (error : RemoteError)
  | missingService
deriving DecidableEq, Repr

def ExecutionError.message : ExecutionError → String
  | remote e => "resource manager error: " ++ e.message
  | missingService => "no service was given"

namespace Manager

/-- Ends tasks of a service one by one, up to the first failure. -/
def stopTasks (m : Manager σ) (s : Service) : List String → Run σ (Except RemoteError Unit)
  | [] => pure (.ok ())
  | task :: tasks => do
    Run.tell [.plain .detail "stopping task" [("service", .text s.name), ("task", .text task)]]
    match ← m.stopTask s task with
    | .ok () => m.stopTasks s tasks
    | .error e => pure (.error e)

def stopRunningTasks (m : Manager σ) (s : Service) : Run σ (Except RemoteError Unit) := do
  match ← m.runningTasks s with
  | .error e => pure (.error e)
  | .ok tasks =>
    match ← m.stopTasks s tasks with
    | .error e => pure (.error e)
    | .ok () =>
      Run.tell (if tasks.isEmpty then []
        else [.plain .information "stopped running tasks"
          [("service", .text s.name), ("stopped", .number tasks.length)]])
      pure (.ok ())

/-- Carries out an action, for a service with a path. -/
def perform (m : Manager σ) (a : Action) : Run σ (Except ExecutionError Unit) :=
  if a.service.isEmpty then pure (.error .missingService)
  else (·.mapError ExecutionError.remote) <$>
    match a with
    | .setDesiredCount s count => m.setDesiredCount s count
    | .stopRunningTasks s => m.stopRunningTasks s

end Manager

namespace Action

/-- What the journal says before an action is carried out. -/
def announcement (a : Action) : List Event :=
  if a.announced then [.plain .information ("executing " ++ a.summary) []] else []

/-- What the journal says about the outcome of an action. -/
def report (a : Action) : Except ExecutionError Unit → List Event
  | .ok () => [.plain .information (if a.announced then "completed" else "executed " ++ a.summary) []]
  | .error e =>
    [.plain .error (if a.announced then "failed" else "error " ++ a.summary) [("error", .text e.message)]]

end Action

namespace Manager

def execute (m : Manager σ) (a : Action) : Run σ (Except ExecutionError Unit) := do
  Run.tell a.announcement
  let result ← m.perform a
  Run.tell (a.report result)
  pure result

/-- Carries out actions in order, up to the first failure. -/
def executeAll (m : Manager σ) : List Action → Run σ (Except ExecutionError Unit)
  | [] => pure (.ok ())
  | a :: rest => do
    match ← m.execute a with
    | .ok () => m.executeAll rest
    | .error e => pure (.error e)

end Manager

end ServiceHours
