import ServiceHours.Service
import ServiceHours.Text.Numeral

/-!
# Actions

The changes that can be asked of the remote side.
-/

namespace ServiceHours

/-- One change of one service. -/
inductive Action
  | setDesiredCount (service : Service) (count : Nat)
  /-- End every task that is still running. -/
  | stopRunningTasks (service : Service)
deriving DecidableEq, Repr

namespace Action

def name : Action → String
  | setDesiredCount _ _ => "set_desired_count"
  | stopRunningTasks _ => "stop_running_tasks"

def service : Action → Service
  | setDesiredCount s _ => s
  | stopRunningTasks s => s

/-- The arguments of the action, named for the journal. -/
def arguments : Action → List (String × String)
  | setDesiredCount s count => [("service", s.name), ("count", Text.decimal count)]
  | stopRunningTasks s => [("service", s.name)]

/-- Whether the journal shows the action before it is carried out. Ending tasks cannot be undone, so it does. -/
def announced : Action → Bool
  | setDesiredCount _ _ => false
  | stopRunningTasks _ => true

def summary (a : Action) : String :=
  "action=" ++ a.name ++ " " ++ " ".intercalate (a.arguments.map fun f => f.1 ++ "=" ++ f.2)

end Action

end ServiceHours
