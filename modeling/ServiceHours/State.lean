/-!
# Desired and observed states

What a schedule asks of a service, and what was seen of it. Each state has a word for messages (`text`) and a code
for data (`code`).
-/

namespace ServiceHours

/-- The state a schedule asks a service to be in. -/
inductive DesiredState
  | running
  | stopped
deriving DecidableEq, Repr, Inhabited

namespace DesiredState

/-- The word for a desired state in messages and in schedules. -/
def text : DesiredState → String
  | running => "running"
  | stopped => "stopped"

/-- The code of a desired state in data. -/
def code : DesiredState → String
  | running => "RUNNING"
  | stopped => "STOPPED"

def ofCode? (code : String) : Option DesiredState :=
  [running, stopped].find? fun s => s.code == code

def isRunning : DesiredState → Bool
  | running => true
  | stopped => false

theorem ofCode?_code (s : DesiredState) : ofCode? s.code = some s := by
  cases s <;> decide

end DesiredState

/-- The state a service was seen in; unknown when no status could be obtained. -/
inductive ObservedState
  | running
  | stopped
  | unknown
deriving DecidableEq, Repr, Inhabited

namespace ObservedState

def text : ObservedState → String
  | running => "running"
  | stopped => "stopped"
  | unknown => "unknown"

def code : ObservedState → String
  | running => "RUNNING"
  | stopped => "STOPPED"
  | unknown => "UNKNOWN"

def ofCode? (code : String) : Option ObservedState :=
  [running, stopped, unknown].find? fun s => s.code == code

def isRunning : ObservedState → Bool
  | running => true
  | _ => false

theorem ofCode?_code (s : ObservedState) : ofCode? s.code = some s := by
  cases s <;> decide

end ObservedState

/-- What was seen of a service: its state, its running tasks and the count it was asked to have. -/
structure Status where
  state : ObservedState
  runningCount : Nat
  desiredCount : Nat
deriving DecidableEq, Repr, Inhabited

/-- The status of a service of which nothing could be learned. -/
def Status.unknown : Status := ⟨.unknown, 0, 0⟩

end ServiceHours
