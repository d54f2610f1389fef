import ServiceHours.Remote.Manager

/-!
# Faults

Faults between a manager and its users, set for one operation on one service: the call may stay silent, be refused, or
find a tag missing. A call with a fault does not reach the manager: `Manager.refusing` answers for it, and
`Faults.silences` tells the calls that a deadline has to cut short.
-/

namespace ServiceHours

/-- What befalls a call. -/
inductive Fault
  | silence
  | refusal
  | absence
deriving DecidableEq, Repr

/-- The faults in force. Listing services is not about one service and stands under the empty path. -/
structure Faults where
  entries : List ((Operation × Service) × Fault) := []
deriving DecidableEq, Repr, Inhabited

namespace Faults

/-- Sets the fault of an operation on a service, or lifts it. -/
def set (f : Faults) (operation : Operation) (s : Service) (fault : Option Fault) : Faults :=
  let others := f.entries.filter (·.1 ≠ (operation, s))
  ⟨match fault with
    | some x => ((operation, s), x) :: others
    | none => others⟩

def find? (f : Faults) (call : Call) : Option Fault :=
  (f.entries.find? (·.1 = (call.operation, call.service?.getD ⟨""⟩))).map (·.2)

def silences (f : Faults) (call : Call) : Bool :=
  f.find? call == some .silence

end Faults

/-- The manager behind which calls are refused and tags are missing as the faults say. -/
def Manager.refusing (f : Faults) (m : Manager σ) : Manager σ :=
  let refused : Manager σ := m.transform fun call answer =>
    if f.find? call = some .refusal then
      pure (.error (.describe (call.service?.getD ⟨""⟩) (call.operation.text ++ " refused")))
    else answer
  { refused with
    tagValue := fun s tag =>
      if f.find? (.tagValue s tag) = some .absence then pure (.ok none) else refused.tagValue s tag }

end ServiceHours
