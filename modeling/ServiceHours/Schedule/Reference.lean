import ServiceHours.Journal
import ServiceHours.Text.Blank

/-!
# References

A service may take over the schedule of another: its schedule is then `@name`, with the short name of the other.
Only one step is followed; a schedule found under a name that is itself a reference is not used.
-/

namespace ServiceHours

namespace Reference

def isReference (value : String) : Bool :=
  (Text.trimStart value.toList).head? == some '@'

def target? (value : String) : Option String :=
  match Text.trim value.toList with
  | '@' :: name => some (String.ofList (Text.trim name))
  | _ => none

end Reference

/-- What became of a schedule after looking up the name it may point to. -/
inductive Resolution
  /-- The schedule is not a reference and stands for itself. -/
  | plain (schedule : String)
  /-- The schedule found under the name. -/
  | found (target schedule : String)
  /-- No service with that name has a schedule. -/
  | missing (target : String)
  /-- The schedule found under the name is itself a reference. -/
  | chained (target schedule : String)
deriving DecidableEq, Repr

namespace Resolution

/-- The schedule to use; empty when the reference leads to none. -/
def schedule : Resolution → String
  | plain schedule => schedule
  | found _ schedule => schedule
  | missing _ => ""
  | chained _ _ => ""

/-- Whether there was a reference to follow. -/
def wasReference : Resolution → Bool
  | plain _ => false
  | _ => true

/-- Follows a schedule one step, with the schedules of all short names. -/
def ofSchedule (value : String) (lookup : String → Option String) : Resolution :=
  match Reference.target? value with
  | none => plain value
  | some target =>
    match lookup target with
    | none => missing target
    | some schedule => if Reference.isReference schedule then chained target schedule else found target schedule

/-- Following the reference `value` reports a name that leads to no schedule. -/
def journal (value : String) : Resolution → List Event
  | missing _ =>
    [.plain .warning "referenced service not found, treating as unscheduled" [("reference", .text value)]]
  | chained _ schedule =>
    [.plain .warning "referenced schedule is itself a reference, not following"
      [("reference", .text value), ("target_schedule", .text schedule)]]
  | _ => []

end Resolution

end ServiceHours
