import ServiceHours.Journal
import ServiceHours.Schedule.Change

/-!
# Schedules

A schedule is a text of clauses that end in a full stop, such as `running=0 8 1-5. count=2. stopped=0 18 1-5.`
A clause that starts with `//` ends the schedule.

* `Schedule.clauses` cuts a text into its clauses;
* `Clause.read` reads one of them;
* `Reading.add` says what a clause means for what was read before it: a count belongs to the last `running` clause;
* `Schedule.read` reads them all, up to the first that is at fault.
-/

namespace ServiceHours

/-- Something odd in a schedule that does not make it useless. -/
inductive Warning
  | countWithoutRunning (count : Nat)
deriving DecidableEq, Repr

def Warning.message : Warning → String
  | countWithoutRunning count => "count=" ++ Text.decimal count ++ " has no preceding running clause"

/-- One clause of a schedule. -/
inductive Clause
  | change (state : DesiredState) (cron : String) (recurrence : Recurrence)
  | count (value : Nat)
deriving DecidableEq, Repr

namespace Clause

/-- The clause that sets a state at the times given by `value`. -/
def readChange (state : DesiredState) (value : List Char) : Except ScheduleError Clause := do
  let cron := String.ofList value
  return change state cron (← Recurrence.read cron)

/-- Reads a clause of the form `key=value`. -/
def read (clause : List Char) : Except ScheduleError Clause :=
  match Text.split (· == '=') clause with
  | [key, value] =>
    let key := Text.trim key
    let value := Text.trim value
    if key = "running".toList then readChange .running value
    else if key = "stopped".toList then readChange .stopped value
    else if key = "count".toList then
      match Text.natural? Text.maxCount value with
      | some n => .ok (count n)
      | none => .error (.notCount (String.ofList value))
    else .error (.unknownKey (String.ofList key))
  | _ => .error (.clauseForm (String.ofList clause))

end Clause

/-- What a schedule says: its changes in the order of their clauses, and what is odd about it. -/
structure Reading where
  changes : List Change := []
  warnings : List Warning := []
deriving DecidableEq, Repr, Inhabited

namespace Reading

/-- Gives the last running change a count, if there is one. -/
def countLast (count : Nat) : List Change → Option (List Change)
  | [] => none
  | c :: cs =>
    match countLast count cs with
    | some counted => some (c :: counted)
    | none => if c.state.isRunning then some ({ c with count } :: cs) else none

def add (r : Reading) : Clause → Reading
  | .change state cron recurrence => { r with changes := r.changes ++ [{ state, cron, recurrence }] }
  | .count n =>
    match countLast n r.changes with
    | some counted => { r with changes := counted }
    | none => { r with warnings := r.warnings ++ [.countWithoutRunning n] }

/-- Reads clauses in turn. Returns what was read before the first faulty clause, and what is wrong with that one. -/
def extend (r : Reading) : List (List Char) → Reading × Option ScheduleError
  | [] => (r, none)
  | clause :: clauses =>
    match Clause.read clause with
    | .ok c => (r.add c).extend clauses
    | .error e => (r, some e)

end Reading

namespace Schedule

/-- The clauses of a schedule without blanks around them, up to the first comment. -/
def clauses (text : List Char) : List (List Char) :=
  (((Text.split (· == '.') (Text.trim text)).map Text.trim).filter fun c => !c.isEmpty).takeWhile
    fun c => !"//".toList.isPrefixOf c

/-- All that can be read of a schedule before its first fault, and that fault. -/
def scan (text : String) : Reading × Option ScheduleError :=
  Reading.extend {} (clauses text.toList)

def read (text : String) : Except ScheduleError Reading :=
  match scan text with
  | (reading, none) => .ok reading
  | (_, some e) => .error e

/-- Reading a schedule reports each count that no running clause precedes, also when a later clause is at fault. -/
def journal (text : String) : List Event :=
  (scan text).1.warnings.map fun
    | .countWithoutRunning count =>
      .plain .warning "no running change specified for count" [("schedule", .text text), ("count", .number count)]

end Schedule

end ServiceHours
