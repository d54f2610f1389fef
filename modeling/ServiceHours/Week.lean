import ServiceHours.Plan

/-!
# The weekly table

All transitions that the enabled plans ask for in a week: the days that have any, in order, and for each day its
transitions by time of day. Transitions at the same time stand in the order in which they were added.

* `Plan.occurrences` lists the transitions of one plan;
* `Day.insert` puts a transition into its day, once: a second transition of the same service to the same state at the
  same time is left out, whatever its count (`Day.exists_same_insert`, `Day.mem_insert`);
* `Week.insert` finds the day, or makes a new one, and `Week.add` puts the transitions of a plan into the table;
* `Week.onDay` and `Week.occurrencesOf` are the two views of the table.
-/

namespace ServiceHours

def daysPerWeek : Nat := 7

/-- A transition of one service at a time of day. -/
structure Switch where
  service : Service
  hour : Nat
  minute : Nat
  state : DesiredState
  count : Nat
  cron : String
  /-- Cleared when the remote inventory does not list the service. -/
  known : Bool := true
deriving DecidableEq, Repr, Inhabited

namespace Switch

def minuteOfDay (x : Switch) : Nat :=
  x.hour * 60 + x.minute

/-- Whether two are the same transition at the same time of day; counts do not matter. -/
def same (a b : Switch) : Bool :=
  a.service = b.service && a.state = b.state && a.hour = b.hour && a.minute = b.minute

def text (x : Switch) : String :=
  "on [" ++ Text.padded 2 x.hour ++ ":" ++ Text.padded 2 x.minute ++ "] the state of service [" ++ x.service.name
    ++ "] is changed to [" ++ x.state.text ++ "]"

def ofChange (service : Service) (c : Change) : Switch :=
  { service, hour := c.recurrence.hour, minute := c.recurrence.minute, state := c.state, count := c.count,
    cron := c.cron }

end Switch

/-- A transition of one service at a time of one day of the week. -/
structure Occurrence extends Switch where
  weekday : Nat
deriving DecidableEq, Repr, Inhabited

namespace Plan

/-- The transitions a plan asks for, change by change and day by day; days outside the week do not count. -/
def occurrences (p : Plan) : List Occurrence :=
  if p.isActive then
    p.changes.flatMap fun c =>
      (c.recurrence.days.filter (· < daysPerWeek)).map fun d => ⟨.ofChange p.service c, d⟩
  else []

/-- Adding a plan that asks for nothing is reported. -/
def addJournal (p : Plan) : List Event :=
  if p.isActive then []
  else [.plain .detail "service plan not scheduled"
    [("service", .text p.service.path), ("disabled", .flag p.disabled)]]

end Plan

/-- One day of the table with its transitions in the order of the time of day. -/
structure Day where
  weekday : Nat
  switches : List Switch := []
deriving DecidableEq, Repr, Inhabited

namespace Day

/-- Adds one transition behind all that come no later, unless it is there already. -/
def insert (d : Day) (x : Switch) : Day :=
  if d.switches.any (·.same x) then d
  else { d with switches := insertBy (fun a b => a.minuteOfDay ≤ b.minuteOfDay) x d.switches }

/-- An added transition is there, if only as one that is the same. -/
theorem exists_same_insert (d : Day) (x : Switch) : ∃ y ∈ (d.insert x).switches, y.same x := by
  unfold insert
  split
  · rename_i h
    simpa using h
  · exact ⟨x, mem_insertBy.mpr (Or.inl rfl), by simp [Switch.same]⟩

/-- Nothing but the added transition comes in. -/
theorem mem_insert {d : Day} {x y : Switch} (h : y ∈ (d.insert x).switches) : y = x ∨ y ∈ d.switches := by
  unfold insert at h
  split at h
  · exact Or.inr h
  · exact mem_insertBy.mp h

def length (d : Day) : Nat :=
  d.switches.length

/-- The transitions with the day they are on. -/
def occurrences (d : Day) : List Occurrence :=
  d.switches.map fun x => ⟨x, d.weekday⟩

def markKnown (d : Day) (known : Service → Bool) : Day :=
  { d with switches := d.switches.map fun x => { x with known := known x.service } }

end Day

/-- The days that have transitions, each under its number and in the order of the week. -/
structure Week where
  days : List (Nat × Day) := []
deriving DecidableEq, Repr, Inhabited

namespace Week

/-- Changes the day under a number. A day that is missing starts without transitions and comes to its place. -/
def changeDay (weekday : Nat) (change : Day → Day) : List (Nat × Day) → List (Nat × Day)
  | [] => [(weekday, change { weekday })]
  | entry :: rest =>
    if entry.1 = weekday then (weekday, change entry.2) :: rest
    else if weekday < entry.1 then (weekday, change { weekday }) :: entry :: rest
    else entry :: changeDay weekday change rest

def insert (w : Week) (o : Occurrence) : Week :=
  ⟨changeDay o.weekday (·.insert o.toSwitch) w.days⟩

def add (w : Week) (p : Plan) : Week :=
  p.occurrences.foldl insert w

def ofPlans (plans : List Plan) : Week :=
  plans.foldl add {}

def day? (w : Week) (weekday : Nat) : Option Day :=
  (w.days.find? (·.1 = weekday)).map (·.2)

/-- The transitions on one day of the week. -/
def onDay (w : Week) (weekday : Nat) : List Occurrence :=
  match w.day? weekday with
  | some d => d.switches.map fun x => ⟨x, weekday⟩
  | none => []

def occurrences (w : Week) : List Occurrence :=
  w.days.flatMap (·.2.occurrences)

def occurrencesOf (w : Week) (s : Service) : List Occurrence :=
  w.days.flatMap fun entry => entry.2.occurrences.filter (·.service = s)

/-- Whether the table has a transition of the service. -/
def contains (w : Week) (s : Service) : Bool :=
  !(w.occurrencesOf s).isEmpty

def size (w : Week) : Nat :=
  w.days.foldl (fun n entry => n + entry.2.length) 0

def markKnown (w : Week) (known : Service → Bool) : Week :=
  ⟨w.days.map fun entry => (entry.1, entry.2.markKnown known)⟩

/-- Whether every transition of the service is marked as existing remotely. -/
def known (w : Week) (s : Service) : Bool :=
  (w.occurrencesOf s).all (·.known)

end Week

end ServiceHours
