import ServiceHours.Week

/-!
# Utilization

How much of the week a service is scheduled to run. The week is a circle: the last transition holds until the first
one of the next week. `Week.runningMinutes` counts in whole minutes and `Week.utilization` is its share of the week.
-/

namespace ServiceHours

def minutesPerDay : Nat := 1440

def minutesPerWeek : Nat := 10080

/-- Minutes from the start of the week. -/
def Occurrence.minuteOfWeek (o : Occurrence) : Nat :=
  o.weekday * minutesPerDay + o.minuteOfDay

/-- The running time from a transition through the following ones, each given by its minute and state. -/
def runningTime (current : Nat × DesiredState) : List (Nat × DesiredState) → Int
  | [] => 0
  | next :: later => (if current.2.isRunning then (next.1 : Int) - current.1 else 0) + runningTime next later

namespace Week

/-- The minutes of a week in which the service is to run. A service without transitions runs all the time. -/
def runningMinutes (w : Week) (s : Service) : Int :=
  match (w.occurrencesOf s).map fun o => (o.minuteOfWeek, o.state) with
  | [] => minutesPerWeek
  | first :: later => runningTime first (later ++ [(first.1 + minutesPerWeek, first.2)])

/-- The share of the week in which the service is to run, between 0 and 1. -/
def utilization (w : Week) (s : Service) : Float :=
  let share := Float.ofInt (w.runningMinutes s) / Float.ofNat minutesPerWeek
  if share < 0.0 then 0.0 else if 1.0 < share then 1.0 else share

end Week

namespace Plan

/-- The share of the week in which the plan runs its service. A disabled plan lets it run. -/
def utilization (p : Plan) : Float :=
  if p.disabled then 1.0 else (Week.add {} p).utilization p.service

def utilizationJournal (p : Plan) : List Event :=
  if p.disabled then [] else p.addJournal

end Plan

end ServiceHours
