import ServiceHours.Week

/-!
# Transitions in calendar time

The weekly table projected onto the calendar: `Week.transitionsOn` lists the transitions of a day, and
`Week.lastTransition` finds the last one of a service at or before an instant.
-/

namespace ServiceHours

/-- A transition of a service at an instant. -/
structure Transition where
  service : Service
  state : DesiredState
  count : Nat
  instant : Timestamp
deriving DecidableEq, Repr, Inhabited

def Transition.text (t : Transition) : String :=
  "on [" ++ t.instant.clockText ++ "] the desired state of service [" ++ t.service.name ++ "] is [" ++ t.state.text
    ++ "]"

namespace Occurrence

/-- The instant of an occurrence in the week of `now`, which starts on Sunday, moved by whole weeks. -/
def instant (o : Occurrence) (now : Timestamp) (weeks : Int) : Timestamp :=
  .ofLocal (now.localDay + (o.weekday - now.weekday) + 7 * weeks) o.minuteOfDay now.offset

/-- The transition of an occurrence in the week of `now`, moved by whole weeks. -/
def transition (o : Occurrence) (now : Timestamp) (weeks : Int) : Transition :=
  { service := o.service, state := o.state, count := o.count, instant := o.instant now weeks }

end Occurrence

namespace Week

def transitionsOn (w : Week) (now : Timestamp) : List Transition :=
  (w.onDay now.weekday).map (·.transition now 0)

/-- The last transition of a service at or before `now`. If none of this week's has come yet, it is the last one of
the week before; there is none only for a service that is not in the table. -/
def lastTransition (w : Week) (s : Service) (now : Timestamp) : Option Transition :=
  match ((w.occurrencesOf s).takeWhile fun o => (o.instant now 0).noLater now).getLast? with
  | some o => some (o.transition now 0)
  | none => (w.occurrencesOf s).getLast?.map (·.transition now (-1))

end Week

end ServiceHours
