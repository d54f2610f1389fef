import ServiceHours.Control.Decision

/-!
# Outcomes

What became of each plan in a pass, and the counts of a pass.
-/

namespace ServiceHours

/-- What became of one plan. Its justification and its actions are no fields, although they are part of what is
reported: they are set once, from the decision and the service, and none of the four changes afterwards. As functions of
the other two (`Outcome.justification`, `Outcome.actions`) they cannot disagree with them. -/
structure Outcome where
  service : Service
  decision : Decision
  /-- Whether the actions were carried out to the end. -/
  applied : Bool := false
  /-- The text of the failure that stopped the actions. -/
  error : Option String := none
deriving DecidableEq, Repr

namespace Outcome

def justification (o : Outcome) : String :=
  o.decision.justification

/-- The actions the decision calls for, whether or not they were carried out. -/
def actions (o : Outcome) : List Action :=
  o.decision.actions o.service

end Outcome

structure Summary where
  started : Nat := 0
  stopped : Nat := 0
  rescaled : Nat := 0
  unchanged : Nat := 0
  skipped : Nat := 0
  failed : Nat := 0
deriving DecidableEq, Repr, Inhabited

namespace Summary

/-- Counts one more outcome. A failure counts as such, whatever was decided. -/
def add (s : Summary) (o : Outcome) : Summary :=
  if o.error.isSome then { s with failed := s.failed + 1 }
  else match o.decision with
    | .start _ => { s with started := s.started + 1 }
    | .stop => { s with stopped := s.stopped + 1 }
    | .rescale _ _ => { s with rescaled := s.rescaled + 1 }
    | .noOp => { s with unchanged := s.unchanged + 1 }
    | .skip _ => { s with skipped := s.skipped + 1 }

def ofOutcomes (outcomes : List Outcome) : Summary :=
  outcomes.foldl add {}

end Summary

end ServiceHours
