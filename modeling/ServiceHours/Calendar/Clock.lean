import ServiceHours.Calendar.Timestamp

/-!
# A clock set by hand

A clock that stands still until it is advanced or set.
-/

namespace ServiceHours

structure Clock where
  now : Timestamp
deriving DecidableEq, Repr, Inhabited

namespace Clock

/-- A clock that shows Monday, 2024-01-01, noon UTC. -/
def start : Clock := ⟨⟨1704110400, 0, 0⟩⟩

def advance (c : Clock) (seconds : Int) : Clock := ⟨c.now.plus seconds⟩

def set (_ : Clock) (time : Timestamp) : Clock := ⟨time⟩

end Clock

end ServiceHours
