import ServiceHours.Order.Insert
import ServiceHours.Schedule.Recurrence
import ServiceHours.State

/-!
# Timed changes

One entry of a schedule: the state a service is to have from a recurring time on. `Change.sortByTime` puts changes
in the order of their times of day; changes at the same time keep their order.
-/

namespace ServiceHours

/-- A change of the desired state. The count is that of a running service; 0 means that none was given. -/
structure Change where
  state : DesiredState
  count : Nat := 0
  cron : String
  recurrence : Recurrence := {}
deriving DecidableEq, Repr, Inhabited

namespace Change

def minuteOfDay (c : Change) : Nat :=
  c.recurrence.minuteOfDay

/-- The clause of the change in a schedule. -/
def text (c : Change) : String :=
  c.state.text ++ "=" ++ c.cron ++ "."

/-- Whether `a` comes no later in the day than `b`. -/
def noLater (a b : Change) : Bool :=
  decide (a.minuteOfDay ≤ b.minuteOfDay)

/-- The changes in the order of their times of day. -/
def sortByTime (changes : List Change) : List Change :=
  sortBy noLater changes

private theorem noLater_trans (a b c : Change) : noLater a b → noLater b c → noLater a c := by
  simp only [noLater, decide_eq_true_eq]
  omega

private theorem noLater_total (a b : Change) : noLater a b || noLater b a := by
  simp only [noLater, Bool.or_eq_true, decide_eq_true_eq]
  omega

theorem sortByTime_eq_mergeSort (changes : List Change) : sortByTime changes = changes.mergeSort noLater :=
  sortBy_eq_mergeSort noLater_trans noLater_total changes

theorem sortByTime_perm (changes : List Change) : (sortByTime changes).Perm changes := by
  rw [sortByTime_eq_mergeSort]
  exact List.mergeSort_perm changes noLater

/-- After sorting no change comes before an earlier one. -/
theorem pairwise_sortByTime (changes : List Change) :
    (sortByTime changes).Pairwise fun a b => a.minuteOfDay ≤ b.minuteOfDay := by
  rw [sortByTime_eq_mergeSort]
  exact (List.pairwise_mergeSort noLater_trans noLater_total changes).imp fun hab => by simpa [noLater] using hab

/-- Changes at the same time of day keep their order. -/
theorem filter_sortByTime (changes : List Change) (minute : Nat) :
    (sortByTime changes).filter (·.minuteOfDay = minute) = changes.filter (·.minuteOfDay = minute) := by
  rw [sortByTime_eq_mergeSort]
  refine filter_mergeSort noLater_trans noLater_total (fun a b ha hb => ?_) changes
  simp only [decide_eq_true_eq] at ha hb
  exact decide_eq_true (by omega)

end Change

end ServiceHours
