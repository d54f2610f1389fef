import ServiceHours.Proofs.Week.Table

/-!
# The table as one sequence

The transitions of the week in one list, and those of one service by themselves.

* Adding a transition to a sound table puts it into its place in the list, unless its slot is taken
  (`Week.Sound.occurrences_insert`).
* Transitions of other services do not count in that (`Week.Sound.occurrencesOf_insert`). So those of a service come
  from its own plans, in their order (`Week.occurrencesOf_ofPlans`), and other plans may be left out
  (`Week.occurrencesOf_ofPlans_filter`).
* Marking what exists changes the marks and nothing else (`Week.occurrencesOf_markKnown`), and the mark of a service
  that the table has can be read off again (`Week.known_markKnown`).
-/

namespace ServiceHours

/-! ### Insertion into the week -/

namespace Occurrence

/-- Whether `a` may stand before `b` in the week. -/
def noLater (a b : Occurrence) : Bool :=
  a.weekday < b.weekday || (a.weekday = b.weekday && a.minuteOfDay ≤ b.minuteOfDay)

/-- Puts a transition into its place in the week, unless its slot is taken. -/
def insertInto (o : Occurrence) (os : List Occurrence) : List Occurrence :=
  if os.any (·.slot = o.slot) then os else insertBy noLater o os

theorem noLater_iff (a b : Occurrence) :
    a.noLater b = true ↔ a.weekday < b.weekday ∨ (a.weekday = b.weekday ∧ a.minuteOfDay ≤ b.minuteOfDay) := by
  simp only [noLater, Bool.or_eq_true, Bool.and_eq_true, decide_eq_true_eq]

theorem noLater_trans (a b c : Occurrence) (hab : a.noLater b) (hbc : b.noLater c) : a.noLater c := by
  rw [noLater_iff] at *
  omega

private theorem noLater_eq_false_of_lt {a b : Occurrence} (h : b.weekday < a.weekday) : a.noLater b = false := by
  rw [← Bool.not_eq_true, noLater_iff]
  omega

private theorem any_slot_eq_false {o : Occurrence} {os : List Occurrence} (h : ∀ x ∈ os, x.weekday ≠ o.weekday) :
    os.any (·.slot = o.slot) = false := by
  rw [List.any_eq_false]
  intro x hx hslot
  exact h x hx (congrArg Slot.weekday (of_decide_eq_true hslot))

/-- Transitions on earlier days can be set aside. -/
private theorem insertInto_append_left {o : Occurrence} {xs : List Occurrence} (h : ∀ x ∈ xs, x.weekday < o.weekday)
    (ys : List Occurrence) : o.insertInto (xs ++ ys) = xs ++ o.insertInto ys := by
  have hxs : xs.any (·.slot = o.slot) = false := any_slot_eq_false fun x hx => Nat.ne_of_lt (h x hx)
  have hle : ∀ x ∈ xs, x.noLater o = true := fun x hx => (x.noLater_iff o).mpr (Or.inl (h x hx))
  simp only [insertInto, List.any_append, hxs, Bool.false_or]
  split
  · rfl
  · exact insertBy_append_left hle ys

/-- So can those on later days. -/
private theorem insertInto_append_right {o : Occurrence} (xs : List Occurrence) {ys : List Occurrence}
    (h : ∀ y ∈ ys, o.weekday < y.weekday) : o.insertInto (xs ++ ys) = o.insertInto xs ++ ys := by
  have hys : ys.any (·.slot = o.slot) = false := any_slot_eq_false fun y hy => (Nat.ne_of_lt (h y hy)).symm
  simp only [insertInto, List.any_append, hys, Bool.or_false]
  split
  · rfl
  · exact insertBy_append_right xs fun y hy => noLater_eq_false_of_lt (h y hy)

/-- Transitions that are told apart from others by their slots do not heed the others when one is added. -/
theorem filter_insertInto {p : Occurrence → Bool} (hp : ∀ a b : Occurrence, a.slot = b.slot → p a = p b)
    (o : Occurrence) {os : List Occurrence} (h : os.Pairwise fun a b => a.noLater b) :
    (o.insertInto os).filter p = if p o then o.insertInto (os.filter p) else os.filter p := by
  have hinsert := filter_insertBy noLater_trans p h (x := o)
  by_cases ho : p o = true
  · have htaken : (os.filter p).any (·.slot = o.slot) = os.any (·.slot = o.slot) := by
      rw [List.any_filter]
      congr 1
      funext x
      by_cases hslot : x.slot = o.slot
      · have hx : p x = true := (hp x o hslot).trans ho
        simp [hslot, hx]
      · simp [hslot]
    rw [if_pos ho] at hinsert ⊢
    unfold insertInto
    rw [htaken]
    split
    · rfl
    · exact hinsert
  · rw [if_neg ho] at hinsert ⊢
    unfold insertInto
    split
    · rfl
    · exact hinsert

end Occurrence

private theorem Day.occurrences_insert (d : Day) (x : Switch) :
    (d.insert x).occurrences = Occurrence.insertInto ⟨x, d.weekday⟩ d.occurrences := by
  have htaken : d.occurrences.any (fun y => y.slot = (⟨x, d.weekday⟩ : Occurrence).slot) =
      d.switches.any (·.same x) := by
    rw [Day.occurrences, List.any_map]
    congr 1
    funext y
    rw [Bool.eq_iff_iff, Switch.same_iff_slotOn_eq y x d.weekday]
    exact decide_eq_true_iff
  unfold Occurrence.insertInto
  rw [htaken]
  unfold Day.insert
  split
  · rfl
  · refine map_insertBy (fun y => ?_) d.switches
    simp [Occurrence.noLater]

namespace Week

/-- The days before and after that of the new transition are set aside one by one. -/
private theorem flatMap_changeDay {o : Occurrence} {days : List (Nat × Day)}
    (hascending : days.Pairwise fun a b => a.1 < b.1) (hnumber : ∀ entry ∈ days, entry.2.weekday = entry.1) :
    (changeDay o.weekday (·.insert o.toSwitch) days).flatMap (·.2.occurrences) =
      o.insertInto (days.flatMap (·.2.occurrences)) := by
  have hempty : (({ weekday := o.weekday } : Day).insert o.toSwitch).occurrences = [o] := rfl
  have weekday_of_mem {entry : Nat × Day} {x : Occurrence} (hx : x ∈ entry.2.occurrences) :
      x.weekday = entry.2.weekday := by
    obtain ⟨y, -, rfl⟩ := List.mem_map.mp hx
    rfl
  induction days with
  | nil => exact List.append_nil _
  | cons first rest ih =>
    obtain ⟨hfirst, hrest⟩ := List.pairwise_cons.mp hascending
    have hday : first.2.weekday = first.1 := hnumber first List.mem_cons_self
    have hlater : ∀ x ∈ rest.flatMap (·.2.occurrences), first.1 < x.weekday := by
      intro x hx
      obtain ⟨entry, hentry, hx⟩ := List.mem_flatMap.mp hx
      rw [weekday_of_mem hx, hnumber entry (List.mem_cons_of_mem first hentry)]
      exact hfirst entry hentry
    unfold changeDay
    split
    · -- The day is there.
      rename_i heq
      have hinsert := first.2.occurrences_insert o.toSwitch
      rw [hday, heq] at hinsert
      rw [heq] at hlater
      rw [List.flatMap_cons, List.flatMap_cons, Occurrence.insertInto_append_right _ hlater]
      exact congrArg (· ++ _) hinsert
    · split
      · -- It is to come before the first day of the table.
        rename_i hlt
        have hbehind : ∀ x ∈ (first :: rest).flatMap (·.2.occurrences), o.weekday < x.weekday := by
          intro x hx
          rw [List.flatMap_cons] at hx
          rcases List.mem_append.mp hx with hx | hx
          · rw [weekday_of_mem hx, hday]
            exact hlt
          · exact Nat.lt_trans hlt (hlater x hx)
        rw [List.flatMap_cons, hempty]
        exact (Occurrence.insertInto_append_right [] hbehind).symm
      · rename_i hne hnlt
        have hbefore : ∀ x ∈ first.2.occurrences, x.weekday < o.weekday := by
          intro x hx
          rw [weekday_of_mem hx, hday]
          omega
        rw [List.flatMap_cons, List.flatMap_cons, Occurrence.insertInto_append_left hbefore,
          ih hrest fun entry hentry => hnumber entry (List.mem_cons_of_mem first hentry)]

variable {w : Week}

/-- Adding a transition to the table is inserting it into the sequence of its transitions. -/
theorem Sound.occurrences_insert (h : w.Sound) (o : Occurrence) :
    (w.insert o).occurrences = o.insertInto w.occurrences :=
  flatMap_changeDay h.ascending h.weekday_eq

/-! ### One service -/

/-- A transition of one service goes among those of the same service, as if there were no other. -/
theorem Sound.occurrencesOf_insert (h : w.Sound) (o : Occurrence) (s : Service) :
    (w.insert o).occurrencesOf s =
      if o.service = s then o.insertInto (w.occurrencesOf s) else w.occurrencesOf s := by
  have hordered : w.occurrences.Pairwise fun a b => a.noLater b :=
    h.ordered.imp fun hab => (Occurrence.noLater_iff _ _).mpr hab
  have hslot (a b : Occurrence) (hab : a.slot = b.slot) : decide (a.service = s) = decide (b.service = s) := by
    rw [show a.service = b.service from congrArg Slot.service hab]
  rw [occurrencesOf_eq_filter, occurrencesOf_eq_filter, h.occurrences_insert,
    Occurrence.filter_insertInto hslot o hordered]
  simp only [decide_eq_true_eq]

private theorem Sound.occurrencesOf_foldl_insert (h : w.Sound) {os : List Occurrence}
    (hos : ∀ o ∈ os, o.weekday < daysPerWeek) (s : Service) :
    (os.foldl Week.insert w).occurrencesOf s =
      (os.filter (·.service = s)).foldl (fun seen o => o.insertInto seen) (w.occurrencesOf s) := by
  induction os generalizing w with
  | nil => rfl
  | cons o os ih =>
    have ho : o.weekday < daysPerWeek := hos o List.mem_cons_self
    rw [List.foldl_cons, ih (h.insert ho) fun x hx => hos x (List.mem_cons_of_mem o hx), h.occurrencesOf_insert]
    by_cases hs : o.service = s <;> simp [hs]

end Week

namespace Plan

private theorem service_of_mem_occurrences {p : Plan} {o : Occurrence} (h : o ∈ p.occurrences) :
    o.service = p.service := by
  unfold occurrences at h
  split at h
  · obtain ⟨c, -, ho⟩ := List.mem_flatMap.mp h
    obtain ⟨d, -, rfl⟩ := List.mem_map.mp ho
    rfl
  · cases h

/-- Of all that plans ask for, a service gets what its own plans ask for. -/
private theorem filter_flatMap_occurrences (plans : List Plan) (s : Service) :
    (plans.flatMap occurrences).filter (·.service = s) =
      (plans.filter (·.service = s)).flatMap occurrences := by
  induction plans with
  | nil => rfl
  | cons p plans ih =>
    rw [List.flatMap_cons, List.filter_append, ih, List.filter_cons]
    by_cases hs : p.service = s
    · have hall : p.occurrences.filter (·.service = s) = p.occurrences :=
        List.filter_eq_self.mpr fun o ho => decide_eq_true ((service_of_mem_occurrences ho).trans hs)
      rw [hall, if_pos (decide_eq_true hs), List.flatMap_cons]
    · have hnone : p.occurrences.filter (·.service = s) = [] := by
        rw [List.filter_eq_nil_iff]
        intro o ho hos
        exact hs ((service_of_mem_occurrences ho).symm.trans (of_decide_eq_true hos))
      rw [hnone, if_neg (by simpa using hs), List.nil_append]

end Plan

namespace Week

/-- In the table of some plans a service has what its own plans ask for, put in order one by one. -/
theorem occurrencesOf_ofPlans (plans : List Plan) (s : Service) :
    (ofPlans plans).occurrencesOf s =
      ((plans.filter (·.service = s)).flatMap Plan.occurrences).foldl (fun seen o => o.insertInto seen) [] := by
  have hinsert : ofPlans plans = (plans.flatMap Plan.occurrences).foldl insert {} := List.foldl_flatMap.symm
  have hos : ∀ o ∈ plans.flatMap Plan.occurrences, o.weekday < daysPerWeek := by
    intro o ho
    obtain ⟨p, -, ho⟩ := List.mem_flatMap.mp ho
    exact Plan.weekday_lt_of_mem_occurrences ho
  rw [hinsert, Sound.empty.occurrencesOf_foldl_insert hos, Plan.filter_flatMap_occurrences]
  rfl

/-- Plans of other services may be left out. -/
theorem occurrencesOf_ofPlans_filter (plans : List Plan) (s : Service) :
    (ofPlans (plans.filter (·.service = s))).occurrencesOf s = (ofPlans plans).occurrencesOf s := by
  rw [occurrencesOf_ofPlans, occurrencesOf_ofPlans, List.filter_filter]
  simp only [Bool.and_self]

/-- The only plan of a service may as well be the only one at all. -/
theorem occurrencesOf_ofPlans_alone {plans : List Plan} {p : Plan} (h : plans.filter (·.service = p.service) = [p]) :
    (ofPlans [p]).occurrencesOf p.service = (ofPlans plans).occurrencesOf p.service := by
  rw [← occurrencesOf_ofPlans_filter plans, h]

/-- Marking changes the marks and nothing else. -/
theorem occurrences_markKnown (w : Week) (known : Service → Bool) :
    (w.markKnown known).occurrences = w.occurrences.map fun o => { o with known := known o.service } := by
  simp only [occurrences, markKnown, Day.markKnown, Day.occurrences, List.flatMap_map, List.map_flatMap,
    List.map_map]
  rfl

theorem occurrencesOf_markKnown (w : Week) (known : Service → Bool) (s : Service) :
    (w.markKnown known).occurrencesOf s =
      (w.occurrencesOf s).map fun o => { o with known := known o.service } := by
  rw [occurrencesOf_eq_filter, occurrencesOf_eq_filter, occurrences_markKnown, List.filter_map]
  rfl

/-- The mark of a service can be read off the table if the table has transitions of it. -/
theorem known_markKnown {w : Week} {s : Service} (h : w.occurrencesOf s ≠ []) (known : Service → Bool) :
    (w.markKnown known).known s = known s := by
  have hmarked : ∀ o ∈ w.occurrencesOf s, known o.service = known s := fun o ho =>
    congrArg known (mem_occurrencesOf.mp ho).2
  obtain ⟨first, hfirst⟩ := List.exists_mem_of_ne_nil _ h
  rw [Week.known, occurrencesOf_markKnown, List.all_map, Bool.eq_iff_iff, List.all_eq_true]
  constructor
  · intro hall
    exact (hmarked first hfirst).symm.trans (hall first hfirst)
  · intro hs o ho
    exact (hmarked o ho).trans hs

end Week

end ServiceHours
