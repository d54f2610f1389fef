import ServiceHours.Proofs.Week.Sound

/-!
# The weekly table

What the table of the week holds after plans were added and existence was marked, in any order and number.

* `Week.stored?` looks up what the table holds for a slot. That is what was asked for first (`Week.stored?_ofSteps`).
* `Week.ofSteps_exact` reads this off the days of the table: nothing is lost, repeated or misplaced.
-/

namespace ServiceHours

/-! ### What is stored -/

def Occurrence.slot (o : Occurrence) : Slot :=
  o.slotOn o.weekday

namespace Week

/-- What the table holds for a slot, whether or not the service is marked as known. -/
def stored? (w : Week) (slot : Slot) : Option Switch :=
  (w.day? slot.weekday).bind fun d => (d.switches.find? (·.slotOn slot.weekday = slot)).map Switch.unmarked

private theorem stored?_insert {w : Week} (h : w.Sound) (o : Occurrence) (slot : Slot) :
    (w.insert o).stored? slot = (w.stored? slot).or (if o.slot = slot then some o.unmarked else none) := by
  unfold stored?
  rw [h.day?_insert]
  split
  · rename_i hday
    have hfilled : (if o.slotOn slot.weekday = slot then some o.toSwitch else none).map Switch.unmarked =
        if o.slot = slot then some o.unmarked else none := by
      unfold Occurrence.slot
      rw [hday]
      split <;> rfl
    rw [Option.bind_some, Day.find?_insert, Option.map_or, hfilled, hday]
    rcases w.day? o.weekday with - | d
    · rfl
    · rfl
  · -- The slot is on another day, which the insertion leaves as it is.
    rename_i hday
    have hslot : ¬o.slot = slot := fun he => hday (congrArg Slot.weekday he).symm
    rw [if_neg hslot, Option.or_none]

theorem stored?_foldl_insert {w : Week} (h : w.Sound) {os : List Occurrence}
    (hos : ∀ o ∈ os, o.weekday < daysPerWeek) (slot : Slot) :
    (os.foldl insert w).stored? slot =
      (w.stored? slot).or ((os.find? (·.slot = slot)).map fun o => o.unmarked) := by
  induction os generalizing w with
  | nil => simp
  | cons o os ih =>
    have ho := hos o List.mem_cons_self
    have hrest := ih (h.insert ho) fun x hx => hos x (List.mem_cons_of_mem _ hx)
    rw [List.foldl_cons, hrest, stored?_insert h, Option.or_assoc, List.find?_cons]
    by_cases hslot : o.slot = slot <;> simp [hslot]

private theorem stored?_markKnown (w : Week) (known : Service → Bool) (slot : Slot) :
    (w.markKnown known).stored? slot = w.stored? slot := by
  have hday : (w.markKnown known).day? slot.weekday = (w.day? slot.weekday).map (·.markKnown known) := by
    simp only [day?, markKnown, List.find?_map, Option.map_map]
    rfl
  unfold stored?
  rw [hday, Option.bind_map]
  congr 1
  funext d
  simp only [Function.comp, Day.markKnown, List.find?_map, Option.map_map]
  rfl

/-! ### What was asked for -/

/-- The changes a step brings in, each with the service of its plan; those of a disabled plan do not count. -/
def Step.changes : Step → List (Service × Change)
  | .add plan => if plan.disabled then [] else plan.changes.map fun c => (plan.service, c)
  | .mark _ => []

/-- All changes that were brought in, in the order in which they came. -/
def asked (steps : List Step) : List (Service × Change) :=
  steps.flatMap Step.changes

private theorem mem_asked {steps : List Step} {s : Service} {c : Change} :
    (s, c) ∈ asked steps ↔ ∃ p, Step.add p ∈ steps ∧ p.disabled = false ∧ p.service = s ∧ c ∈ p.changes := by
  constructor
  · intro h
    obtain ⟨st, hst, hc⟩ := List.mem_flatMap.mp h
    cases st with
    | mark known => simp [Step.changes] at hc
    | add p =>
      simp only [Step.changes] at hc
      split at hc
      · simp at hc
      · rename_i hdis
        obtain ⟨x, hx, he⟩ := List.mem_map.mp hc
        obtain ⟨rfl, rfl⟩ := Prod.mk.inj he
        exact ⟨p, hst, by simpa using hdis, rfl, hx⟩
  · rintro ⟨p, hp, hdis, rfl, hc⟩
    refine List.mem_flatMap.mpr ⟨.add p, hp, ?_⟩
    simp [Step.changes, hdis, hc]

end Week

namespace Slot

/-- Whether a change of a service asks for a transition in the slot. -/
def isAskedBy (slot : Slot) (entry : Service × Change) : Bool :=
  entry.1 = slot.service && entry.2.state = slot.state && entry.2.recurrence.hour = slot.hour
    && entry.2.recurrence.minute = slot.minute && entry.2.recurrence.days.contains slot.weekday

private theorem isAskedBy_iff (slot : Slot) (s : Service) (c : Change) :
    slot.isAskedBy (s, c) = true ↔ s = slot.service ∧ c.state = slot.state ∧ c.recurrence.hour = slot.hour ∧
      c.recurrence.minute = slot.minute ∧ slot.weekday ∈ c.recurrence.days := by
  simp only [isAskedBy, Bool.and_eq_true, decide_eq_true_eq, List.contains_iff_mem, and_assoc]

private theorem slot_ofChange_iff (slot : Slot) (s : Service) (c : Change) (d : Nat) :
    (⟨.ofChange s c, d⟩ : Occurrence).slot = slot ↔ d = slot.weekday ∧ s = slot.service ∧ c.state = slot.state ∧
      c.recurrence.hour = slot.hour ∧ c.recurrence.minute = slot.minute := by
  cases slot
  simp only [Occurrence.slot, Switch.slotOn, Switch.ofChange, Slot.mk.injEq]

/-- The transitions of one change have one in the slot exactly if the change asks for it. -/
private theorem find?_ofChange {slot : Slot} (hlt : slot.weekday < daysPerWeek) (s : Service) (c : Change) :
    ((c.recurrence.days.filter (· < daysPerWeek)).map fun d => (⟨.ofChange s c, d⟩ : Occurrence)).find?
        (·.slot = slot) =
      if slot.isAskedBy (s, c) then some ⟨.ofChange s c, slot.weekday⟩ else none := by
  split
  · rename_i hasked
    obtain ⟨hs, hstate, hhour, hminute, hday⟩ := (isAskedBy_iff slot s c).mp hasked
    have hmem : slot.weekday ∈ c.recurrence.days.filter (· < daysPerWeek) := by simp [hday, hlt]
    have hhit : (⟨.ofChange s c, slot.weekday⟩ : Occurrence).slot = slot :=
      (slot_ofChange_iff slot s c _).mpr ⟨rfl, hs, hstate, hhour, hminute⟩
    -- the search cannot stop earlier: only one day of the week has the slot
    cases hfind : ((c.recurrence.days.filter (· < daysPerWeek)).map fun d =>
        (⟨.ofChange s c, d⟩ : Occurrence)).find? (·.slot = slot) with
    | none =>
      rw [List.find?_eq_none] at hfind
      exact absurd (by simpa using hhit) (hfind _ (List.mem_map_of_mem hmem))
    | some o =>
      obtain ⟨d, -, rfl⟩ := List.mem_map.mp (List.mem_of_find?_eq_some hfind)
      have hd : (⟨.ofChange s c, d⟩ : Occurrence).slot = slot := by simpa using List.find?_some hfind
      rw [((slot_ofChange_iff slot s c d).mp hd).1]
  · rename_i hasked
    rw [List.find?_eq_none]
    intro o ho hslot
    obtain ⟨d, hd, rfl⟩ := List.mem_map.mp ho
    obtain ⟨rfl, hrest⟩ := (slot_ofChange_iff slot s c d).mp (by simpa using hslot)
    have hday : slot.weekday ∈ c.recurrence.days := (List.mem_filter.mp hd).1
    exact hasked ((isAskedBy_iff slot s c).mpr ⟨hrest.1, hrest.2.1, hrest.2.2.1, hrest.2.2.2, hday⟩)

end Slot

private theorem findSome?_ite {α β : Type} (p : α → Bool) (g : α → β) (l : List α) :
    (l.findSome? fun a => if p a then some (g a) else none) = (l.find? p).map g := by
  induction l with
  | nil => rfl
  | cons a l ih =>
    by_cases h : p a
    · simp [h]
    · simp [h, ih]

/-- A plan without changes asks for nothing anyway, so only being disabled matters. -/
theorem Plan.occurrences_of_enabled {p : Plan} (h : p.disabled = false) :
    p.occurrences = p.changes.flatMap fun c =>
      (c.recurrence.days.filter (· < daysPerWeek)).map fun d => ⟨.ofChange p.service c, d⟩ := by
  unfold occurrences isActive
  cases hc : p.changes with
  | nil => simp
  | cons c cs => simp [h]

namespace Week

private theorem find?_occurrences (p : Plan) {slot : Slot} (hlt : slot.weekday < daysPerWeek) :
    p.occurrences.find? (·.slot = slot) =
      ((Step.add p).changes.find? slot.isAskedBy).map fun e => ⟨.ofChange e.1 e.2, slot.weekday⟩ := by
  cases hdis : p.disabled with
  | true => simp [Step.changes, hdis, Plan.occurrences, Plan.isActive]
  | false =>
    rw [Plan.occurrences_of_enabled hdis, List.find?_flatMap]
    simp only [Slot.find?_ofChange hlt, Step.changes, hdis, Bool.false_eq_true, ↓reduceIte, List.find?_map,
      Option.map_map]
    exact findSome?_ite _ _ _

/-- A step fills a slot that was free, and no other. -/
private theorem stored?_step {w : Week} (h : w.Sound) (st : Step) {slot : Slot} (hlt : slot.weekday < daysPerWeek) :
    (w.step st).stored? slot =
      (w.stored? slot).or ((st.changes.find? slot.isAskedBy).map fun e => .ofChange e.1 e.2) := by
  cases st with
  | add p =>
    rw [step, add, stored?_foldl_insert h fun _ => Plan.weekday_lt_of_mem_occurrences, find?_occurrences p hlt,
      Option.map_map]
    rfl
  | mark known => simp [step, stored?_markKnown, Step.changes]

theorem stored?_foldl_step {w : Week} (h : w.Sound) (steps : List Step) {slot : Slot}
    (hlt : slot.weekday < daysPerWeek) :
    (steps.foldl step w).stored? slot =
      (w.stored? slot).or (((asked steps).find? slot.isAskedBy).map fun e => .ofChange e.1 e.2) := by
  -- From any sound table on: what it holds already comes before all that is asked for.
  induction steps generalizing w with
  | nil => simp [asked]
  | cons st steps ih =>
    have hasked : asked (st :: steps) = st.changes ++ asked steps := List.flatMap_cons
    rw [List.foldl_cons, ih (h.step st), stored?_step h st hlt, hasked, List.find?_append, Option.map_or,
      Option.or_assoc]

/-- The table holds for each slot what was asked for first. -/
theorem stored?_ofSteps (steps : List Step) {slot : Slot} (hlt : slot.weekday < daysPerWeek) :
    (ofSteps steps).stored? slot = ((asked steps).find? slot.isAskedBy).map fun e => .ofChange e.1 e.2 := by
  have hempty : ({} : Week).stored? slot = none := rfl
  rw [ofSteps, stored?_foldl_step Sound.empty steps hlt, hempty, Option.none_or]

/-! ### Table and steps -/

private theorem eq_of_slotOn_eq {xs : List Switch} (h : xs.Pairwise fun a b => ¬a.same b = true) {a b : Switch}
    {weekday : Nat} (ha : a ∈ xs) (hb : b ∈ xs) (hs : a.slotOn weekday = b.slotOn weekday) : a = b := by
  induction xs with
  | nil => cases ha
  | cons x xs ih =>
    obtain ⟨hx, hxs⟩ := List.pairwise_cons.mp h
    rcases List.mem_cons.mp ha with rfl | ha'
    · rcases List.mem_cons.mp hb with rfl | hb'
      · rfl
      · exact absurd ((a.same_iff_slotOn_eq b weekday).mpr hs) (hx b hb')
    · rcases List.mem_cons.mp hb with rfl | hb'
      · exact absurd ((b.same_iff_slotOn_eq a weekday).mpr hs.symm) (hx a ha')
      · exact ih hxs ha' hb'

/-- A sound table holds a transition under its own slot. -/
private theorem Sound.stored?_slotOn {w : Week} (h : w.Sound) {entry : Nat × Day} (hentry : entry ∈ w.days) {x : Switch}
    (hx : x ∈ entry.2.switches) : w.stored? (x.slotOn entry.1) = some x.unmarked := by
  show (w.day? entry.1).bind _ = _
  rw [h.day?_of_mem hentry, Option.bind_some]
  cases hfind : entry.2.switches.find? (·.slotOn entry.1 = x.slotOn entry.1) with
  | none =>
    rw [List.find?_eq_none] at hfind
    exact absurd (by simp) (hfind x hx)
  | some y =>
    have hy : y.slotOn entry.1 = x.slotOn entry.1 := by simpa using List.find?_some hfind
    have heq := eq_of_slotOn_eq (h.day entry hentry).distinct (List.mem_of_find?_eq_some hfind) hx hy
    show (entry.2.switches.find? (·.slotOn entry.1 = x.slotOn entry.1)).map _ = _
    rw [hfind, heq]
    rfl

theorem Sound.exists_mem_iff {w : Week} (h : w.Sound) (slot : Slot) :
    (∃ entry ∈ w.days, entry.1 = slot.weekday ∧ ∃ x ∈ entry.2.switches, x.slotOn slot.weekday = slot) ↔
      (w.stored? slot).isSome := by
  constructor
  · rintro ⟨entry, hentry, hday, x, hx, hslot⟩
    rw [← hslot, ← hday, h.stored?_slotOn hentry hx]
    rfl
  · intro hsome
    obtain ⟨x, hx⟩ := Option.isSome_iff_exists.mp hsome
    obtain ⟨d, hd, hmap⟩ := Option.bind_eq_some_iff.mp hx
    obtain ⟨y, hy, -⟩ := Option.map_eq_some_iff.mp hmap
    exact ⟨_, mem_of_day? hd, rfl, y, List.mem_of_find?_eq_some hy, by simpa using List.find?_some hy⟩

/-- The table has a transition in a slot exactly if some change of an enabled plan asks for it. -/
private theorem exists_mem_ofSteps_iff (steps : List Step) (slot : Slot) :
    (∃ entry ∈ (ofSteps steps).days, entry.1 = slot.weekday ∧
        ∃ x ∈ entry.2.switches, x.slotOn slot.weekday = slot) ↔
      slot.weekday < 7 ∧ ∃ p, Step.add p ∈ steps ∧ p.disabled = false ∧ p.service = slot.service ∧
        ∃ c ∈ p.changes, c.state = slot.state ∧ c.recurrence.hour = slot.hour ∧ c.recurrence.minute = slot.minute ∧
          slot.weekday ∈ c.recurrence.days := by
  have hsound := sound_ofSteps steps
  by_cases hlt : slot.weekday < daysPerWeek
  · rw [hsound.exists_mem_iff, stored?_ofSteps steps hlt, Option.isSome_map, List.find?_isSome]
    constructor
    · rintro ⟨⟨s, c⟩, hmem, hasked⟩
      obtain ⟨rfl, htime⟩ := (slot.isAskedBy_iff s c).mp hasked
      obtain ⟨p, hp, hdis, hs, hc⟩ := mem_asked.mp hmem
      exact ⟨hlt, p, hp, hdis, hs, c, hc, htime⟩
    · rintro ⟨-, p, hp, hdis, hs, c, hc, htime⟩
      exact ⟨(p.service, c), mem_asked.mpr ⟨p, hp, hdis, rfl, hc⟩, (slot.isAskedBy_iff _ c).mpr ⟨hs, htime⟩⟩
  · -- Neither the table nor what is asked for has anything outside the week.
    refine iff_of_false (fun h => hlt ?_) fun h => hlt h.1
    obtain ⟨entry, hentry, hday, -⟩ := h
    exact hday ▸ hsound.number_lt entry hentry

/-- Each transition was brought in by a change of an enabled plan. -/
theorem exists_change_of_mem_occurrences {steps : List Step} {o : Occurrence} (ho : o ∈ (ofSteps steps).occurrences) :
    ∃ p, Step.add p ∈ steps ∧ p.disabled = false ∧ p.service = o.service ∧
      ∃ c ∈ p.changes, c.state = o.state ∧ c.recurrence.hour = o.hour ∧ c.recurrence.minute = o.minute ∧
        o.weekday ∈ c.recurrence.days := by
  obtain ⟨entry, hentry, hday, hx⟩ := mem_occurrences.mp ho
  rw [(sound_ofSteps steps).weekday_eq entry hentry] at hday
  exact ((exists_mem_ofSteps_iff steps o.slot).mp ⟨entry, hentry, hday, o.toSwitch, hx, rfl⟩).2

/-- Of several changes that ask for the same slot the first gives the transition its count and its text. -/
private theorem first_of_mem_ofSteps {steps : List Step} {entry : Nat × Day} (hentry : entry ∈ (ofSteps steps).days)
    {x : Switch} (hx : x ∈ entry.2.switches) :
    ∃ first, (asked steps).find? (x.slotOn entry.1).isAskedBy = some first ∧ x.count = first.2.count ∧
      x.cron = first.2.cron := by
  have hsound := sound_ofSteps steps
  have hlt : (x.slotOn entry.1).weekday < daysPerWeek := hsound.number_lt entry hentry
  have hstored := stored?_ofSteps steps hlt
  rw [hsound.stored?_slotOn hentry hx] at hstored
  obtain ⟨first, hfirst, he⟩ := Option.map_eq_some_iff.mp hstored.symm
  exact ⟨first, hfirst, (congrArg Switch.count he).symm, (congrArg Switch.cron he).symm⟩

/-- The table after any steps. Its days are days of the week, in order and under their own numbers; each has
transitions, in the order of the time of day and each once. A transition is there exactly if a change of an enabled
plan asks for it, and it has the count and the text of the first such change. -/
theorem ofSteps_exact (steps : List Step) :
    (∀ entry ∈ (ofSteps steps).days, entry.1 < 7 ∧ entry.2.weekday = entry.1 ∧ entry.2.switches ≠ [] ∧
      (entry.2.switches.Pairwise fun a b => a.minuteOfDay ≤ b.minuteOfDay) ∧
      entry.2.switches.Pairwise fun a b =>
        ¬(a.service = b.service ∧ a.state = b.state ∧ a.hour = b.hour ∧ a.minute = b.minute)) ∧
    ((ofSteps steps).days.Pairwise fun a b => a.1 < b.1) ∧
    (∀ weekday service state hour minute,
      (∃ entry ∈ (ofSteps steps).days, entry.1 = weekday ∧ ∃ x ∈ entry.2.switches,
        x.service = service ∧ x.state = state ∧ x.hour = hour ∧ x.minute = minute) ↔
      weekday < 7 ∧ ∃ p, Step.add p ∈ steps ∧ p.disabled = false ∧ p.service = service ∧
        ∃ c ∈ p.changes, c.state = state ∧ c.recurrence.hour = hour ∧ c.recurrence.minute = minute ∧
          weekday ∈ c.recurrence.days) ∧
    ∀ entry ∈ (ofSteps steps).days, ∀ x ∈ entry.2.switches,
      ∃ first, (asked steps).find? (x.slotOn entry.1).isAskedBy = some first ∧
        x.count = first.2.count ∧ x.cron = first.2.cron := by
  have hsound := sound_ofSteps steps
  refine ⟨fun entry hentry => ?_, hsound.ascending, fun weekday service state hour minute => ?_,
    fun entry hentry x hx => first_of_mem_ofSteps hentry hx⟩
  · refine ⟨hsound.number_lt entry hentry, hsound.weekday_eq entry hentry, hsound.ne_nil entry hentry,
      (hsound.day entry hentry).ordered, (hsound.day entry hentry).distinct.imp fun hab => ?_⟩
    rw [← Switch.same_iff]
    exact hab
  · have h := exists_mem_ofSteps_iff steps ⟨weekday, service, state, hour, minute⟩
    simp only [Switch.slotOn, Slot.mk.injEq, true_and] at h
    exact h

end Week

end ServiceHours
