import ServiceHours.Week

/-!
# Soundness of the weekly table

The invariant of the table after plans were added and existence was marked, in any order and number.

* A day is sound if its transitions stand by time of day and each is there once (`Day.Sound`); adding one keeps that
  (`Day.Sound.insert`) and fills the slot of the new transition, if it was free (`Day.find?_insert`).
* A table is sound if its days are sound days of the week, in order, under their own numbers and with transitions
  (`Week.Sound`). Every step keeps that (`Week.Sound.step`), so every table that was built is sound
  (`Week.sound_ofSteps`).
* Read day by day, the transitions of a sound table stand in the order of the week (`Week.Sound.ordered`).
-/

namespace ServiceHours

/-- What tells one transition from another: the time in the week, the service and the state. -/
structure Slot where
  weekday : Nat
  service : Service
  state : DesiredState
  hour : Nat
  minute : Nat
deriving DecidableEq, Repr

/-! ### One day -/

namespace Switch

def slotOn (x : Switch) (weekday : Nat) : Slot :=
  ⟨weekday, x.service, x.state, x.hour, x.minute⟩

theorem same_iff (a b : Switch) :
    a.same b = true ↔ a.service = b.service ∧ a.state = b.state ∧ a.hour = b.hour ∧ a.minute = b.minute := by
  simp only [same, Bool.and_eq_true, decide_eq_true_eq, and_assoc]

theorem same_iff_slotOn_eq (a b : Switch) (weekday : Nat) :
    a.same b = true ↔ a.slotOn weekday = b.slotOn weekday := by
  simp only [same_iff, slotOn, Slot.mk.injEq, true_and]

/-- The transition without its existence mark. -/
def unmarked (x : Switch) : Switch :=
  { x with known := true }

end Switch

namespace Day

/-- The transitions of the day stand by time of day, and each is there once. -/
structure Sound (d : Day) : Prop where
  ordered : d.switches.Pairwise fun a b => a.minuteOfDay ≤ b.minuteOfDay
  distinct : d.switches.Pairwise fun a b => ¬a.same b = true

private theorem Sound.empty (weekday : Nat) : Sound { weekday } :=
  ⟨List.Pairwise.nil, List.Pairwise.nil⟩

theorem insert_of_same {d : Day} {x : Switch} (h : ∃ y ∈ d.switches, y.same x = true) : d.insert x = d := by
  unfold insert
  rw [ite_eq_left_iff]
  exact fun hnone => absurd (List.any_eq_true.mpr h) hnone

private theorem switches_insert_of_new {d : Day} {x : Switch} (h : ∀ y ∈ d.switches, ¬y.same x = true) :
    (d.insert x).switches = insertBy (fun a b => a.minuteOfDay ≤ b.minuteOfDay) x d.switches := by
  have hany : ¬d.switches.any (·.same x) = true := by
    rw [List.any_eq_true]
    rintro ⟨y, hy, hsame⟩
    exact h y hy hsame
  unfold insert
  rw [if_neg hany]

private theorem weekday_insert (d : Day) (x : Switch) : (d.insert x).weekday = d.weekday := by
  unfold insert
  split <;> rfl

private theorem switches_insert_ne_nil (d : Day) (x : Switch) : (d.insert x).switches ≠ [] := by
  obtain ⟨y, hy, -⟩ := d.exists_same_insert x
  exact List.ne_nil_of_mem hy

theorem Sound.insert {d : Day} (h : d.Sound) (x : Switch) : (d.insert x).Sound := by
  by_cases hold : ∃ y ∈ d.switches, y.same x = true
  · rw [insert_of_same hold]
    exact h
  · have hnew : ∀ y ∈ d.switches, ¬y.same x = true := fun y hy hsame => hold ⟨y, hy, hsame⟩
    have hsymm {a b : Switch} (hab : ¬a.same b = true) : ¬b.same a = true := by
      rw [Switch.same_iff_slotOn_eq b a 0, eq_comm, ← Switch.same_iff_slotOn_eq]
      exact hab
    constructor
    · rw [switches_insert_of_new hnew]
      have hle := pairwise_insertBy (fun a b : Switch => a.minuteOfDay ≤ b.minuteOfDay)
        (fun a b c hab hbc => by rw [decide_eq_true_eq] at *; omega)
        (fun a b => by rw [Bool.or_eq_true, decide_eq_true_eq, decide_eq_true_eq]; omega) x
        (h.ordered.imp fun hab => decide_eq_true hab)
      exact hle.imp of_decide_eq_true
    · rw [switches_insert_of_new hnew]
      have hcons : (x :: d.switches).Pairwise fun a b => ¬a.same b = true :=
        List.pairwise_cons.mpr ⟨fun y hy => hsymm (hnew y hy), h.distinct⟩
      exact ((insertBy_perm _ x d.switches).pairwise_iff hsymm).mpr hcons

/-- An added transition is found in its slot if nothing was found there before, and in no other. -/
theorem find?_insert (d : Day) (x : Switch) (slot : Slot) :
    (d.insert x).switches.find? (·.slotOn slot.weekday = slot) =
      (d.switches.find? (·.slotOn slot.weekday = slot)).or
        (if x.slotOn slot.weekday = slot then some x else none) := by
  by_cases hold : ∃ y ∈ d.switches, y.same x = true
  · -- The day stays as it is, and what is the same as `x` fills the slot of `x` already.
    rw [insert_of_same hold]
    split
    · rename_i hslot
      obtain ⟨y, hy, hsame⟩ := hold
      have hsome : (d.switches.find? (·.slotOn slot.weekday = slot)).isSome := by
        rw [List.find?_isSome]
        exact ⟨y, hy, decide_eq_true (((y.same_iff_slotOn_eq x _).mp hsame).trans hslot)⟩
      rw [Option.or_of_isSome hsome]
    · rw [Option.or_none]
  · have hnew : ∀ y ∈ d.switches, ¬y.same x = true := fun y hy hsame => hold ⟨y, hy, hsame⟩
    rw [switches_insert_of_new hnew]
    by_cases hslot : x.slotOn slot.weekday = slot
    · have hnone : d.switches.find? (·.slotOn slot.weekday = slot) = none := by
        rw [List.find?_eq_none]
        intro y hy hy'
        rw [decide_eq_true_eq, ← hslot] at hy'
        exact hnew y hy ((y.same_iff_slotOn_eq x _).mpr hy')
      have hx : (decide (x.slotOn slot.weekday = slot)) = true := decide_eq_true hslot
      rw [find?_insertBy_of_none (p := fun y : Switch => y.slotOn slot.weekday = slot) hx hnone, hnone, if_pos hslot,
        Option.none_or]
    · have hx : (decide (x.slotOn slot.weekday = slot)) = false := decide_eq_false hslot
      rw [find?_insertBy_of_neg (p := fun y : Switch => y.slotOn slot.weekday = slot) hx, if_neg hslot, Option.or_none]

end Day

/-! ### The days of the table -/

namespace Week

section ChangeDay

variable {weekday : Nat} {change : Day → Day} {days : List (Nat × Day)}

/-- Changing a day touches this day only, or adds it. -/
private theorem mem_changeDay {entry : Nat × Day} (h : entry ∈ changeDay weekday change days) :
    entry ∈ days ∨ ∃ d : Day, entry = (weekday, change d) ∧ (d = { weekday } ∨ (weekday, d) ∈ days) := by
  induction days with
  | nil => exact Or.inr ⟨_, List.mem_singleton.mp h, Or.inl rfl⟩
  | cons first rest ih =>
    unfold changeDay at h
    split at h
    · rename_i hfirst
      rcases List.mem_cons.mp h with rfl | hrest
      · exact Or.inr ⟨first.2, rfl, Or.inr (hfirst ▸ List.mem_cons_self)⟩
      · exact Or.inl (List.mem_cons_of_mem first hrest)
    · split at h
      · rcases List.mem_cons.mp h with rfl | hrest
        · exact Or.inr ⟨_, rfl, Or.inl rfl⟩
        · exact Or.inl hrest
      · rcases List.mem_cons.mp h with rfl | hrest
        · exact Or.inl List.mem_cons_self
        · rcases ih hrest with hold | ⟨d, rfl, hd⟩
          · exact Or.inl (List.mem_cons_of_mem first hold)
          · exact Or.inr ⟨d, rfl, hd.imp_right (List.mem_cons_of_mem first)⟩

private theorem ascending_changeDay (h : days.Pairwise fun a b => a.1 < b.1) :
    (changeDay weekday change days).Pairwise fun a b => a.1 < b.1 := by
  induction days with
  | nil => exact List.pairwise_singleton _ _
  | cons first rest ih =>
    obtain ⟨hfirst, hrest⟩ := List.pairwise_cons.mp h
    unfold changeDay
    split
    · rename_i heq
      exact List.pairwise_cons.mpr ⟨fun entry hentry => heq ▸ hfirst entry hentry, hrest⟩
    · split
      · rename_i hlt
        refine List.pairwise_cons.mpr ⟨fun entry hentry => ?_, h⟩
        rcases List.mem_cons.mp hentry with rfl | hentry
        · exact hlt
        · exact Nat.lt_trans hlt (hfirst entry hentry)
      · refine List.pairwise_cons.mpr ⟨fun entry hentry => ?_, ih hrest⟩
        rcases mem_changeDay hentry with hold | ⟨d, rfl, -⟩
        · exact hfirst entry hold
        · dsimp only
          omega

private theorem find?_changeDay (h : days.Pairwise fun a b => a.1 < b.1) (number : Nat) :
    ((changeDay weekday change days).find? (·.1 = number)).map (·.2) =
      if number = weekday then some (change (((days.find? (·.1 = weekday)).map (·.2)).getD { weekday }))
      else (days.find? (·.1 = number)).map (·.2) := by
  induction days with
  | nil => by_cases heq : number = weekday <;> simp [changeDay, heq, eq_comm]
  | cons first rest ih =>
    obtain ⟨hfirst, hrest⟩ := List.pairwise_cons.mp h
    unfold changeDay
    split
    · rename_i heq
      by_cases hnumber : number = weekday
      · simp [heq, hnumber]
      · have hne : ¬weekday = number := fun he => hnumber he.symm
        simp [heq, hnumber, hne]
    · rename_i hne
      split
      · rename_i hlt
        -- The numbers ascend, so a day that belongs in front is not found further on.
        have hnone : rest.find? (·.1 = weekday) = none := by
          rw [List.find?_eq_none]
          intro entry hentry heq
          have := hfirst entry hentry
          rw [decide_eq_true_eq] at heq
          omega
        by_cases hnumber : number = weekday
        · simp [hne, hnumber, hnone]
        · have hne' : ¬weekday = number := fun he => hnumber he.symm
          simp [hnumber, hne']
      · have ih := ih hrest
        by_cases hnumber : first.1 = number
        · have hne' : ¬number = weekday := fun he => hne (hnumber.trans he)
          simp [hnumber, hne']
        · simpa [hne, hnumber] using ih

end ChangeDay

/-- The days are days of the week in their order, each under its own number and with transitions, and each is sound. -/
structure Sound (w : Week) : Prop where
  ascending : w.days.Pairwise fun a b => a.1 < b.1
  number_lt : ∀ entry ∈ w.days, entry.1 < daysPerWeek
  weekday_eq : ∀ entry ∈ w.days, entry.2.weekday = entry.1
  ne_nil : ∀ entry ∈ w.days, entry.2.switches ≠ []
  day : ∀ entry ∈ w.days, entry.2.Sound

theorem Sound.empty : Sound {} :=
  ⟨List.Pairwise.nil, nofun, nofun, nofun, nofun⟩

/-- Adding a transition on a day of the week keeps the table sound. -/
theorem Sound.insert {w : Week} (h : w.Sound) {o : Occurrence} (ho : o.weekday < daysPerWeek) :
    (w.insert o).Sound := by
  refine ⟨ascending_changeDay h.ascending, ?_, ?_, ?_, ?_⟩
  -- An entry of the new table is an old one, or the day that the transition went into.
  all_goals
    intro entry hentry
    rcases mem_changeDay hentry with hold | ⟨d, rfl, hd⟩
  · exact h.number_lt entry hold
  · exact ho
  · exact h.weekday_eq entry hold
  · show (d.insert o.toSwitch).weekday = o.weekday
    rw [Day.weekday_insert]
    rcases hd with rfl | hd
    · rfl
    · exact h.weekday_eq _ hd
  · exact h.ne_nil entry hold
  · exact d.switches_insert_ne_nil o.toSwitch
  · exact h.day entry hold
  · rcases hd with rfl | hd
    · exact (Day.Sound.empty o.weekday).insert o.toSwitch
    · exact (h.day _ hd).insert o.toSwitch

private theorem Sound.foldl_insert {w : Week} (h : w.Sound) {os : List Occurrence}
    (hos : ∀ o ∈ os, o.weekday < daysPerWeek) : (os.foldl Week.insert w).Sound := by
  induction os generalizing w with
  | nil => exact h
  | cons o os ih =>
    have ho : o.weekday < daysPerWeek := hos o List.mem_cons_self
    exact ih (h.insert ho) fun x hx => hos x (List.mem_cons_of_mem _ hx)

theorem Sound.markKnown {w : Week} (h : w.Sound) (known : Service → Bool) : (w.markKnown known).Sound := by
  refine ⟨List.pairwise_map.mpr h.ascending, ?_, ?_, ?_, ?_⟩
  all_goals
    intro entry hentry
    obtain ⟨old, hold, rfl⟩ := List.mem_map.mp hentry
  · exact h.number_lt old hold
  · exact h.weekday_eq old hold
  · exact fun hnil => h.ne_nil old hold (List.map_eq_nil_iff.mp hnil)
  · exact ⟨List.pairwise_map.mpr (h.day old hold).ordered, List.pairwise_map.mpr (h.day old hold).distinct⟩

theorem Sound.day?_of_mem {w : Week} (h : w.Sound) {entry : Nat × Day} (hentry : entry ∈ w.days) :
    w.day? entry.1 = some entry.2 := by
  unfold day?
  -- For the induction on the days it has to be said of any list in ascending order.
  have hfind : ∀ days : List (Nat × Day), days.Pairwise (fun a b => a.1 < b.1) → entry ∈ days →
      days.find? (·.1 = entry.1) = some entry := by
    intro days hdays hmem
    induction days with
    | nil => cases hmem
    | cons first rest ih =>
      obtain ⟨hfirst, hrest⟩ := List.pairwise_cons.mp hdays
      rcases List.mem_cons.mp hmem with rfl | hmem
      · simp
      · have hne : ¬first.1 = entry.1 := Nat.ne_of_lt (hfirst entry hmem)
        simpa [hne] using ih hrest hmem
  rw [hfind w.days h.ascending hentry]
  rfl

theorem mem_of_day? {w : Week} {number : Nat} {d : Day} (h : w.day? number = some d) : (number, d) ∈ w.days := by
  obtain ⟨entry, hentry, rfl⟩ := Option.map_eq_some_iff.mp h
  have hnumber : entry.1 = number := by simpa using List.find?_some hentry
  exact hnumber ▸ List.mem_of_find?_eq_some hentry

theorem Sound.day?_insert {w : Week} (h : w.Sound) (o : Occurrence) (number : Nat) :
    (w.insert o).day? number =
      if number = o.weekday then some (((w.day? o.weekday).getD { weekday := o.weekday }).insert o.toSwitch)
      else w.day? number :=
  find?_changeDay h.ascending number

/-! ### Steps -/

end Week

/-- Each transition that a plan asks for comes from one of its changes, on one of its days. -/
theorem Plan.weekday_lt_of_mem_occurrences {p : Plan} {o : Occurrence} (h : o ∈ p.occurrences) :
    o.weekday < daysPerWeek := by
  unfold occurrences at h
  split at h
  · obtain ⟨c, -, ho⟩ := List.mem_flatMap.mp h
    obtain ⟨d, hd, rfl⟩ := List.mem_map.mp ho
    simpa using (List.mem_filter.mp hd).2
  · cases h

namespace Week

/-- One step of building a table. -/
inductive Step
  | add (plan : Plan)
  | mark (known : Service → Bool)

def step (w : Week) : Step → Week
  | .add plan => w.add plan
  | .mark known => w.markKnown known

/-- The table after some steps, from an empty one on. -/
def ofSteps (steps : List Step) : Week :=
  steps.foldl step {}

theorem ofPlans_eq_ofSteps (plans : List Plan) : ofPlans plans = ofSteps (plans.map .add) := by
  unfold ofPlans ofSteps
  rw [List.foldl_map]
  rfl

theorem markKnown_ofSteps (steps : List Step) (known : Service → Bool) :
    (ofSteps steps).markKnown known = ofSteps (steps ++ [.mark known]) := by
  simp [ofSteps, step]

theorem Sound.step {w : Week} (h : w.Sound) (st : Step) : (w.step st).Sound := by
  cases st with
  | add plan => exact h.foldl_insert fun _ => Plan.weekday_lt_of_mem_occurrences
  | mark known => exact h.markKnown known

theorem Sound.foldl_step {w : Week} (h : w.Sound) (steps : List Step) : (steps.foldl Week.step w).Sound := by
  induction steps generalizing w with
  | nil => exact h
  | cons st steps ih => exact ih (h.step st)

/-- Whatever the steps, the table they build is sound. -/
theorem sound_ofSteps (steps : List Step) : (ofSteps steps).Sound :=
  Sound.empty.foldl_step steps

theorem sound_ofPlans (plans : List Plan) : (ofPlans plans).Sound := by
  rw [ofPlans_eq_ofSteps]
  exact sound_ofSteps _

/-! ### All transitions -/

theorem mem_occurrences {w : Week} {o : Occurrence} :
    o ∈ w.occurrences ↔ ∃ entry ∈ w.days, entry.2.weekday = o.weekday ∧ o.toSwitch ∈ entry.2.switches := by
  simp only [occurrences, Day.occurrences, List.mem_flatMap, List.mem_map]
  constructor
  · rintro ⟨entry, hentry, x, hx, rfl⟩
    exact ⟨entry, hentry, rfl, hx⟩
  · rintro ⟨entry, hentry, hday, hx⟩
    exact ⟨entry, hentry, o.toSwitch, hx, by rw [hday]⟩

theorem occurrencesOf_eq_filter (w : Week) (s : Service) :
    w.occurrencesOf s = w.occurrences.filter (·.service = s) :=
  List.filter_flatMap.symm

theorem mem_occurrencesOf {w : Week} {s : Service} {o : Occurrence} :
    o ∈ w.occurrencesOf s ↔ o ∈ w.occurrences ∧ o.service = s := by
  rw [occurrencesOf_eq_filter, List.mem_filter, decide_eq_true_eq]

theorem Sound.weekday_lt {w : Week} (h : w.Sound) {o : Occurrence} (ho : o ∈ w.occurrences) :
    o.weekday < daysPerWeek := by
  obtain ⟨entry, hentry, hday, -⟩ := mem_occurrences.mp ho
  rw [← hday, h.weekday_eq entry hentry]
  exact h.number_lt entry hentry

/-- The transitions stand in the order of the week. -/
theorem Sound.ordered {w : Week} (h : w.Sound) : w.occurrences.Pairwise fun a b =>
    a.weekday < b.weekday ∨ (a.weekday = b.weekday ∧ a.minuteOfDay ≤ b.minuteOfDay) := by
  refine List.pairwise_flatMap.mpr ⟨fun entry hentry => ?_, ?_⟩
  · refine List.pairwise_map.mpr ((h.day entry hentry).ordered.imp fun hab => ?_)
    exact Or.inr ⟨rfl, hab⟩
  · refine h.ascending.imp_of_mem fun {a b} ha hb hab x hx y hy => Or.inl ?_
    obtain ⟨x', -, rfl⟩ := List.mem_map.mp hx
    obtain ⟨y', -, rfl⟩ := List.mem_map.mp hy
    show a.2.weekday < b.2.weekday
    rw [h.weekday_eq a ha, h.weekday_eq b hb]
    exact hab

end Week

end ServiceHours
