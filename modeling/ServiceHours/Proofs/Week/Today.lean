import ServiceHours.Proofs.Week.Latest
import ServiceHours.Proofs.Week.PerService
import Mathlib.Data.List.Induction

/-!
# Today's count

Two ways to the count that a plan asks for today: the plan's own changes (`Plan.countAt`) and the last transition in the
table.

* Both look at the same minute of today: that of the last change so far.
* There the plan takes the count of the last of its changes. The table holds for each state the first one that asks for
  it, so the last transition is that of the last change whose state is new there (`IsLastNew`).
* The counts agree unless the last change at that minute repeats the state of an earlier one
  (`Week.countAt_of_lastTransition`, `Week.countAt_ne_lastTransition`).
-/

namespace ServiceHours

/-- `x` is the last element of the list with a key that is new there. Behind it only keys come that stood before. -/
def IsLastNew {α β : Type} (key : α → β) (xs : List α) (x : α) : Prop :=
  ∃ front back, xs = front ++ x :: back ∧ (∀ y ∈ front, key y ≠ key x) ∧
    ∀ y ∈ back, ∃ z ∈ front ++ [x], key z = key y

/-- The last new element of a mapped list comes from the last new one, if the map keeps the keys apart. -/
private theorem IsLastNew.of_map {α β γ δ : Type} {g : α → γ} {key : γ → β} {key' : α → δ} {xs : List α}
    (hkey : ∀ a ∈ xs, ∀ b ∈ xs, key (g a) = key (g b) ↔ key' a = key' b) {y : γ}
    (h : IsLastNew key (xs.map g) y) : ∃ x, g x = y ∧ IsLastNew key' xs x := by
  obtain ⟨front, back, heq, hfront, hback⟩ := h
  obtain ⟨front, rest, rfl, rfl, hrest⟩ := List.map_eq_append_iff.mp heq
  obtain ⟨x, back, rfl, rfl, rfl⟩ := List.map_eq_cons_iff.mp hrest
  refine ⟨x, rfl, front, back, rfl, fun a ha hax => ?_, fun b hb => ?_⟩
  · have hsame := (hkey a (by simp [ha]) x (by simp)).mpr hax
    exact hfront (g a) (List.mem_map_of_mem ha) hsame
  · obtain ⟨z, hz, hsame⟩ := hback (g b) (List.mem_map_of_mem hb)
    rw [← List.map_singleton, ← List.map_append] at hz
    obtain ⟨a, ha, rfl⟩ := List.mem_map.mp hz
    have ha' : a ∈ front ++ x :: back := by
      rw [← List.singleton_append, ← List.append_assoc]
      exact List.mem_append_left back ha
    exact ⟨a, ha, (hkey a ha' b (by simp [hb])).mp hsame⟩

private theorem IsLastNew.eq_getLast {α β : Type} {key : α → β} {front : List α} {last x : α}
    (h : IsLastNew key (front ++ [last]) x) (hnew : ∀ y ∈ front, key y ≠ key last) : x = last := by
  obtain ⟨before, back, heq, -, hback⟩ := h
  rcases List.eq_nil_or_concat back with rfl | ⟨back, y, rfl⟩
  · have hlast := congrArg List.getLast? heq
    simpa using hlast.symm
  · -- The last element would repeat a key from before it.
    rw [List.concat_eq_append, ← List.cons_append, ← List.append_assoc] at heq
    obtain ⟨rfl, rfl⟩ := List.append_singleton_inj.mp heq
    obtain ⟨z, hz, hsame⟩ := hback last (by simp)
    have hz' : z ∈ before ++ x :: back := by
      rw [← List.singleton_append, ← List.append_assoc]
      exact List.mem_append_left back hz
    exact absurd hsame (hnew z hz')

/-! ### Transitions put in order -/

namespace Occurrence

/-- The transitions put into their places one by one; a slot that is taken is left as it is. -/
def inOrder (os : List Occurrence) : List Occurrence :=
  os.foldl (fun seen o => o.insertInto seen) []

variable {os : List Occurrence} {o x : Occurrence}

private theorem minuteOfDay_of_slot_eq {a b : Occurrence} (h : a.slot = b.slot) : a.minuteOfDay = b.minuteOfDay := by
  have hhour : a.hour = b.hour := congrArg Slot.hour h
  have hminute : a.minute = b.minute := congrArg Slot.minute h
  rw [Switch.minuteOfDay, Switch.minuteOfDay, hhour, hminute]

private theorem inOrder_concat (os : List Occurrence) (o : Occurrence) :
    inOrder (os ++ [o]) = o.insertInto (inOrder os) := by
  simp only [inOrder, List.foldl_append, List.foldl_cons, List.foldl_nil]

private theorem mem_of_mem_insertInto (h : x ∈ o.insertInto os) : x = o ∨ x ∈ os := by
  unfold insertInto at h
  split at h
  · exact Or.inr h
  · exact mem_insertBy.mp h

private theorem mem_insertInto_of_mem (h : x ∈ os) : x ∈ o.insertInto os := by
  unfold insertInto
  split
  · exact h
  · exact mem_insertBy.mpr (Or.inr h)

private theorem exists_slot_insertInto (o : Occurrence) (os : List Occurrence) :
    ∃ x ∈ o.insertInto os, x.slot = o.slot := by
  unfold insertInto
  split
  · rename_i htaken
    simpa using htaken
  · exact ⟨o, mem_insertBy.mpr (Or.inl rfl), rfl⟩

/-- An insertion behind all others. -/
private theorem insertInto_of_noLater (h : ∀ x ∈ os, x.noLater o) :
    o.insertInto os = if os.any (·.slot = o.slot) then os else os ++ [o] := by
  have hbehind : insertBy noLater o (os ++ []) = os ++ [o] := insertBy_append_left h []
  rw [List.append_nil] at hbehind
  rw [insertInto, hbehind]

private theorem mem_of_mem_inOrder (h : x ∈ inOrder os) : x ∈ os := by
  induction os using List.reverseRecOn with
  | nil => cases h
  | append_singleton os o ih =>
    rw [inOrder_concat] at h
    rcases mem_of_mem_insertInto h with rfl | h
    · exact List.mem_append_right os List.mem_cons_self
    · exact List.mem_append_left [o] (ih h)

private theorem exists_slot_inOrder (h : o ∈ os) : ∃ x ∈ inOrder os, x.slot = o.slot := by
  induction os using List.reverseRecOn with
  | nil => cases h
  | append_singleton os y ih =>
    rw [inOrder_concat]
    rcases List.mem_append.mp h with h | h
    · obtain ⟨x, hx, hslot⟩ := ih h
      exact ⟨x, mem_insertInto_of_mem hx, hslot⟩
    · cases List.mem_singleton.mp h
      exact exists_slot_insertInto o (inOrder os)

private theorem pairwise_inOrder (os : List Occurrence) : (inOrder os).Pairwise fun a b => a.noLater b := by
  have htotal (a b : Occurrence) : (a.noLater b || b.noLater a) = true := by
    rw [Bool.or_eq_true, noLater_iff, noLater_iff]
    omega
  induction os using List.reverseRecOn with
  | nil => exact List.Pairwise.nil
  | append_singleton os o ih =>
    rw [inOrder_concat, insertInto]
    split
    · exact ih
    · exact pairwise_insertBy noLater noLater_trans htotal o ih

private theorem filter_inOrder {p : Occurrence → Bool} (hp : ∀ a b : Occurrence, a.slot = b.slot → p a = p b)
    (os : List Occurrence) : (inOrder os).filter p = inOrder (os.filter p) := by
  induction os using List.reverseRecOn with
  | nil => rfl
  | append_singleton os o ih =>
    rw [inOrder_concat, filter_insertInto hp o (pairwise_inOrder os), ih, List.filter_append]
    by_cases ho : p o = true
    · rw [if_pos ho, List.filter_cons_of_pos ho, List.filter_nil, inOrder_concat]
    · rw [if_neg ho, List.filter_cons_of_neg ho, List.filter_nil, List.append_nil]

/-- Of transitions at one time the first for each slot is left, in the given order. So the last one left is the last
whose slot was new. -/
private theorem isLastNew_of_getLast?_inOrder (h : ∀ a ∈ os, ∀ b ∈ os, a.noLater b)
    (ho : (inOrder os).getLast? = some o) :
    IsLastNew slot os o := by
  induction os using List.reverseRecOn with
  | nil => cases ho
  | append_singleton os x ih =>
    have hbefore : ∀ a ∈ inOrder os, a.noLater x := fun a ha =>
      h a (List.mem_append_left [x] (mem_of_mem_inOrder ha)) x (List.mem_append_right os List.mem_cons_self)
    rw [inOrder_concat, insertInto_of_noLater hbefore] at ho
    split at ho
    · -- The slot is taken, and what took it is among the transitions before.
      rename_i htaken
      have hrest : ∀ a ∈ os, ∀ b ∈ os, a.noLater b := fun a ha b hb =>
        h a (List.mem_append_left [x] ha) b (List.mem_append_left [x] hb)
      obtain ⟨front, back, rfl, hfront, hback⟩ := ih hrest ho
      refine ⟨front, back ++ [x], by simp, hfront, fun y hy => ?_⟩
      rcases List.mem_append.mp hy with hy | hy
      · exact hback y hy
      · obtain ⟨z, hz, hslot⟩ : ∃ z ∈ inOrder (front ++ o :: back), z.slot = x.slot := by simpa using htaken
        have hz := mem_of_mem_inOrder hz
        rw [← List.singleton_append, ← List.append_assoc] at hz
        rw [List.mem_singleton.mp hy]
        rcases List.mem_append.mp hz with hz | hz
        · exact ⟨z, hz, hslot⟩
        · obtain ⟨first, hfirst, hsame⟩ := hback z hz
          exact ⟨first, hfirst, hsame.trans hslot⟩
    · rename_i hfree
      have hox : o = x := by simpa using ho.symm
      subst hox
      refine ⟨os, [], rfl, fun y hy hslot => hfree ?_, by simp⟩
      obtain ⟨z, hz, hsame⟩ := exists_slot_inOrder hy
      exact List.any_eq_true.mpr ⟨z, hz, decide_eq_true (hsame.trans hslot)⟩

end Occurrence

/-! ### Changes at one minute -/

@[simp] theorem Switch.minuteOfDay_ofChange (s : Service) (c : Change) :
    (Switch.ofChange s c).minuteOfDay = c.minuteOfDay := rfl

namespace Plan

variable {p : Plan} {weekday minute : Nat}

/-- The changes that come on a day of the week at a minute of the day, in their order. -/
def changesAt (p : Plan) (weekday minute : Nat) : List Change :=
  p.changes.filter fun c => c.recurrence.comesOn weekday && c.minuteOfDay = minute

private theorem mem_changesAt {c : Change} :
    c ∈ p.changesAt weekday minute ↔ c ∈ p.changes ∧ weekday ∈ c.recurrence.days ∧ c.minuteOfDay = minute := by
  simp only [changesAt, List.mem_filter, Recurrence.comesOn, Bool.and_eq_true, List.contains_iff_mem, decide_eq_true_eq]

/-- One change brings one transition to a minute, if it comes then. -/
private theorem filter_occurrences_change (s : Service) {c : Change} (h : c.recurrence.days.Nodup)
    (hday : weekday < daysPerWeek) :
    (((c.recurrence.days.filter (· < daysPerWeek)).map fun d => (⟨.ofChange s c, d⟩ : Occurrence)).filter
        fun o => o.weekday = weekday && o.minuteOfDay = minute) =
      if c.recurrence.comesOn weekday && c.minuteOfDay = minute then [⟨.ofChange s c, weekday⟩] else [] := by
  by_cases hat : c.minuteOfDay = minute
  · have hdays : (c.recurrence.days.filter fun d => decide (d = weekday) && decide (d < daysPerWeek)) =
        c.recurrence.days.filter (· = weekday) := by
      refine List.filter_congr fun d _ => ?_
      rw [Bool.eq_iff_iff, Bool.and_eq_true, decide_eq_true_eq, decide_eq_true_eq]
      omega
    rw [List.filter_map, List.filter_filter]
    simp only [Function.comp_def, Switch.minuteOfDay_ofChange, hat, decide_true, Bool.and_true, hdays, List.filter_eq]
    by_cases hmem : weekday ∈ c.recurrence.days
    · have hcomes : c.recurrence.comesOn weekday = true := List.contains_iff_mem.mpr hmem
      rw [List.Nodup.count h, if_pos hmem, if_pos hcomes]
      rfl
    · have hcomes : ¬c.recurrence.comesOn weekday = true := fun hc => hmem (List.contains_iff_mem.mp hc)
      rw [List.count_eq_zero_of_not_mem hmem, if_neg hcomes]
      rfl
  · simp [List.filter_map, Function.comp_def, hat]

private theorem filter_occurrences_at (henabled : p.disabled = false) (hdays : ∀ c ∈ p.changes, c.recurrence.days.Nodup)
    (hday : weekday < daysPerWeek) :
    (p.occurrences.filter fun o => o.weekday = weekday && o.minuteOfDay = minute) =
      (p.changesAt weekday minute).map fun c => ⟨.ofChange p.service c, weekday⟩ := by
  rw [occurrences_of_enabled henabled, List.filter_flatMap, changesAt]
  generalize p.changes = changes at hdays
  induction changes with
  | nil => rfl
  | cons c cs ih =>
    have hc := hdays c List.mem_cons_self
    rw [List.flatMap_cons, filter_occurrences_change p.service hc hday,
      ih fun x hx => hdays x (List.mem_cons_of_mem c hx), List.filter_cons]
    split <;> rfl

/-- Where the plan's own count comes from: the last change at the last minute that has one today; or none has come. -/
theorem countAt_cases (hordered : p.changes.Pairwise fun c d => c.minuteOfDay ≤ d.minuteOfDay) (now : Timestamp) :
    (∃ c, c.minuteOfDay ≤ now.minuteOfDay ∧ (p.changesAt now.weekday c.minuteOfDay).getLast? = some c ∧
      p.countAt now = c.count ∧
      ∀ x ∈ p.changes, now.weekday ∈ x.recurrence.days → x.minuteOfDay ≤ now.minuteOfDay →
        x.minuteOfDay ≤ c.minuteOfDay) ∨
    ((∀ x ∈ p.changes, now.weekday ∈ x.recurrence.days → now.minuteOfDay < x.minuteOfDay) ∧ p.countAt now = 0) := by
  have hsorted := hordered.filter fun c => c.recurrence.comesOn now.weekday
  have hmem {x : Change} (hx : x ∈ p.changes) (hday : now.weekday ∈ x.recurrence.days) :
      x ∈ p.changes.filter fun c => c.recurrence.comesOn now.weekday :=
    List.mem_filter.mpr ⟨hx, List.contains_iff_mem.mpr hday⟩
  unfold countAt
  rw [takeWhile_le_eq_filter hsorted]
  cases hlast : ((p.changes.filter fun c => c.recurrence.comesOn now.weekday).filter fun c =>
      c.minuteOfDay ≤ now.minuteOfDay).getLast? with
  | some c =>
    obtain ⟨-, hle, hmax, hat⟩ := getLast?_filter_le hsorted hlast
    refine Or.inl ⟨c, hle, ?_, rfl, fun x hx hday hle => hmax x (hmem hx hday) hle⟩
    rw [List.filter_filter] at hat
    rw [← hat, changesAt]
    congr 1
    exact List.filter_congr fun x _ => Bool.and_comm _ _
  | none =>
    refine Or.inr ⟨fun x hx hday => ?_, rfl⟩
    rw [List.getLast?_eq_none_iff, List.filter_eq_nil_iff] at hlast
    simpa using hlast x (hmem hx hday)

end Plan

/-! ### The last transition of today -/

/-- What validation gives an enabled plan: its changes stand by time of day, and each has a recurrence that was read. -/
private theorem Plan.ordered_of_validate {p q : Plan} {warnings : List Warning} (h : p.validate = (.ok warnings, q))
    (henabled : q.disabled = false) :
    (q.changes.Pairwise fun c d => c.minuteOfDay ≤ d.minuteOfDay) ∧ ∀ c ∈ q.changes, c.Parsed := by
  have hq : p.validated = q := congrArg Prod.snd h
  subst hq
  refine ⟨?_, p.parsed_validated henabled⟩
  rcases p.disabled_or_ordered_validated with hdisabled | hordered
  · rw [henabled] at hdisabled
    cases hdisabled
  · exact hordered

namespace Week

section OnePlan

variable {p : Plan} (henabled : p.disabled = false) (hparsed : ∀ c ∈ p.changes, c.Parsed)

private theorem occurrencesOf_singleton (p : Plan) :
    (ofPlans [p]).occurrencesOf p.service = Occurrence.inOrder p.occurrences := by
  rw [occurrencesOf_ofPlans]
  simp [Occurrence.inOrder]

include henabled in
private theorem exists_change_of_mem_occurrencesOf {o : Occurrence} (ho : o ∈ (ofPlans [p]).occurrencesOf p.service) :
    o.weekday < daysPerWeek ∧ ∃ c ∈ p.changes, o.weekday ∈ c.recurrence.days ∧ c.minuteOfDay = o.minuteOfDay := by
  rw [occurrencesOf_singleton] at ho
  have hmem := Occurrence.mem_of_mem_inOrder ho
  have hday := Plan.weekday_lt_of_mem_occurrences hmem
  rw [Plan.occurrences_of_enabled henabled] at hmem
  obtain ⟨c, hc, hchange⟩ := List.mem_flatMap.mp hmem
  obtain ⟨d, hd, rfl⟩ := List.mem_map.mp hchange
  have hcomes : d ∈ c.recurrence.days := (List.mem_filter.mp hd).1
  exact ⟨hday, c, hc, hcomes, rfl⟩

include henabled in
private theorem exists_occurrence_of_mem_changes {c : Change} (hc : c ∈ p.changes) {weekday : Nat}
    (hday : weekday < daysPerWeek) (hcomes : weekday ∈ c.recurrence.days) :
    ∃ o ∈ (ofPlans [p]).occurrencesOf p.service, o.weekday = weekday ∧ o.minuteOfDay = c.minuteOfDay := by
  have hmem : (⟨.ofChange p.service c, weekday⟩ : Occurrence) ∈ p.occurrences := by
    rw [Plan.occurrences_of_enabled henabled]
    have hd : weekday ∈ c.recurrence.days.filter (· < daysPerWeek) :=
      List.mem_filter.mpr ⟨hcomes, decide_eq_true hday⟩
    exact List.mem_flatMap.mpr ⟨c, hc, List.mem_map.mpr ⟨weekday, hd, rfl⟩⟩
  obtain ⟨o, ho, hslot⟩ := Occurrence.exists_slot_inOrder hmem
  rw [← occurrencesOf_singleton] at ho
  have hminute := Occurrence.minuteOfDay_of_slot_eq hslot
  rw [Switch.minuteOfDay_ofChange] at hminute
  exact ⟨o, ho, congrArg Slot.weekday hslot, hminute⟩

include henabled hparsed in
/-- At each minute the last transition in the table comes from the last change whose state is new there. -/
private theorem isLastNew_of_getLast?_at {weekday minute : Nat} (hday : weekday < daysPerWeek) {o : Occurrence}
    (ho : (((ofPlans [p]).occurrencesOf p.service).filter fun x =>
      x.weekday = weekday && x.minuteOfDay = minute).getLast? = some o) :
    ∃ c, IsLastNew Change.state (p.changesAt weekday minute) c ∧ o.state = c.state ∧ o.count = c.count := by
  have hslot (a b : Occurrence) (hab : a.slot = b.slot) :
      (decide (a.weekday = weekday) && decide (a.minuteOfDay = minute)) =
        (decide (b.weekday = weekday) && decide (b.minuteOfDay = minute)) := by
    have hweekday : a.weekday = b.weekday := congrArg Slot.weekday hab
    rw [hweekday, Occurrence.minuteOfDay_of_slot_eq hab]
  have hnodup : ∀ c ∈ p.changes, c.recurrence.days.Nodup := fun c hc => (hparsed c hc).wellFormed.nodup
  rw [occurrencesOf_singleton, Occurrence.filter_inOrder hslot, Plan.filter_occurrences_at henabled hnodup hday] at ho
  have hlast : IsLastNew Occurrence.slot
      ((p.changesAt weekday minute).map fun c => (⟨.ofChange p.service c, weekday⟩ : Occurrence)) o := by
    refine Occurrence.isLastNew_of_getLast?_inOrder (fun a ha b hb => ?_) ho
    obtain ⟨c, hc, rfl⟩ := List.mem_map.mp ha
    obtain ⟨d, hd, rfl⟩ := List.mem_map.mp hb
    have hc := (Plan.mem_changesAt.mp hc).2.2
    have hd := (Plan.mem_changesAt.mp hd).2.2
    rw [Occurrence.noLater_iff]
    exact Or.inr ⟨rfl, Nat.le_of_eq (hc.trans hd.symm)⟩
  -- At one minute of the day the hour and the minute are the same, so the slots differ by their states only.
  have hkey : ∀ c ∈ p.changesAt weekday minute, ∀ d ∈ p.changesAt weekday minute,
      (⟨.ofChange p.service c, weekday⟩ : Occurrence).slot = (⟨.ofChange p.service d, weekday⟩ : Occurrence).slot ↔
        c.state = d.state := by
    intro c hc d hd
    obtain ⟨hc, -, hcat⟩ := Plan.mem_changesAt.mp hc
    obtain ⟨hd, -, hdat⟩ := Plan.mem_changesAt.mp hd
    have hcle := (hparsed c hc).wellFormed.minute_le
    have hdle := (hparsed d hd).wellFormed.minute_le
    simp only [Change.minuteOfDay, Recurrence.minuteOfDay] at hcat hdat
    simp only [Occurrence.slot, Switch.slotOn, Switch.ofChange, Slot.mk.injEq, true_and]
    refine ⟨fun h => h.1, fun h => ⟨h, ?_, ?_⟩⟩
    · omega
    · omega
  obtain ⟨c, rfl, hnew⟩ := hlast.of_map hkey
  exact ⟨c, hnew, rfl, rfl⟩

include hparsed in
private theorem timely_singleton : (ofPlans [p]).Timely := by
  refine timely_ofPlans fun x hx => ?_
  rw [List.mem_singleton.mp hx]
  exact fun _ => hparsed

include henabled hparsed in
/-- If a change of the plan has come today, the search finds a transition of today at the minute of the last such
change. -/
private theorem lastTransition_of_last_change {now : Timestamp} {last : Change} (hlast : last ∈ p.changes)
    (hcomes : now.weekday ∈ last.recurrence.days) (hle : last.minuteOfDay ≤ now.minuteOfDay)
    (hmax : ∀ c ∈ p.changes, now.weekday ∈ c.recurrence.days → c.minuteOfDay ≤ now.minuteOfDay →
      c.minuteOfDay ≤ last.minuteOfDay) :
    ∃ o, (ofPlans [p]).lastTransition p.service now = some (o.transition now 0) ∧
      o.weekday = now.weekday ∧ o.minuteOfDay = last.minuteOfDay ∧ o.minuteOfDay < 1440 ∧
      (((ofPlans [p]).occurrencesOf p.service).filter fun x =>
        x.weekday = now.weekday && x.minuteOfDay = last.minuteOfDay).getLast? = some o := by
  have hs := sound_ofPlans [p]
  have ht := timely_singleton hparsed
  have hsorted := pairwise_occurrencesOf hs ht p.service
  have hlt : ∀ o ∈ (ofPlans [p]).occurrencesOf p.service, o.minuteOfDay < 1440 := fun o ho =>
    ht.minuteOfDay_lt (mem_occurrencesOf.mp ho).1
  have hnow := now.minuteOfDay_lt
  obtain ⟨x, hx, hxday, hxminute⟩ := exists_occurrence_of_mem_changes henabled hlast now.weekday_lt hcomes
  have hxle : x.minuteOfWeek ≤ now.minuteOfWeek := by
    simp only [Occurrence.minuteOfWeek, Timestamp.minuteOfWeek, hxday, hxminute]
    omega
  -- The change has its transition in the table, so the search ends no earlier. What it ends at comes from a change as
  -- well, so it ends no later.
  rcases lastTransition_cases hs ht p.service now with ⟨hempty, -⟩ | ⟨o, ho, hfound⟩ | ⟨o, hlater, -⟩
  · rw [hempty] at hx
    cases hx
  · obtain ⟨homem, hole, homax, holast⟩ := getLast?_filter_le hsorted ho
    obtain ⟨-, c, hc, hccomes, hcminute⟩ := exists_change_of_mem_occurrencesOf henabled homem
    have hominute := hlt o homem
    have htoday : o.weekday = now.weekday ∧ last.minuteOfDay ≤ o.minuteOfDay ∧ o.minuteOfDay ≤ now.minuteOfDay := by
      have hxo := homax x hx hxle
      simp only [Occurrence.minuteOfWeek, Timestamp.minuteOfWeek, minutesPerDay] at hxo hole
      omega
    have hat : o.minuteOfDay = last.minuteOfDay := by
      have hcle := hmax c hc (htoday.1 ▸ hccomes) (by omega)
      omega
    refine ⟨o, hfound, htoday.1, hat, hominute, ?_⟩
    rw [← holast]
    congr 1
    refine List.filter_congr fun y hy => ?_
    have hyminute := hlt y hy
    rw [Bool.eq_iff_iff, Bool.and_eq_true, decide_eq_true_eq, decide_eq_true_eq, decide_eq_true_eq]
    simp only [Occurrence.minuteOfWeek, minutesPerDay]
    omega
  · have hxlate := hlater x hx
    omega

include henabled hparsed in
/-- If no change of the plan has come today, the search finds no transition of today. -/
private theorem localDay_ne_of_no_change {now : Timestamp}
    (hnone : ∀ c ∈ p.changes, now.weekday ∈ c.recurrence.days → now.minuteOfDay < c.minuteOfDay) {t : Transition}
    (hfound : (ofPlans [p]).lastTransition p.service now = some t) : t.instant.localDay ≠ now.localDay := by
  intro htoday
  have hs := sound_ofPlans [p]
  have ht := timely_singleton hparsed
  rcases lastTransition_cases hs ht p.service now with ⟨-, hempty⟩ | ⟨o, ho, hsome⟩ | ⟨o, -, ho, hsome⟩
  · rw [hempty] at hfound
    cases hfound
  · obtain ⟨homem, hole, -⟩ := getLast?_filter_le (pairwise_occurrencesOf hs ht p.service) ho
    obtain ⟨-, c, hc, hcomes, hminute⟩ := exists_change_of_mem_occurrencesOf henabled homem
    have hlt := ht.minuteOfDay_lt (mem_occurrencesOf.mp homem).1
    rw [hsome] at hfound
    cases hfound
    have hdate := (Occurrence.localDay_instant hlt now 0).symm.trans htoday
    have hweekday : o.weekday = now.weekday := by omega
    have hlate := hnone c hc (hweekday ▸ hcomes)
    simp only [Occurrence.minuteOfWeek, Timestamp.minuteOfWeek, hweekday] at hole
    omega
  · have homem := List.mem_of_getLast? ho
    obtain ⟨hday, -⟩ := exists_change_of_mem_occurrencesOf henabled homem
    have hlt := ht.minuteOfDay_lt (mem_occurrencesOf.mp homem).1
    rw [hsome] at hfound
    cases hfound
    have hdate := (Occurrence.localDay_instant hlt now (-1)).symm.trans htoday
    unfold daysPerWeek at hday
    omega

end OnePlan

/-- For an enabled plan that was validated and is the only one of its service, the last transition and the plan's own
count see the same minute of today. The plan takes the count of the last of its changes there, the transition that of
the last change whose state no earlier one has; so they agree if the last change repeats no state. If the last
transition is of another date, or there is none, the plan's own count is 0. -/
theorem countAt_of_lastTransition {p q : Plan} {warnings : List Warning} {plans : List Plan}
    (hvalidated : p.validate = (.ok warnings, q)) (henabled : q.disabled = false)
    (honly : plans.filter (·.service = q.service) = [q]) (now : Timestamp) :
    (∀ t, (ofPlans plans).lastTransition q.service now = some t → t.instant.localDay = now.localDay →
      ∃ front last c, q.changesAt now.weekday t.instant.minuteOfDay = front ++ [last] ∧ q.countAt now = last.count ∧
        IsLastNew Change.state (front ++ [last]) c ∧ t.state = c.state ∧ t.count = c.count ∧
        ((∀ x ∈ front, x.state ≠ last.state) → q.countAt now = t.count)) ∧
    ((∀ t, (ofPlans plans).lastTransition q.service now = some t → t.instant.localDay ≠ now.localDay) →
      q.countAt now = 0) := by
  obtain ⟨hordered, hparsed⟩ := Plan.ordered_of_validate hvalidated henabled
  have hone : (ofPlans plans).lastTransition q.service now = (ofPlans [q]).lastTransition q.service now :=
    lastTransition_congr (occurrencesOf_ofPlans_alone honly).symm now
  rw [hone]
  rcases Plan.countAt_cases hordered now with ⟨last, hle, hlast, hcount, hmax⟩ | ⟨hnone, hcount⟩
  · obtain ⟨hmem, hcomes, -⟩ := Plan.mem_changesAt.mp (List.mem_of_getLast? hlast)
    obtain ⟨o, hfound, hday, hminute, hlt, hat⟩ := lastTransition_of_last_change henabled hparsed hmem hcomes hle hmax
    obtain ⟨c, hnew, hstate, hccount⟩ := isLastNew_of_getLast?_at henabled hparsed now.weekday_lt hat
    have hinstant : (o.transition now 0).instant.minuteOfDay = last.minuteOfDay :=
      (Occurrence.minuteOfDay_instant hlt now 0).trans hminute
    obtain ⟨front, hfront⟩ := List.getLast?_eq_some_iff.mp hlast
    rw [hfront] at hnew
    constructor
    · intro t ht _
      rw [hfound] at ht
      cases ht
      refine ⟨front, last, c, by rw [hinstant, hfront], hcount, hnew, hstate, hccount, fun hrepeats => ?_⟩
      rw [hcount, ← hnew.eq_getLast hrepeats]
      exact hccount.symm
    · intro hearlier
      have htoday : (o.transition now 0).instant.localDay = now.localDay := by
        refine (Occurrence.localDay_instant hlt now 0).trans ?_
        omega
      exact absurd htoday (hearlier _ hfound)
  · exact ⟨fun t ht htoday => absurd htoday (localDay_ne_of_no_change henabled hparsed hnone ht), fun _ => hcount⟩

/-- A service is started, stopped and started again at one minute. The last transition is the stop, since the table has
the first start only; the plan's own count is that of the last start. On the day after it is 0. -/
theorem countAt_of_lastTransition_restart :
    let p : Plan :=
      { service := ⟨"shop/api"⟩, configured := "running=0 8 1. count=2. stopped=0 8 1. running=0 8 1. count=3." }
    let q := p.validated
    let monday : Timestamp := ⟨1704099600, 0, 0⟩
    let tuesday : Timestamp := ⟨1704186000, 0, 0⟩
    let stop : Transition := { service := q.service, state := .stopped, count := 0, instant := ⟨1704096000, 0, 0⟩ }
    p.validate = (.ok [], q) ∧ q.disabled = false ∧
      (ofPlans [q]).lastTransition q.service monday = some stop ∧
      (∃ front last c, q.changesAt monday.weekday stop.instant.minuteOfDay = front ++ [last] ∧
        q.countAt monday = last.count ∧ IsLastNew Change.state (front ++ [last]) c ∧ stop.state = c.state ∧
        stop.count = c.count) ∧
      q.countAt monday = 3 ∧ q.countAt tuesday = 0 := by
  intro p q monday tuesday stop
  have hvalidated : p.validate = (.ok [], q) := by decide +kernel
  have henabled : q.disabled = false := by decide +kernel
  have honly : [q].filter (·.service = q.service) = [q] := by decide +kernel
  have hmonday : (ofPlans [q]).lastTransition q.service monday = some stop := by decide +kernel
  have htuesday : (ofPlans [q]).lastTransition q.service tuesday = some stop := by decide +kernel
  have hcount : q.countAt monday = 3 := by decide +kernel
  obtain ⟨front, last, c, hchanges, hlast, hnew, hstate, hccount, -⟩ :=
    (countAt_of_lastTransition hvalidated henabled honly monday).1 stop hmonday rfl
  have hzero := (countAt_of_lastTransition hvalidated henabled honly tuesday).2 fun t ht => by
    rw [htuesday] at ht
    cases ht
    decide
  exact ⟨hvalidated, henabled, hmonday, ⟨front, last, c, hchanges, hlast, hnew, hstate, hccount⟩, hcount, hzero⟩

/-- If two changes at one minute are for the same state and differ in their counts, the table has the count of the first
and the plan itself that of the last. -/
theorem countAt_ne_lastTransition :
    ¬∀ (p q : Plan) (warnings : List Warning) (plans : List Plan), p.validate = (.ok warnings, q) →
      q.disabled = false → plans.filter (·.service = q.service) = [q] → ∀ now : Timestamp,
        (∀ t, (ofPlans plans).lastTransition q.service now = some t → t.instant.localDay = now.localDay →
          q.countAt now = t.count) ∧
        ((∀ t, (ofPlans plans).lastTransition q.service now = some t → t.instant.localDay ≠ now.localDay) →
          q.countAt now = 0) := by
  intro hagreement
  let p : Plan := { service := ⟨"shop/api"⟩, configured := "running=0 8 1. count=2. running=0 8 1. count=3." }
  let monday : Timestamp := ⟨1704099600, 0, 0⟩
  let start : Transition :=
    { service := p.service, state := .running, count := 2, instant := ⟨1704096000, 0, 0⟩ }
  have hfound : (ofPlans [p.validated]).lastTransition p.validated.service monday = some start := by decide +kernel
  have hcount : p.validated.countAt monday = 3 := by decide +kernel
  have hagree := (hagreement p p.validated [] [p.validated] (by decide +kernel) (by decide +kernel) (by decide +kernel)
    monday).1 start hfound (by decide +kernel)
  rw [hcount] at hagree
  exact absurd hagree (by decide)

end Week

end ServiceHours
