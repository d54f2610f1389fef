import ServiceHours.Proofs.Week.Table

/-!
# Plans that are added again

A slot of the table is taken if a transition stands in it (`Week.Taken`).

* Adding a plan takes the slots of all its transitions (`Week.Sound.taken_add`), and no step frees one
  (`Week.Sound.taken_foldl_step`).
* A transition whose slot is taken leaves the whole table as it is (`Week.Sound.insert_of_taken`), and so does a plan
  exactly if the slots of all its transitions are taken (`Week.Sound.add_eq_self_iff`).
-/

namespace ServiceHours.Week

variable {w : Week} {o : Occurrence} {p : Plan} {slot : Slot}

/-! ### Slots that are taken -/

/-- The table has a transition in the slot. -/
def Taken (w : Week) (slot : Slot) : Prop :=
  ∃ o ∈ w.occurrences, o.slot = slot

private theorem Sound.taken_iff (h : w.Sound) : w.Taken slot ↔ (w.stored? slot).isSome := by
  rw [← h.exists_mem_iff]
  constructor
  · rintro ⟨o, ho, rfl⟩
    obtain ⟨entry, hentry, hday, hx⟩ := mem_occurrences.mp ho
    exact ⟨entry, hentry, (h.weekday_eq entry hentry).symm.trans hday, o.toSwitch, hx, rfl⟩
  · rintro ⟨entry, hentry, hday, x, hx, hslot⟩
    have hweekday : entry.2.weekday = slot.weekday := (h.weekday_eq entry hentry).trans hday
    exact ⟨⟨x, slot.weekday⟩, mem_occurrences.mpr ⟨entry, hentry, hweekday, hx⟩, hslot⟩

/-- No step frees a slot. -/
theorem Sound.taken_foldl_step (h : w.Sound) (hslot : w.Taken slot) (steps : List Step) :
    (steps.foldl Week.step w).Taken slot := by
  have hlt : slot.weekday < daysPerWeek := by
    obtain ⟨o, ho, rfl⟩ := hslot
    exact h.weekday_lt ho
  rw [(h.foldl_step steps).taken_iff, stored?_foldl_step h steps hlt, Option.isSome_or, h.taken_iff.mp hslot,
    Bool.true_or]

/-- Adding a plan takes the slots of all transitions that it asks for. -/
theorem Sound.taken_add (h : w.Sound) (ho : o ∈ p.occurrences) : (w.add p).Taken o.slot := by
  have hsound : (w.add p).Sound := h.step (.add p)
  have hfound : (p.occurrences.find? (·.slot = o.slot)).isSome :=
    List.find?_isSome.mpr ⟨o, ho, decide_eq_true rfl⟩
  rw [hsound.taken_iff, add, stored?_foldl_insert h fun _ => Plan.weekday_lt_of_mem_occurrences, Option.isSome_or,
    Option.isSome_map, hfound, Bool.or_true]

/-! ### Transitions that are there -/

/-- A day that the change leaves as it is stays where it is. -/
private theorem changeDay_of_eq {weekday : Nat} {change : Day → Day} {days : List (Nat × Day)} {d : Day}
    (h : days.Pairwise fun a b => a.1 < b.1) (hd : (weekday, d) ∈ days) (hsame : change d = d) :
    changeDay weekday change days = days := by
  induction days with
  | nil => cases hd
  | cons first rest ih =>
    obtain ⟨hfirst, hrest⟩ := List.pairwise_cons.mp h
    rcases List.mem_cons.mp hd with rfl | hd
    · rw [changeDay, if_pos rfl, hsame]
    · have hlt : first.1 < weekday := hfirst _ hd
      rw [changeDay, if_neg (by omega), if_neg (by omega), ih hrest hd]

/-- A transition whose slot is taken changes nothing. -/
theorem Sound.insert_of_taken (h : w.Sound) (ho : w.Taken o.slot) : w.insert o = w := by
  obtain ⟨x, hx, hslot⟩ := ho
  have hweekday : x.weekday = o.weekday := congrArg Slot.weekday hslot
  have hsame : x.same o.toSwitch = true := by
    rw [Switch.same_iff_slotOn_eq _ _ o.weekday, ← hweekday]
    exact hslot.trans (congrArg o.slotOn hweekday.symm)
  obtain ⟨entry, hentry, hday, hmem⟩ := mem_occurrences.mp hx
  have hnumber : entry.1 = o.weekday := (h.weekday_eq entry hentry).symm.trans (hday.trans hweekday)
  have hinsert : entry.2.insert o.toSwitch = entry.2 := Day.insert_of_same ⟨x.toSwitch, hmem, hsame⟩
  exact congrArg Week.mk (changeDay_of_eq h.ascending (hnumber ▸ hentry) hinsert)

private theorem Sound.foldl_insert_of_taken (h : w.Sound) {os : List Occurrence} (hos : ∀ o ∈ os, w.Taken o.slot) :
    os.foldl Week.insert w = w := by
  induction os with
  | nil => rfl
  | cons o os ih =>
    obtain ⟨ho, hos⟩ := List.forall_mem_cons.mp hos
    rw [List.foldl_cons, h.insert_of_taken ho, ih hos]

/-- A plan changes nothing exactly if each transition that it asks for is there, whatever its count. -/
theorem Sound.add_eq_self_iff (h : w.Sound) (p : Plan) : w.add p = w ↔ ∀ o ∈ p.occurrences, w.Taken o.slot := by
  refine ⟨fun hsame o ho => ?_, fun htaken => h.foldl_insert_of_taken htaken⟩
  rw [← hsame]
  exact h.taken_add ho

/-- The slots of a plan that was added at any time are taken. -/
private theorem taken_ofSteps_of_mem {steps : List Step} (hp : .add p ∈ steps) (ho : o ∈ p.occurrences) :
    (ofSteps steps).Taken o.slot := by
  obtain ⟨before, after, rfl⟩ := List.append_of_mem hp
  have hbefore := sound_ofSteps before
  rw [ofSteps, List.foldl_append, List.foldl_cons]
  exact (hbefore.step (.add p)).taken_foldl_step (hbefore.taken_add ho) after

/-- Adding a plan leaves the table as it is, with its days, the order of the transitions, their counts, texts and marks,
exactly if the table has a transition in the slot of each that the plan asks for. So it does if the plan was added at
any time before. -/
theorem add_again (steps : List Step) (p : Plan) :
    ((ofSteps steps).add p = ofSteps steps ↔
      ∀ o ∈ p.occurrences, ∃ x ∈ (ofSteps steps).occurrences, x.slot = o.slot) ∧
    (.add p ∈ steps → (ofSteps steps).add p = ofSteps steps) := by
  have hiff := (sound_ofSteps steps).add_eq_self_iff p
  exact ⟨hiff, fun hp => hiff.mpr fun o ho => taken_ofSteps_of_mem hp ho⟩

/-- Two plans of a service ask for the same transitions at nine o'clock, the first of them twice and in both states, and
no service is marked as existing. Adding the first again brings back no mark and no count; another plan still counts. -/
theorem add_again_marked :
    let at9 : Recurrence := ⟨0, 9, [1, 5]⟩
    let p : Plan := { service := ⟨"shop/api"⟩, changes :=
      [{ state := .running, count := 2, cron := "0 9 1/5", recurrence := at9 },
        { state := .stopped, cron := "0 9 1/5", recurrence := at9 },
        { state := .running, count := 7, cron := "0 9 1/5", recurrence := at9 }] }
    let q : Plan := { p with changes := [{ state := .stopped, cron := "0 9 +1", recurrence := ⟨0, 9, [1]⟩ }] }
    let evening : Change := { state := .stopped, cron := "0 18 5", recurrence := ⟨0, 18, [5]⟩ }
    let late : Plan := { p with changes := [evening] }
    let w := ofSteps [.add q, .add p, .mark fun _ => false]
    (w.onDay 1).map (fun o => (o.state, o.count, o.cron, o.known)) =
        [(.stopped, 0, "0 9 +1", false), (.running, 2, "0 9 1/5", false)] ∧
      w.add p = w ∧ w.add late ≠ w := by
  intro at9 p q evening late w
  refine ⟨by decide +kernel, (add_again _ p).2 (by simp), fun hsame => ?_⟩
  have htaken := (add_again _ late).1.mp hsame ⟨.ofChange ⟨"shop/api"⟩ evening, 5⟩ (by decide +kernel)
  exact absurd htaken (by decide +kernel)

end ServiceHours.Week
