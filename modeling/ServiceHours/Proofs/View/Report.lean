import ServiceHours.Proofs.Control.Collection
import ServiceHours.Proofs.Control.Record
import ServiceHours.Proofs.Week.Listing
import ServiceHours.Proofs.Week.Sequence
import ServiceHours.Proofs.Week.Table

/-!
# The report

The weekly view with the existence of services checked anew.

* Shown day by day, the table shows all that it holds, in its order: nothing in it is on a day outside the week
  (`Week.Sound.flatMap_onDay`, `ScheduleView.entries_ofWeek`).
* The marks of the report are those of the present inventory, made on a copy (`Agenda.report_value`,
  `ScheduleView.mem_missing_markKnown`). The agenda keeps its own, so what comes after is as if nothing had been
  reported (`Agenda.report_exact`).
-/

namespace ServiceHours

section Parts

variable {α : Type} {key : α → Nat} {l : List α}

private theorem filter_lt_append_filter_eq (hl : l.Pairwise fun a b => key a ≤ key b) (m : Nat) :
    l.filter (key · < m) ++ l.filter (key · = m) = l.filter (key · < m + 1) := by
  induction l with
  | nil => rfl
  | cons a l ih =>
    obtain ⟨ha, hl⟩ := List.pairwise_cons.mp hl
    have ih := ih hl
    rcases Nat.lt_trichotomy (key a) m with hlt | heq | hgt
    · have hne : key a ≠ m := Nat.ne_of_lt hlt
      have hlt' : key a < m + 1 := Nat.lt_succ_of_lt hlt
      simp only [List.filter_cons, decide_eq_true_eq, if_pos hlt, if_neg hne, if_pos hlt', List.cons_append, ih]
    · -- What follows has no smaller key, so the first part is empty.
      have hnone : l.filter (key · < m) = [] := by
        rw [List.filter_eq_nil_iff]
        intro b hb
        have := ha b hb
        rw [decide_eq_true_eq]
        omega
      have hnot : ¬key a < m := Nat.not_lt.mpr (Nat.le_of_eq heq.symm)
      have hlt' : key a < m + 1 := Nat.lt_succ_of_le (Nat.le_of_eq heq)
      rw [hnone, List.nil_append] at ih
      simp only [List.filter_cons, decide_eq_true_eq, if_neg hnot, if_pos heq, if_pos hlt', hnone, List.nil_append, ih]
    · have hnot : ¬key a < m := Nat.lt_asymm hgt
      have hne : key a ≠ m := Nat.ne_of_gt hgt
      have hnot' : ¬key a < m + 1 := Nat.not_lt.mpr hgt
      simp only [List.filter_cons, decide_eq_true_eq, if_neg hnot, if_neg hne, if_neg hnot', ih]

/-- A list in the order of a key falls into the parts with one key each, one behind the other. -/
private theorem flatMap_range_filter (hl : l.Pairwise fun a b => key a ≤ key b) {n : Nat} (hlt : ∀ a ∈ l, key a < n) :
    (List.range n).flatMap (fun k => l.filter (key · = k)) = l := by
  have hbelow (m : Nat) : (List.range m).flatMap (fun k => l.filter (key · = k)) = l.filter (key · < m) := by
    induction m with
    | zero => simp
    | succ m ih =>
      rw [List.range_succ, List.flatMap_append, ih, List.flatMap_singleton, filter_lt_append_filter_eq hl]
  rw [hbelow, List.filter_eq_self]
  exact fun a ha => decide_eq_true (hlt a ha)

end Parts

/-! ### The table, day by day -/

namespace Week

variable {w : Week}

/-- The seven days show all transitions of the table in their order. -/
theorem Sound.flatMap_onDay (hs : w.Sound) : (List.range daysPerWeek).flatMap w.onDay = w.occurrences := by
  have hdays : w.onDay = fun weekday => w.occurrences.filter (·.weekday = weekday) := funext (onDay_eq_filter hs)
  rw [hdays]
  refine flatMap_range_filter (hs.ordered.imp fun hab => ?_) fun o ho => hs.weekday_lt ho
  omega

/-- No two transitions of the table are in one slot. -/
private theorem Sound.distinct (hs : w.Sound) : w.occurrences.Pairwise fun a b => a.slot ≠ b.slot := by
  refine List.pairwise_flatMap.mpr ⟨fun entry hentry => ?_, hs.ascending.imp_of_mem ?_⟩
  · refine List.pairwise_map.mpr ((hs.day entry hentry).distinct.imp fun {a b} hab hslot => hab ?_)
    exact (a.same_iff_slotOn_eq b entry.2.weekday).mpr hslot
  · intro entry later hentry hlater hlt a ha b hb hslot
    obtain ⟨x, -, rfl⟩ := List.mem_map.mp ha
    obtain ⟨y, -, rfl⟩ := List.mem_map.mp hb
    have hday : entry.2.weekday = later.2.weekday := congrArg Slot.weekday hslot
    rw [hs.weekday_eq entry hentry, hs.weekday_eq later hlater] at hday
    omega

end Week

/-! ### The view -/

namespace ScheduleView

variable {w : Week} (profile : String) (now : Timestamp)

private theorem map_weekday_ofWeek (w : Week) :
    (ofWeek profile w now).days.map (·.weekday) = [0, 1, 2, 3, 4, 5, 6] := by
  simp only [ofWeek, List.map_map]
  rfl

/-- One of the days is today. -/
private theorem today_ofWeek (w : Week) :
    ((ofWeek profile w now).days.filter (·.isToday)).map (·.weekday) = [now.weekday] := by
  have hone : ∀ today < daysPerWeek, (List.range daysPerWeek).filter (fun d => decide (d = today)) = [today] := by
    decide
  simp only [ofWeek, List.filter_map, List.map_map]
  show ((List.range daysPerWeek).filter fun d => decide (d = now.weekday)).map id = _
  rw [hone now.weekday now.weekday_lt, List.map_id]

/-- The view shows what the table holds. -/
theorem entries_ofWeek (hs : w.Sound) : (ofWeek profile w now).entries = w.occurrences := by
  rw [entries, ofWeek, List.flatMap_map]
  exact hs.flatMap_onDay

private theorem entries_of_mem_days (hs : w.Sound) {d : DayView} (hd : d ∈ (ofWeek profile w now).days) :
    d.entries = w.occurrences.filter (·.weekday = d.weekday) := by
  obtain ⟨weekday, -, rfl⟩ := List.mem_map.mp hd
  exact Week.onDay_eq_filter hs weekday

/-- In a table that was marked, the entries of services that are not known are missing. -/
theorem mem_missing_markKnown (hs : w.Sound) (known : Service → Bool) (o : Occurrence) :
    o ∈ (ofWeek profile (w.markKnown known) now).missing ↔
      o ∈ (ofWeek profile (w.markKnown known) now).entries ∧ known o.service = false := by
  rw [missing, List.mem_filter, Bool.not_eq_true', entries_ofWeek profile now (hs.markKnown known),
    Week.occurrences_markKnown]
  refine and_congr_right fun ho => ?_
  obtain ⟨old, -, rfl⟩ := List.mem_map.mp ho
  rfl

end ScheduleView

/-! ### Reporting -/

namespace Agenda

/-- The report lists the services and shows the table with marks made from the list. -/
theorem report_value (a : Agenda) (m : Manager σ) (now : Timestamp) (x : σ) :
    (a.report m now x).value =
      match (m.listServices none x).value with
      | (.error e, y) => (.error e, y)
      | (.ok services, y) =>
        (.ok (.ofWeek a.profile (a.week.markKnown (inventoryOf services).contains) now), y) := by
  rw [report, Run.within_apply, Run.bind_apply]
  rcases (m.listServices none x).value with ⟨_ | services, y⟩ <;> rfl

/-- A report shows the seven days of the week, one of them as today. Its entries are the transitions of the table, each
once and in the order of the week, and those of services that the fleet does not list are missing. If the services
cannot be listed, that is the error. The table of the agenda keeps its own marks: whatever is done then, the weekly
schedule is shown and passes decide as if nothing had been reported. -/
theorem report_exact {a : Agenda} {steps : List Week.Step} (hweek : a.week = .ofSteps steps) (f : Fleet)
    (now : Timestamp) :
    let reported := (a.report Fleet.manager now f).value
    (∀ e, (Fleet.listServices none f).1 = .error e → reported.1 = .error e) ∧
    (∀ services, (Fleet.listServices none f).1 = .ok services → ∃ view, reported.1 = .ok view ∧
      view.days.map (·.weekday) = [0, 1, 2, 3, 4, 5, 6] ∧
      (view.days.filter (·.isToday)).map (·.weekday) = [now.weekday] ∧
      (∀ d ∈ view.days, d.entries = view.entries.filter (·.weekday = d.weekday)) ∧
      view.entries = a.week.occurrences.map (fun o => { o with known := services.contains o.service }) ∧
      (view.entries.Pairwise fun o later =>
        o.weekday < later.weekday ∨ (o.weekday = later.weekday ∧ o.minuteOfDay ≤ later.minuteOfDay)) ∧
      (view.entries.Pairwise fun o later => o.slot ≠ later.slot) ∧
      ∀ o, o ∈ view.missing ↔ o ∈ view.entries ∧ o.service ∉ services) ∧
    ∀ (turns : List Turn) (later : Timestamp),
      let withReport := turns.foldl (Turn.after a) reported.2
      let without := turns.foldl (Turn.after a) f
      without.Alike withReport ∧
      (a.schedule later withReport).value.1 = (a.schedule later without).value.1 ∧
      (a.schedule later withReport).value.1.entries = a.week.occurrences ∧
      ∀ dryRun, (a.pass Fleet.manager later dryRun withReport).value.1 =
        (a.pass Fleet.manager later dryRun without).value.1 := by
  intro reported
  have hs : a.week.Sound := hweek ▸ Week.sound_ofSteps steps
  have hlisted : (Fleet.manager.listServices none f).value = Fleet.listServices none f := rfl
  have hvalue : reported = _ := a.report_value Fleet.manager now f
  rw [hlisted, ← Prod.eta (Fleet.listServices none f)] at hvalue
  refine ⟨fun e he => ?_, fun services hservices => ?_, fun turns later => ?_⟩
  · rw [hvalue, he]
  · have hcontains : (inventoryOf services).contains = services.contains := by
      funext s
      rw [Bool.eq_iff_iff, List.contains_iff_mem, List.contains_iff_mem, mem_inventoryOf]
    have hview : reported.1 = .ok (.ofWeek a.profile (a.week.markKnown services.contains) now) := by
      rw [hvalue, hservices]
      dsimp only
      rw [hcontains]
    have hmarked : (a.week.markKnown services.contains).Sound := hs.markKnown _
    have hentries := ScheduleView.entries_ofWeek a.profile now hmarked
    refine ⟨_, hview, ScheduleView.map_weekday_ofWeek _ _ _, ScheduleView.today_ofWeek _ _ _, fun d hd => ?_,
      ?_, ?_, ?_, fun o => ?_⟩
    · rw [hentries]
      exact ScheduleView.entries_of_mem_days _ _ hmarked hd
    · rw [hentries, Week.occurrences_markKnown]
    · rw [hentries]
      exact hmarked.ordered
    · rw [hentries]
      exact hmarked.distinct
    · rw [ScheduleView.mem_missing_markKnown _ _ hs, ← Bool.not_eq_true, List.contains_iff_mem]
  · intro withReport without
    have halike : without.Alike withReport := a.alike_turns (f.onlyLooked_report a now).alike turns
    refine ⟨halike, rfl, ScheduleView.entries_ofWeek _ _ hs, fun dryRun => ?_⟩
    exact (a.pass_of_alike halike later dryRun).1.symm

/-- One service was deleted since the survey, and one that the survey did not find is there by now. The report shows the
first as missing, the weekly schedule still the second; and since its state cannot be seen, the pass still skips it. -/
theorem report_exact_deleted :
    let api : Service := ⟨"shop/api"⟩
    let web : Service := ⟨"shop/web"⟩
    let plans := [{ service := api, configured := "running=0 8 1-2." },
      { service := web, configured := "stopped=0 18 0. running=0 6 3." }].map Plan.validated
    let a := Agenda.ofSurvey "default" { plans, inventory := [api] }
    let f := (Fleet.addService {} web).setUnknown web
    let now : Timestamp := ⟨1704283200, 0, 0⟩
    let reported := (a.report Fleet.manager now f).value
    (∃ steps, a.week = .ofSteps steps) ∧
      (Fleet.listServices none f).1 = .ok [web] ∧
      (∃ view, reported.1 = .ok view ∧
        view.entries.map (fun o => (o.weekday, o.service)) = [(0, web), (1, api), (2, api), (3, web)] ∧
        ∀ o, o ∈ view.missing ↔ o ∈ view.entries ∧ o.service ∉ [web]) ∧
      (a.schedule now reported.2).value.1.missing.map (·.service) = [web, web] ∧
      (a.pass Fleet.manager now false reported.2).value.1.map (·.decision) =
        [.skip (.describeFailed "service not found: shop/api"), .skip .missing] ∧
      (a.report Fleet.manager now f.failList).value.1 = .error (.list "scripted failure") := by
  intro api web plans a f now reported
  have hweek : a.week = .ofSteps (plans.map .add ++ [.mark [api].contains]) := by
    rw [← Week.markKnown_ofSteps, ← Week.ofPlans_eq_ofSteps]
    rfl
  have hlisted : (Fleet.listServices none f).1 = .ok [web] := by decide +kernel
  obtain ⟨-, hview, hafter⟩ := report_exact hweek f now
  obtain ⟨view, hreported, -, -, -, hentries, -, -, hmissing⟩ := hview [web] hlisted
  obtain ⟨-, hschedule, -, hpass⟩ := hafter [] now
  refine ⟨⟨_, hweek⟩, hlisted, ⟨view, hreported, ?_, hmissing⟩, ?_, ?_,
    (report_exact hweek f.failList now).1 _ (by decide +kernel)⟩
  · rw [hentries]
    decide +kernel
  · rw [show (a.schedule now reported.2).value.1 = _ from hschedule]
    decide +kernel
  · rw [show (a.pass Fleet.manager now false reported.2).value.1 = _ from hpass false]
    decide +kernel

end Agenda

end ServiceHours
