import ServiceHours.Proofs.Week.Latest

/-!
# Days and the last transition

The transitions listed for a day against the last transition before an instant.

* A day lists the transitions of its weekday, in the order of the table (`Week.onDay_eq_filter`,
  `Week.transitionsOn_eq_map`).
* What `Week.IsLatest` says is true of the last transition only (`Week.IsLatest.lastTransition_eq`), and it is true of
  the last one that has come on a day, if none has come on a later day (`Week.isLatest_of_day`). So the last transition
  can be looked for day by day, back from today. Seven days are enough, since a transition has its weekday among them
  (`Week.lastTransition_of_none_today`).
-/

namespace ServiceHours

/-! ### Dates -/

namespace Timestamp

/-- The start of the local day some days before. -/
def daysBefore (t : Timestamp) (days : Nat) : Timestamp :=
  .ofLocal (t.localDay - days) 0 t.offset

private theorem localDay_daysBefore (t : Timestamp) (days : Nat) : (t.daysBefore days).localDay = t.localDay - days :=
  localDay_ofLocal _ _ (by decide) (by decide)

private theorem noLater_refl (t : Timestamp) : t.noLater t = true :=
  (noLater_iff t t).mpr (Or.inr ⟨rfl, Nat.le_refl _⟩)

/-- Each weekday comes on one of the last seven days before an instant. -/
private theorem exists_daysBefore (t : Timestamp) {weekday : Nat} (h : weekday < daysPerWeek) :
    ∃ days : Nat, 1 ≤ days ∧ days ≤ 7 ∧ weekdayOfDay (t.localDay - days) = weekday := by
  unfold daysPerWeek at h
  refine ⟨((t.localDay + 3 - weekday) % 7).toNat + 1, by omega, by omega, ?_⟩
  unfold weekdayOfDay
  omega

end Timestamp

namespace Occurrence

/-- The transition of an occurrence on a local date. -/
def transitionOn (o : Occurrence) (day offset : Int) : Transition :=
  { service := o.service, state := o.state, count := o.count, instant := o.onDate day offset }

private theorem transition_zero {o : Occurrence} {now : Timestamp} (h : o.weekday = now.weekday) :
    o.transition now 0 = o.transitionOn now.localDay now.offset := by
  have hday : now.localDay + ((o.weekday : Int) - now.weekday) + 7 * 0 = now.localDay := by omega
  unfold transition transitionOn instant onDate
  rw [hday]

private theorem exists_onDate_of_instant {o : Occurrence} (h : o.weekday < daysPerWeek) (now : Timestamp)
    (weeks : Int) :
    ∃ day, weekdayOfDay day = o.weekday ∧ o.onDate day now.offset = o.instant now weeks := by
  have hsunday := now.weekdayOfDay_weekStart
  unfold daysPerWeek at h
  refine ⟨now.localDay + (o.weekday - now.weekday) + 7 * weeks, ?_, rfl⟩
  unfold weekdayOfDay
  omega

/-- Times on a date compare as the minutes of the day. -/
private theorem onDate_noLater_onDate (a b : Occurrence) (day offset : Int) :
    (a.onDate day offset).noLater (b.onDate day offset) = true ↔ a.minuteOfDay ≤ b.minuteOfDay := by
  rw [Timestamp.noLater_iff]
  simp only [onDate, Timestamp.ofLocal, secondsPerDay]
  omega

private theorem onDate_noLater_of_lt_localDay {o : Occurrence} {day : Int} {now : Timestamp} (h : day < now.localDay)
    (ho : o.minuteOfDay < 1440) : (o.onDate day now.offset).noLater now = true := by
  rw [Timestamp.noLater_iff]
  simp only [onDate, Timestamp.ofLocal, Timestamp.localDay, Timestamp.localSecond, secondsPerDay] at h ⊢
  omega

private theorem not_onDate_noLater_of_localDay_lt {o : Occurrence} {day : Int} {now : Timestamp}
    (h : now.localDay < day) :
    ¬(o.onDate day now.offset).noLater now = true := by
  rw [Timestamp.noLater_iff]
  simp only [onDate, Timestamp.ofLocal, Timestamp.localDay, Timestamp.localSecond, secondsPerDay] at h ⊢
  omega

end Occurrence

namespace Week

/-! ### The listing of a day -/

private theorem weekday_of_mem_day {d : Day} {o : Occurrence} (h : o ∈ d.occurrences) : o.weekday = d.weekday := by
  obtain ⟨x, -, rfl⟩ := List.mem_map.mp h
  rfl

/-- A day of the table holds the transitions of its weekday. -/
theorem onDay_eq_filter {w : Week} (hs : w.Sound) (weekday : Nat) :
    w.onDay weekday = w.occurrences.filter (·.weekday = weekday) := by
  obtain ⟨days⟩ := w
  have hascending : days.Pairwise fun a b => a.1 < b.1 := hs.ascending
  have hnumber : ∀ entry ∈ days, entry.2.weekday = entry.1 := hs.weekday_eq
  clear hs
  unfold onDay day? occurrences
  induction days with
  | nil => rfl
  | cons entry rest ih =>
    obtain ⟨hlt, hrest⟩ := List.pairwise_cons.mp hascending
    obtain ⟨hentry, hnumber⟩ := List.forall_mem_cons.mp hnumber
    rw [List.flatMap_cons, List.filter_append, List.find?_cons]
    by_cases hday : entry.1 = weekday
    · -- The numbers ascend, so no day behind is of this weekday.
      have hall : ∀ o ∈ entry.2.occurrences, decide (o.weekday = weekday) = true := by
        intro o ho
        rw [weekday_of_mem_day ho, hentry, hday, decide_eq_true rfl]
      have hnone : ∀ o ∈ rest.flatMap (·.2.occurrences), ¬decide (o.weekday = weekday) = true := by
        intro o ho
        obtain ⟨x, hx, ho⟩ := List.mem_flatMap.mp ho
        have := hlt x hx
        rw [weekday_of_mem_day ho, hnumber x hx, decide_eq_true_eq]
        omega
      rw [List.filter_eq_self.mpr hall, List.filter_eq_nil_iff.mpr hnone, List.append_nil, decide_eq_true hday]
      simp only [Option.map_some, Day.occurrences, hentry, hday]
    · have hnone : ∀ o ∈ entry.2.occurrences, ¬decide (o.weekday = weekday) = true := by
        intro o ho
        rw [weekday_of_mem_day ho, hentry, decide_eq_true_eq]
        exact hday
      rw [List.filter_eq_nil_iff.mpr hnone, List.nil_append, decide_eq_false hday]
      exact ih hrest hnumber

theorem transitionsOn_eq_map {w : Week} (hs : w.Sound) (now : Timestamp) :
    w.transitionsOn now =
      (w.occurrences.filter (·.weekday = now.weekday)).map (·.transitionOn now.localDay now.offset) := by
  unfold transitionsOn
  rw [onDay_eq_filter hs]
  refine List.map_congr_left fun o ho => Occurrence.transition_zero ?_
  simpa using (List.mem_filter.mp ho).2

private theorem pairwise_transitionsOn {w : Week} (hs : w.Sound) (now : Timestamp) :
    (w.transitionsOn now).Pairwise fun t u => t.instant.noLater u.instant = true := by
  rw [transitionsOn_eq_map hs, List.pairwise_map]
  refine List.Pairwise.imp_of_mem (fun {a b} ha hb hab => ?_) (hs.ordered.filter _)
  have ha : a.weekday = now.weekday := by simpa using (List.mem_filter.mp ha).2
  have hb : b.weekday = now.weekday := by simpa using (List.mem_filter.mp hb).2
  refine (Occurrence.onDate_noLater_onDate a b _ _).mpr ?_
  omega

/-! ### The search day by day -/

/-- The transitions of a service on a date that have come. -/
def comeOn (w : Week) (s : Service) (now : Timestamp) (day : Int) : List Occurrence :=
  (w.occurrencesOf s).filter fun o => o.weekday = weekdayOfDay day && (o.onDate day now.offset).noLater now

private theorem mem_comeOn {w : Week} {s : Service} {now : Timestamp} {day : Int} {o : Occurrence} :
    o ∈ w.comeOn s now day ↔
      o ∈ w.occurrencesOf s ∧ o.weekday = weekdayOfDay day ∧ (o.onDate day now.offset).noLater now = true := by
  rw [comeOn, List.mem_filter, Bool.and_eq_true, decide_eq_true_eq]

private theorem comeOn_eq_nil {w : Week} {s : Service} {now : Timestamp} {day : Int} (h : now.localDay < day) :
    w.comeOn s now day = [] := by
  rw [List.eq_nil_iff_forall_not_mem]
  intro o ho
  exact Occurrence.not_onDate_noLater_of_localDay_lt h (mem_comeOn.mp ho).2.2

/-- Every transition has come on one of the seven days before. -/
private theorem exists_mem_comeOn {w : Week} (hs : w.Sound) (ht : w.Timely) {s : Service} (now : Timestamp)
    {o : Occurrence} (ho : o ∈ w.occurrencesOf s) :
    ∃ days : Nat, 1 ≤ days ∧ days ≤ 7 ∧ o ∈ w.comeOn s now (now.localDay - days) := by
  have hmem := (mem_occurrencesOf.mp ho).1
  obtain ⟨days, hpos, hle, hday⟩ := now.exists_daysBefore (hs.weekday_lt hmem)
  have hcome : (o.onDate (now.localDay - days) now.offset).noLater now = true :=
    Occurrence.onDate_noLater_of_lt_localDay (by omega) (ht.minuteOfDay_lt hmem)
  exact ⟨days, hpos, hle, mem_comeOn.mpr ⟨ho, hday.symm, hcome⟩⟩

/-- The last transition that has come on a date is a latest one of its weekday up to `now`, and the last in the table at
its time of the week. -/
private theorem last_of_comeOn {w : Week} (hs : w.Sound) (ht : w.Timely) {s : Service} {now : Timestamp} {day : Int}
    {o : Occurrence} (ho : (w.comeOn s now day).getLast? = some o) :
    o ∈ w.comeOn s now day ∧ (∀ x ∈ w.comeOn s now day, x.minuteOfWeek ≤ o.minuteOfWeek) ∧
      ((w.occurrencesOf s).filter (·.minuteOfWeek = o.minuteOfWeek)).getLast? = some o := by
  have hsorted := pairwise_occurrencesOf hs ht s
  obtain ⟨hmem, hmax, hlast⟩ := getLast?_of_pairwise_le (hsorted.filter _) ho
  obtain ⟨ho, hday, hcome⟩ := mem_comeOn.mp hmem
  refine ⟨hmem, hmax, ?_⟩
  rw [List.filter_filter] at hlast
  rw [← hlast]
  congr 1
  refine List.filter_congr fun x hx => ?_
  by_cases htime : x.minuteOfWeek = o.minuteOfWeek
  · have hx := ht.minuteOfDay_lt (mem_occurrencesOf.mp hx).1
    have ho := ht.minuteOfDay_lt (mem_occurrencesOf.mp ho).1
    have hparts : x.weekday = o.weekday ∧ x.minuteOfDay = o.minuteOfDay := by
      simp only [Occurrence.minuteOfWeek, minutesPerDay] at htime
      omega
    have hinstant : x.onDate day now.offset = o.onDate day now.offset := by
      unfold Occurrence.onDate
      rw [hparts.2]
    rw [hinstant, hcome, hparts.1, hday, decide_eq_true rfl, Bool.and_self, Bool.and_true]
  · rw [decide_eq_false htime, Bool.false_and]

/-- The last transition that has come on a date is the latest altogether, if none has come on a later date. -/
theorem isLatest_of_day {w : Week} (hs : w.Sound) (ht : w.Timely) {s : Service} {now : Timestamp} {day : Int}
    {o : Occurrence} (ho : (w.comeOn s now day).getLast? = some o)
    (hlater : ∀ later, day < later → w.comeOn s now later = []) :
    w.IsLatest s now (o.transitionOn day now.offset) := by
  obtain ⟨hmem, hmax, hlast⟩ := last_of_comeOn hs ht ho
  obtain ⟨hmem, hday, hcome⟩ := mem_comeOn.mp hmem
  have hnone (x : Occurrence) (hx : x ∈ w.occurrencesOf s) (later : Int) (hlt : day < later)
      (hdate : weekdayOfDay later = x.weekday) : ¬(x.onDate later now.offset).noLater now = true := fun hle =>
    List.not_mem_nil (hlater later hlt ▸ mem_comeOn.mpr ⟨hx, hdate.symm, hle⟩)
  -- The date is some whole weeks from this week, where times are minutes of the week.
  obtain ⟨weeks, hweeks⟩ := Occurrence.exists_instant_of_weekday hday.symm now
  have hsecond : (o.onDate day now.offset).second = now.weekStart + 60 * o.minuteOfWeek + 604800 * weeks :=
    (congrArg Timestamp.second hweeks).trans (o.second_instant now weeks)
  have htransition : o.transitionOn day now.offset = o.transition now weeks := by
    unfold Occurrence.transitionOn
    rw [hweeks]
    rfl
  rw [htransition]
  refine isLatest_transition hs ht hmem ?_ ?_ (fun x hx k hk => ?_) hlast
  · rw [Timestamp.noLater_iff] at hcome
    omega
  · have hnext := hnone o hmem (day + 7) (by omega) (by unfold weekdayOfDay at hday ⊢; omega)
    rw [Timestamp.noLater_iff] at hnext
    simp only [Occurrence.onDate, Timestamp.ofLocal, secondsPerDay] at hsecond hnext
    omega
  · -- The other one is on no later date, and on the same date the order of the table decides.
    have hxmem := (mem_occurrencesOf.mp hx).1
    have hxminute := ht.minuteOfDay_lt hxmem
    obtain ⟨date, hdate, hxweeks⟩ := Occurrence.exists_onDate_of_instant (hs.weekday_lt hxmem) now k
    have hxsecond : (x.onDate date now.offset).second = now.weekStart + 60 * x.minuteOfWeek + 604800 * k :=
      (congrArg Timestamp.second hxweeks).trans (x.second_instant now k)
    have hxcome : (x.onDate date now.offset).noLater now = true := by
      rw [hxweeks, Timestamp.noLater_iff, Occurrence.second_instant, Occurrence.nano_instant]
      omega
    have hle : date ≤ day := by
      by_contra hgt
      exact hnone x hx date (by omega) hdate hxcome
    simp only [Occurrence.onDate, Timestamp.ofLocal, secondsPerDay] at hsecond hxsecond
    rcases Int.lt_or_eq_of_le hle with hlt | rfl
    · omega
    · have := hmax x (mem_comeOn.mpr ⟨hx, hdate.symm, hxcome⟩)
      simp only [Occurrence.minuteOfWeek, minutesPerDay] at *
      omega

/-- Nothing but the last transition is a latest one. -/
theorem IsLatest.lastTransition_eq {w : Week} (hs : w.Sound) (ht : w.Timely) {s : Service} {now : Timestamp}
    {t : Transition} (h : w.IsLatest s now t) : w.lastTransition s now = some t := by
  obtain ⟨o, ho, -⟩ := h.scheduled
  obtain ⟨u, hfound⟩ := exists_lastTransition (List.ne_nil_of_mem ho) now
  have hquiet : w.Quiet s now now := fun _ _ _ _ hle => hle
  rw [hfound, h.eq_of_quiet (isLatest_of_lastTransition hs ht hfound) rfl now.noLater_refl hquiet]

/-- Of today's listing the transitions up to now are those that have come today. -/
private theorem filter_listed_today {w : Week} (hs : w.Sound) (s : Service) (now : Timestamp) :
    ((w.transitionsOn now).filter fun t => t.service = s && t.instant.noLater now) =
      (w.comeOn s now now.localDay).map (·.transitionOn now.localDay now.offset) := by
  rw [transitionsOn_eq_map hs, comeOn, occurrencesOf_eq_filter, List.filter_map, List.filter_filter,
    List.filter_filter]
  congr 1
  refine List.filter_congr fun o _ => ?_
  show (decide (o.service = s) && (o.onDate now.localDay now.offset).noLater now && decide (o.weekday = now.weekday)) =
    (decide (o.weekday = now.weekday) && (o.onDate now.localDay now.offset).noLater now && decide (o.service = s))
  rw [Bool.and_comm, Bool.and_comm (decide (o.service = s)), Bool.and_assoc]

/-- All transitions that are listed for a day before today have come. -/
private theorem filter_listed_before {w : Week} (hs : w.Sound) (ht : w.Timely) (s : Service) (now : Timestamp)
    {days : Nat} (h : 1 ≤ days) :
    (w.transitionsOn (now.daysBefore days)).filter (·.service = s) =
      (w.comeOn s now (now.localDay - days)).map (·.transitionOn (now.localDay - days) now.offset) := by
  have hoffset : (now.daysBefore days).offset = now.offset := rfl
  rw [transitionsOn_eq_map hs, comeOn, occurrencesOf_eq_filter, List.filter_map, List.filter_filter,
    List.filter_filter, Timestamp.localDay_daysBefore, hoffset]
  congr 1
  refine List.filter_congr fun o ho => ?_
  have hcome : (o.onDate (now.localDay - days) now.offset).noLater now = true :=
    Occurrence.onDate_noLater_of_lt_localDay (by omega) (ht.minuteOfDay_lt ho)
  rw [hcome, Bool.and_true, Timestamp.weekday, Timestamp.localDay_daysBefore]
  exact Bool.and_comm _ _

/-- If none has come today, then the last transition is the last one listed for the nearest of the seven days before. -/
theorem lastTransition_of_none_today {w : Week} (hs : w.Sound) (ht : w.Timely) {s : Service} {now : Timestamp}
    (htoday : w.comeOn s now now.localDay = []) :
    w.lastTransition s now = (List.range' 1 7).findSome? fun days =>
      ((w.transitionsOn (now.daysBefore days)).filter (·.service = s)).getLast? := by
  cases hfound : (List.range' 1 7).findSome? fun days =>
      ((w.transitionsOn (now.daysBefore days)).filter (·.service = s)).getLast? with
  | some t =>
    obtain ⟨before, days, after, hsplit, hdays, hbefore⟩ := List.findSome?_eq_some_iff.mp hfound
    obtain ⟨k, -, rfl, hrest⟩ := List.range'_eq_append_iff.mp hsplit
    obtain ⟨rfl, -, -⟩ := List.range'_eq_cons_iff.mp hrest.symm
    rw [filter_listed_before hs ht s now (by omega), List.getLast?_map, Option.map_eq_some_iff] at hdays
    obtain ⟨o, ho, rfl⟩ := hdays
    refine (isLatest_of_day hs ht ho fun later hlt => ?_).lastTransition_eq hs ht
    -- A later date is one that was searched before, or today, or still to come.
    rcases Int.lt_trichotomy later now.localDay with hpast | rfl | hfuture
    · have hmem : (now.localDay - later).toNat ∈ List.range' 1 k := by
        rw [List.mem_range'_1]
        omega
      have hnone := hbefore _ hmem
      have hdate : now.localDay - ((now.localDay - later).toNat : Int) = later := by omega
      rw [List.getLast?_eq_none_iff, filter_listed_before hs ht s now (by omega), List.map_eq_nil_iff, hdate] at hnone
      exact hnone
    · exact htoday
    · exact comeOn_eq_nil hfuture
  | none =>
    rw [lastTransition_eq_none_iff, List.eq_nil_iff_forall_not_mem]
    intro o ho
    obtain ⟨days, hpos, hle, hmem⟩ := exists_mem_comeOn hs ht now ho
    have hnone := List.findSome?_eq_none_iff.mp hfound days (by rw [List.mem_range'_1]; omega)
    rw [List.getLast?_eq_none_iff, filter_listed_before hs ht s now hpos, List.map_eq_nil_iff] at hnone
    exact List.not_mem_nil (hnone ▸ hmem)

/-- The transitions listed for a day are those of its weekday, each once on the date of the day, and no earlier one
behind a later one. The last transition of a service is the last one of the service that today's listing has up to now.
If there is none, then it is the last one of the service that is listed for the nearest of the seven days before which
lists any; if these list none, then there is no last transition. -/
theorem lastTransition_listed {plans : List Plan} (h : ∀ p ∈ plans, p.Parsed) (s : Service) (now : Timestamp) :
    let w := ofPlans plans
    w.transitionsOn now =
        (w.occurrences.filter (·.weekday = now.weekday)).map (·.transitionOn now.localDay now.offset) ∧
      (∀ t ∈ w.transitionsOn now, t.instant.localDay = now.localDay ∧ t.instant.offset = now.offset) ∧
      (w.transitionsOn now).Pairwise (fun t u => t.instant.noLater u.instant = true) ∧
      w.lastTransition s now =
        ((w.transitionsOn now).filter fun t => t.service = s && t.instant.noLater now).getLast?.or
          ((List.range' 1 7).findSome? fun days =>
            ((w.transitionsOn (now.daysBefore days)).filter (·.service = s)).getLast?) := by
  intro w
  have hs : w.Sound := sound_ofPlans plans
  have ht : w.Timely := timely_ofPlans h
  refine ⟨transitionsOn_eq_map hs now, fun t hlisted => ?_, pairwise_transitionsOn hs now, ?_⟩
  · rw [transitionsOn_eq_map hs] at hlisted
    obtain ⟨o, ho, rfl⟩ := List.mem_map.mp hlisted
    have := ht.minuteOfDay_lt (List.mem_filter.mp ho).1
    exact ⟨Timestamp.localDay_ofLocal _ _ (by omega) (by omega), rfl⟩
  · rw [filter_listed_today hs, List.getLast?_map]
    cases htoday : (w.comeOn s now now.localDay).getLast? with
    | some o =>
      have hlatest := isLatest_of_day hs ht htoday fun later hlt => comeOn_eq_nil hlt
      rw [hlatest.lastTransition_eq hs ht, Option.map_some, Option.some_or]
    | none =>
      rw [Option.map_none, Option.none_or]
      exact lastTransition_of_none_today hs ht (List.getLast?_eq_none_iff.mp htoday)

/-- Before the only time of the week, on its weekday, the listing of a week ago is reached; of the two transitions at
that time the last one counts. -/
theorem lastTransition_listed_week_ago :
    let api : Service := ⟨"shop/api"⟩
    let plans := [{ service := ⟨"shop/web"⟩, configured := "stopped=30 18 6." },
      { service := api, configured := "running=0 18 6. count=2. stopped=0 18 6." }].map Plan.validated
    let w := ofPlans plans
    let now : Timestamp := ⟨1704535200, 0, 0⟩
    (∀ p ∈ plans, p.Parsed) ∧ (w.transitionsOn now).length = 3 ∧
      w.lastTransition api now =
        some { service := api, state := .stopped, count := 0, instant := ⟨1703959200, 0, 0⟩ } ∧
      w.lastTransition api now = ((w.transitionsOn (now.daysBefore 7)).filter (·.service = api)).getLast? := by
  intro api plans w now
  have hplans : ∀ p ∈ plans, p.Parsed := Plan.forall_parsed_validated _
  obtain ⟨hlisted, -, -, hlast⟩ := lastTransition_listed hplans api now
  refine ⟨hplans, (congrArg List.length hlisted).trans ?_, hlast.trans ?_, hlast.trans ?_⟩ <;> decide +kernel

end Week

end ServiceHours
