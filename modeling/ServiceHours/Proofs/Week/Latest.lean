import ServiceHours.Proofs.Schedule.Validation
import ServiceHours.Proofs.Week.Table
import ServiceHours.Week.Utilization
import ServiceHours.Week.Transition

/-!
# The last transition

What `Week.lastTransition` finds, for a table whose transitions stand in order and at real times of day
(`Week.Timely`), as the tables of parsed plans do.

* In the week of an instant a transition comes by its minute of the week, whatever the offset
  (`Occurrence.instant_noLater_iff`), and its instants on all dates are those in whole weeks from there
  (`Occurrence.exists_instant_of_weekday`).
* `Week.lastTransition_cases` says all that the search can do.
* `Week.IsLatest` is what the last transition is to be, said without the search; the search finds it
  (`Week.isLatest_of_lastTransition`).
-/

namespace ServiceHours

/-! ### Minutes of the week -/

namespace Timestamp

theorem noLater_iff (a b : Timestamp) :
    a.noLater b = true ↔ a.second < b.second ∨ (a.second = b.second ∧ a.nano ≤ b.nano) := by
  simp only [noLater, Bool.or_eq_true, Bool.and_eq_true, decide_eq_true_eq]

/-- Outside of a leap second the clock moves by as much as it is told to. -/
theorem plus_of_nano_lt {t : Timestamp} (h : t.nano < nanosPerSecond) (seconds : Int) :
    t.plus seconds = { t with second := t.second + seconds } := by
  simp [plus, h]

/-- The instant at which the local week began, in seconds since 1970. -/
def weekStart (t : Timestamp) : Int :=
  (t.localDay - t.weekday) * secondsPerDay - t.offset

/-- Minutes from the start of the local week. -/
def minuteOfWeek (t : Timestamp) : Nat :=
  t.weekday * minutesPerDay + t.minuteOfDay

private theorem weekStart_add_le (t : Timestamp) :
    t.weekStart + 60 * t.minuteOfWeek ≤ t.second ∧ t.second < t.weekStart + 60 * t.minuteOfWeek + 60 := by
  simp only [weekStart, minuteOfWeek, minuteOfDay, secondOfDay, localDay, localSecond, secondsPerDay, minutesPerDay]
  omega

theorem minuteOfDay_lt (t : Timestamp) : t.minuteOfDay < 1440 := by
  simp only [minuteOfDay, secondOfDay, localSecond, secondsPerDay]
  omega

private theorem minuteOfWeek_lt (t : Timestamp) : t.minuteOfWeek < minutesPerWeek := by
  have hday : t.weekday < 7 := t.weekday_lt
  have hminute := t.minuteOfDay_lt
  simp only [minuteOfWeek, minutesPerDay, minutesPerWeek]
  omega

/-- The local week begins on a Sunday. -/
theorem weekdayOfDay_weekStart (t : Timestamp) : (t.localDay - t.weekday + 4) % 7 = 0 := by
  simp only [weekday, weekdayOfDay]
  omega

end Timestamp

namespace Occurrence

/-- The instant of an occurrence on a local date. -/
def onDate (o : Occurrence) (day offset : Int) : Timestamp :=
  .ofLocal day o.minuteOfDay offset

theorem second_instant (o : Occurrence) (now : Timestamp) (weeks : Int) :
    (o.instant now weeks).second = now.weekStart + 60 * o.minuteOfWeek + 604800 * weeks := by
  simp only [instant, Timestamp.ofLocal, Timestamp.weekStart, minuteOfWeek, secondsPerDay, minutesPerDay]
  omega

@[simp] theorem nano_instant (o : Occurrence) (now : Timestamp) (weeks : Int) : (o.instant now weeks).nano = 0 := rfl

/-- A transition of this week has come exactly if its minute of the week has. -/
theorem instant_noLater_iff (o : Occurrence) (now : Timestamp) :
    (o.instant now 0).noLater now = true ↔ o.minuteOfWeek ≤ now.minuteOfWeek := by
  have := now.weekStart_add_le
  rw [Timestamp.noLater_iff, second_instant, nano_instant]
  omega

/-- On a date with its weekday an occurrence comes some whole weeks from the week of `now`. -/
theorem exists_instant_of_weekday {o : Occurrence} {day : Int} (h : weekdayOfDay day = o.weekday) (now : Timestamp) :
    ∃ weeks : Int, o.onDate day now.offset = o.instant now weeks := by
  have hsunday := now.weekdayOfDay_weekStart
  refine ⟨(day - now.localDay + now.weekday - o.weekday) / 7, ?_⟩
  unfold onDate instant
  congr 1
  unfold weekdayOfDay at h
  omega

theorem localDay_instant {o : Occurrence} (h : o.minuteOfDay < 1440) (now : Timestamp) (weeks : Int) :
    (o.instant now weeks).localDay = now.localDay + (o.weekday - now.weekday) + 7 * weeks :=
  Timestamp.localDay_ofLocal _ _ (by omega) (by omega)

private theorem weekday_instant {o : Occurrence} (h : o.minuteOfDay < 1440) (hday : o.weekday < daysPerWeek)
    (now : Timestamp) (weeks : Int) : (o.instant now weeks).weekday = o.weekday := by
  have hsunday := now.weekdayOfDay_weekStart
  unfold daysPerWeek at hday
  rw [Timestamp.weekday, localDay_instant h]
  unfold weekdayOfDay
  omega

private theorem secondOfDay_instant {o : Occurrence} (h : o.minuteOfDay < 1440) (now : Timestamp) (weeks : Int) :
    (o.instant now weeks).secondOfDay = o.minuteOfDay * 60 := by
  simp only [instant, Timestamp.ofLocal, Timestamp.secondOfDay, Timestamp.localSecond, secondsPerDay]
  omega

theorem minuteOfDay_instant {o : Occurrence} (h : o.minuteOfDay < 1440) (now : Timestamp) (weeks : Int) :
    (o.instant now weeks).minuteOfDay = o.minuteOfDay :=
  Timestamp.minuteOfDay_ofLocal _ _ h

end Occurrence

/-! ### Last elements of ordered lists -/

section Ordered

variable {α : Type} {f : α → Nat} {xs : List α}

/-- In ascending order the elements up to a bound are those in front. -/
theorem takeWhile_le_eq_filter (h : xs.Pairwise fun a b => f a ≤ f b) (bound : Nat) :
    (xs.takeWhile fun x => f x ≤ bound) = xs.filter fun x => f x ≤ bound := by
  induction xs with
  | nil => rfl
  | cons x xs ih =>
    obtain ⟨hx, hxs⟩ := List.pairwise_cons.mp h
    by_cases hle : f x ≤ bound
    · simp [hle, ih hxs]
    · have hnil : (xs.filter fun y => f y ≤ bound) = [] := by
        rw [List.filter_eq_nil_iff]
        intro y hy
        have := hx y hy
        simp
        omega
      simp [hle, hnil]

/-- The last element in ascending order is a greatest one, and of the greatest ones it is the last. -/
theorem getLast?_of_pairwise_le (h : xs.Pairwise fun a b => f a ≤ f b) {x : α} (hx : xs.getLast? = some x) :
    x ∈ xs ∧ (∀ y ∈ xs, f y ≤ f x) ∧ (xs.filter fun y => f y = f x).getLast? = some x := by
  obtain ⟨ys, rfl⟩ := List.getLast?_eq_some_iff.mp hx
  refine ⟨by simp, fun y hy => ?_, by simp [List.filter_append]⟩
  rcases List.mem_append.mp hy with hy | hy
  · exact (List.pairwise_append.mp h).2.2 y hy x (by simp)
  · exact Nat.le_of_eq (congrArg f (List.mem_singleton.mp hy))

/-- The last element up to a bound. -/
theorem getLast?_filter_le (h : xs.Pairwise fun a b => f a ≤ f b) {bound : Nat} {x : α}
    (hx : (xs.filter fun y => f y ≤ bound).getLast? = some x) :
    x ∈ xs ∧ f x ≤ bound ∧ (∀ y ∈ xs, f y ≤ bound → f y ≤ f x) ∧
      (xs.filter fun y => f y = f x).getLast? = some x := by
  obtain ⟨hmem, hmax, hlast⟩ := getLast?_of_pairwise_le (h.filter _) hx
  obtain ⟨hmem, hle⟩ := List.mem_filter.mp hmem
  have hle : f x ≤ bound := by simpa using hle
  refine ⟨hmem, hle, fun y hy hb => hmax y (List.mem_filter.mpr ⟨hy, by simpa using hb⟩), ?_⟩
  rw [List.filter_filter] at hlast
  rw [← hlast]
  congr 1
  refine List.filter_congr fun y _ => ?_
  by_cases he : f y = f x
  · simp [he, hle]
  · simp [he]

end Ordered

/-! ### The search -/

namespace Week

/-- All transitions come at a real time of day. -/
def Timely (w : Week) : Prop :=
  ∀ o ∈ w.occurrences, o.hour ≤ 23 ∧ o.minute ≤ 59

theorem Timely.minuteOfDay_lt {w : Week} (h : w.Timely) {o : Occurrence} (ho : o ∈ w.occurrences) :
    o.minuteOfDay < 1440 := by
  have := h o ho
  unfold Switch.minuteOfDay
  omega

theorem minuteOfWeek_lt {w : Week} (hs : w.Sound) (ht : w.Timely) {o : Occurrence} (ho : o ∈ w.occurrences) :
    o.minuteOfWeek < minutesPerWeek := by
  have hminute := ht.minuteOfDay_lt ho
  have hday : o.weekday < 7 := hs.weekday_lt ho
  simp only [Occurrence.minuteOfWeek, minutesPerDay, minutesPerWeek]
  omega

/-- The transitions of a service stand by their minute of the week. -/
theorem pairwise_occurrencesOf {w : Week} (hs : w.Sound) (ht : w.Timely) (s : Service) :
    (w.occurrencesOf s).Pairwise fun a b => a.minuteOfWeek ≤ b.minuteOfWeek := by
  rw [occurrencesOf_eq_filter]
  refine List.Pairwise.imp_of_mem (fun ha hb hab => ?_) (hs.ordered.filter _)
  have := ht.minuteOfDay_lt (List.mem_filter.mp ha).1
  have := ht.minuteOfDay_lt (List.mem_filter.mp hb).1
  simp only [Occurrence.minuteOfWeek, minutesPerDay]
  omega

/-- What the search can find: nothing for a service without transitions; the last transition that has come this week;
or, if none has come yet, the last one of the week before. -/
theorem lastTransition_cases {w : Week} (hs : w.Sound) (ht : w.Timely) (s : Service) (now : Timestamp) :
    (w.occurrencesOf s = [] ∧ w.lastTransition s now = none) ∨
    (∃ o, ((w.occurrencesOf s).filter (·.minuteOfWeek ≤ now.minuteOfWeek)).getLast? = some o ∧
      w.lastTransition s now = some (o.transition now 0)) ∨
    (∃ o, (∀ x ∈ w.occurrencesOf s, now.minuteOfWeek < x.minuteOfWeek) ∧ (w.occurrencesOf s).getLast? = some o ∧
      w.lastTransition s now = some (o.transition now (-1))) := by
  -- The search stops at the first transition that is still to come; by the order all behind it are to come as well.
  have htake : ((w.occurrencesOf s).takeWhile fun o => (o.instant now 0).noLater now) =
      (w.occurrencesOf s).filter (·.minuteOfWeek ≤ now.minuteOfWeek) := by
    rw [← takeWhile_le_eq_filter (pairwise_occurrencesOf hs ht s)]
    congr 1
    funext o
    rw [Bool.eq_iff_iff, Occurrence.instant_noLater_iff, decide_eq_true_eq]
  unfold lastTransition
  rw [htake]
  cases hthis : ((w.occurrencesOf s).filter (·.minuteOfWeek ≤ now.minuteOfWeek)).getLast? with
  | some o => exact Or.inr (Or.inl ⟨o, rfl, rfl⟩)
  | none =>
    have hlater : ∀ x ∈ w.occurrencesOf s, now.minuteOfWeek < x.minuteOfWeek := by
      rw [List.getLast?_eq_none_iff, List.filter_eq_nil_iff] at hthis
      intro x hx
      simpa using hthis x hx
    cases hlast : (w.occurrencesOf s).getLast? with
    | some o => exact Or.inr (Or.inr ⟨o, hlater, rfl, rfl⟩)
    | none => exact Or.inl ⟨List.getLast?_eq_none_iff.mp hlast, rfl⟩

/-- The transition `t` is the latest of a service at `now`: it has come within the last seven days, at the local time of
one of the transitions in the table, and none of them comes on any date between it and `now`. Of several transitions
at that time it is the last in the table. -/
structure IsLatest (w : Week) (s : Service) (now : Timestamp) (t : Transition) : Prop where
  service : t.service = s
  offset : t.instant.offset = now.offset
  noLater : t.instant.noLater now = true
  recent : (t.instant.plus (7 * secondsPerDay)).noLater now = false
  scheduled : ∃ o ∈ w.occurrencesOf s, t.instant.weekday = o.weekday ∧
    t.instant.secondOfDay = o.hour * 3600 + o.minute * 60 ∧ t.instant.nano = 0
  latest : ∀ o ∈ w.occurrencesOf s, ∀ day, weekdayOfDay day = o.weekday →
    (o.onDate day now.offset).noLater now = true → (o.onDate day now.offset).noLater t.instant = true
  last : ∃ o, ((w.occurrencesOf s).filter fun x =>
      x.weekday = t.instant.weekday ∧ x.minuteOfDay = t.instant.minuteOfDay).getLast? = some o ∧
    t.state = o.state ∧ t.count = o.count

/-- An occurrence gives the latest transition if no other comes between its instant and `now`, and if it is the last at
its minute of the week. -/
theorem isLatest_transition {w : Week} (hs : w.Sound) (ht : w.Timely) {s : Service} {now : Timestamp}
    {o : Occurrence} {weeks : Int} (ho : o ∈ w.occurrencesOf s)
    (hcome : now.weekStart + 60 * o.minuteOfWeek + 604800 * weeks ≤ now.second)
    (hrecent : now.second < now.weekStart + 60 * o.minuteOfWeek + 604800 * weeks + 604800)
    (hlatest : ∀ x ∈ w.occurrencesOf s, ∀ k : Int, now.weekStart + 60 * x.minuteOfWeek + 604800 * k ≤ now.second →
      60 * (x.minuteOfWeek : Int) + 604800 * k ≤ 60 * o.minuteOfWeek + 604800 * weeks)
    (hlast : ((w.occurrencesOf s).filter (·.minuteOfWeek = o.minuteOfWeek)).getLast? = some o) :
    w.IsLatest s now (o.transition now weeks) := by
  have hmem := (mem_occurrencesOf.mp ho).1
  have hminute := ht.minuteOfDay_lt hmem
  have hday := hs.weekday_lt hmem
  refine ⟨(mem_occurrencesOf.mp ho).2, rfl, ?_, ?_, ?_, ?_, ?_⟩
  · show (o.instant now weeks).noLater now = true
    rw [Timestamp.noLater_iff, Occurrence.second_instant, Occurrence.nano_instant]
    omega
  · have hnano : (o.transition now weeks).instant.nano < nanosPerSecond := by
      show 0 < nanosPerSecond
      decide
    rw [← Bool.not_eq_true, Timestamp.noLater_iff, Timestamp.plus_of_nano_lt hnano]
    show ¬((o.instant now weeks).second + 7 * secondsPerDay < now.second ∨
      (o.instant now weeks).second + 7 * secondsPerDay = now.second ∧ _)
    rw [Occurrence.second_instant, secondsPerDay]
    omega
  · refine ⟨o, ho, Occurrence.weekday_instant hminute hday now weeks, ?_, rfl⟩
    show (o.instant now weeks).secondOfDay = _
    rw [Occurrence.secondOfDay_instant hminute, Switch.minuteOfDay]
    omega
  · -- A date of another occurrence is some whole weeks from this week, which leaves seconds to compare.
    intro x hx day hdate hle
    obtain ⟨k, hk⟩ := Occurrence.exists_instant_of_weekday hdate now
    rw [hk, Timestamp.noLater_iff, Occurrence.second_instant, Occurrence.nano_instant] at hle
    have := hlatest x hx k (by omega)
    show (x.onDate day now.offset).noLater (o.instant now weeks) = true
    rw [hk, Timestamp.noLater_iff, Occurrence.second_instant, Occurrence.second_instant]
    simp only [Occurrence.nano_instant]
    omega
  · refine ⟨o, ?_, rfl, rfl⟩
    rw [← hlast]
    congr 1
    refine List.filter_congr fun x hx => ?_
    have hx := ht.minuteOfDay_lt (mem_occurrencesOf.mp hx).1
    show decide (x.weekday = (o.instant now weeks).weekday ∧ x.minuteOfDay = (o.instant now weeks).minuteOfDay) = _
    rw [Occurrence.weekday_instant hminute hday, Occurrence.minuteOfDay_instant hminute, decide_eq_decide]
    simp only [Occurrence.minuteOfWeek, minutesPerDay]
    omega

/-- The search finds the latest transition. -/
theorem isLatest_of_lastTransition {w : Week} (hs : w.Sound) (ht : w.Timely) {s : Service} {now : Timestamp}
    {t : Transition} (h : w.lastTransition s now = some t) : w.IsLatest s now t := by
  have hbounds := now.weekStart_add_le
  have hnow := now.minuteOfWeek_lt
  have hsorted := pairwise_occurrencesOf hs ht s
  have hlt : ∀ x ∈ w.occurrencesOf s, x.minuteOfWeek < minutesPerWeek := fun x hx =>
    minuteOfWeek_lt hs ht (mem_occurrencesOf.mp hx).1
  unfold minutesPerWeek at *
  rcases lastTransition_cases hs ht s now with ⟨-, hnone⟩ | ⟨o, ho, hsome⟩ | ⟨o, hlater, ho, hsome⟩
  · rw [hnone] at h
    cases h
  · -- The last one that has come this week. Those of the weeks before are too early, those of the weeks after to come.
    obtain ⟨hmem, hle, hmax, hlast⟩ := getLast?_filter_le hsorted ho
    rw [hsome] at h
    cases h
    refine isLatest_transition hs ht hmem (by omega) (by omega) (fun x hx k hk => ?_) hlast
    have := hlt x hx
    have := hmax x hx
    omega
  · -- Nothing has come this week, so only weeks before it count, and there the last of all.
    obtain ⟨hmem, hmax, hlast⟩ := getLast?_of_pairwise_le hsorted ho
    rw [hsome] at h
    cases h
    have := hlater o hmem
    have := hlt o hmem
    refine isLatest_transition hs ht hmem (by omega) (by omega) (fun x hx k hk => ?_) hlast
    have := hlater x hx
    have := hmax x hx
    omega

/-- The search fails for a service without transitions only, whatever the table. -/
theorem lastTransition_eq_none_iff (w : Week) (s : Service) (now : Timestamp) :
    w.lastTransition s now = none ↔ w.occurrencesOf s = [] := by
  unfold lastTransition
  cases hthis : ((w.occurrencesOf s).takeWhile fun o => (o.instant now 0).noLater now).getLast? with
  | some o =>
    have hmem : o ∈ w.occurrencesOf s := (List.takeWhile_sublist _).subset (List.mem_of_getLast? hthis)
    simp [List.ne_nil_of_mem hmem]
  | none => simp

/-! ### Tables of plans -/

/-- Changes that were read bring real times of day into the table. -/
theorem exists_lastTransition {w : Week} {s : Service} (h : w.occurrencesOf s ≠ []) (now : Timestamp) :
    ∃ t, w.lastTransition s now = some t :=
  Option.ne_none_iff_exists'.mp fun hnone => h ((w.lastTransition_eq_none_iff s now).mp hnone)

theorem timely_ofSteps {steps : List Step} (h : ∀ p, Step.add p ∈ steps → p.Parsed) : (ofSteps steps).Timely := by
  intro o ho
  obtain ⟨p, hp, hdis, -, c, hc, -, hhour, hminute, -⟩ := exists_change_of_mem_occurrences ho
  have hwf := (h p hp hdis c hc).wellFormed
  have hhour' := hwf.hour_le
  have hminute' := hwf.minute_le
  rw [hhour] at hhour'
  rw [hminute] at hminute'
  exact ⟨hhour', hminute'⟩

theorem timely_ofPlans {plans : List Plan} (h : ∀ p ∈ plans, p.Parsed) : (ofPlans plans).Timely := by
  rw [ofPlans_eq_ofSteps]
  refine timely_ofSteps fun p hp => ?_
  obtain ⟨q, hq, he⟩ := List.mem_map.mp hp
  cases he
  exact h p hq

/-- For a table of parsed plans the search fails exactly if the service has no transitions, and otherwise finds the
latest one. -/
theorem lastTransition_of_parsed {plans : List Plan} (h : ∀ p ∈ plans, p.Parsed) (s : Service) (now : Timestamp) :
    ((ofPlans plans).lastTransition s now = none ↔ (ofPlans plans).occurrencesOf s = []) ∧
      ∀ t, (ofPlans plans).lastTransition s now = some t → (ofPlans plans).IsLatest s now t :=
  ⟨lastTransition_eq_none_iff _ s now,
    fun _ ht => isLatest_of_lastTransition (sound_ofPlans plans) (timely_ofPlans h) ht⟩

/-- Just after midnight on a Sunday the transitions of the Saturday before are looked up in the week before; of two at
the same time the one added last counts. -/
theorem lastTransition_of_parsed_sunday :
    let plans :=
      [{ service := ⟨"shop/api"⟩, configured := "running=0 18 6. count=2. stopped=0 18 6." }].map Plan.validated
    let now : Timestamp := ⟨1704585600, 0, 0⟩
    (∀ p ∈ plans, p.Parsed) ∧ ∃ t, (ofPlans plans).lastTransition ⟨"shop/api"⟩ now = some t ∧
      (ofPlans plans).IsLatest ⟨"shop/api"⟩ now t ∧ t.state = .stopped ∧ t.instant = ⟨1704564000, 0, 0⟩ := by
  intro plans now
  have hplans : ∀ p ∈ plans, p.Parsed := Plan.forall_parsed_validated _
  have hfound : (ofPlans plans).lastTransition ⟨"shop/api"⟩ now =
      some { service := ⟨"shop/api"⟩, state := .stopped, count := 0, instant := ⟨1704564000, 0, 0⟩ } := by
    decide +kernel
  exact ⟨hplans, _, hfound, (lastTransition_of_parsed hplans _ now).2 _ hfound, rfl, rfl⟩

/-! ### Quiet times -/

/-- No transition of the service comes after `now` and up to `later`, on any date. -/
def Quiet (w : Week) (s : Service) (now later : Timestamp) : Prop :=
  ∀ o ∈ w.occurrencesOf s, ∀ day, weekdayOfDay day = o.weekday →
    (o.onDate day now.offset).noLater later = true → (o.onDate day now.offset).noLater now = true

private theorem IsLatest.exists_onDate {w : Week} {s : Service} {now : Timestamp} {t : Transition}
    (h : w.IsLatest s now t) :
    ∃ o ∈ w.occurrencesOf s, ∃ day, weekdayOfDay day = o.weekday ∧ t.instant = o.onDate day now.offset := by
  obtain ⟨o, ho, hday, hsecond, hnano⟩ := h.scheduled
  refine ⟨o, ho, t.instant.localDay, hday, ?_⟩
  have hoffset := h.offset
  revert hsecond hnano hoffset
  rcases t.instant with ⟨second, nano, offset⟩
  rintro hsecond rfl rfl
  simp only [Occurrence.onDate, Timestamp.ofLocal, Timestamp.mk.injEq, Timestamp.localDay, Timestamp.localSecond,
    Timestamp.secondOfDay, Switch.minuteOfDay, secondsPerDay, and_true] at hsecond ⊢
  omega

/-- In a quiet time the latest transition stays the same. -/
theorem IsLatest.eq_of_quiet {w : Week} {s : Service} {now later : Timestamp} {t u : Transition}
    (ht : w.IsLatest s now t) (hu : w.IsLatest s later u) (hoffset : later.offset = now.offset)
    (hle : now.noLater later = true) (hquiet : w.Quiet s now later) : u = t := by
  obtain ⟨a, ha, dayA, hdayA, hta⟩ := ht.exists_onDate
  obtain ⟨b, hb, dayB, hdayB, hub⟩ := hu.exists_onDate
  have htu : t.instant.noLater u.instant = true := by
    rw [hta, ← hoffset]
    refine hu.latest a ha dayA hdayA ?_
    have hcome := ht.noLater
    rw [hta, ← hoffset] at hcome
    rw [Timestamp.noLater_iff] at *
    omega
  have hut : u.instant.noLater t.instant = true := by
    rw [hub, hoffset]
    refine ht.latest b hb dayB hdayB (hquiet b hb dayB hdayB ?_)
    have hcome := hu.noLater
    rw [hub, hoffset] at hcome
    exact hcome
  -- Neither comes after the other, and both are at the start of a minute.
  have hinstant : u.instant = t.instant := by
    rw [hta, hub, hoffset, Timestamp.noLater_iff] at htu hut
    rw [hta, hub, hoffset]
    simp only [Occurrence.onDate, Timestamp.ofLocal, Timestamp.mk.injEq, secondsPerDay, and_true] at htu hut ⊢
    omega
  obtain ⟨x, hx, hstate, hcount⟩ := ht.last
  obtain ⟨y, hy, hstate', hcount'⟩ := hu.last
  rw [hinstant, hx] at hy
  cases hy
  have hservice := hu.service.trans ht.service.symm
  cases t
  cases u
  simp only at *
  simp only [Transition.mk.injEq]
  exact ⟨hservice, hstate'.trans hstate.symm, hcount'.trans hcount.symm, hinstant⟩

theorem lastTransition_eq_of_quiet {w : Week} (hs : w.Sound) (ht : w.Timely) {s : Service} {now later : Timestamp}
    (hoffset : later.offset = now.offset) (hle : now.noLater later = true) (hquiet : w.Quiet s now later) :
    w.lastTransition s later = w.lastTransition s now := by
  cases hnow : w.lastTransition s now with
  | none =>
    rw [lastTransition_eq_none_iff] at hnow ⊢
    exact hnow
  | some t =>
    cases hlater : w.lastTransition s later with
    | none =>
      rw [lastTransition_eq_none_iff, ← lastTransition_eq_none_iff w s now, hnow] at hlater
      cases hlater
    | some u =>
      have hu := isLatest_of_lastTransition hs ht hlater
      rw [(isLatest_of_lastTransition hs ht hnow).eq_of_quiet hu hoffset hle hquiet]

end Week

end ServiceHours
