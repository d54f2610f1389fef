import ServiceHours.Proofs.Week.Latest

/-!
# Running time of a week

Two ways to see how long a service runs in a week, and why they agree.

* `Week.runningMinutes` adds up intervals, from the first transition of the week until it comes around again.
* Asking minute by minute for the last transition counts the minutes at which it is to running
  (`Week.runningMinutes_eq_countP`).

Between two transitions that follow each other the answer does not change (`runsAt_of_lt`), which gives the intervals
up to the end of the week (`runningTime_eq_countP`). The minutes before the first transition of the week belong to the
last one, just as the end of the last interval lies in the next week (`runningTime_add`).
-/

namespace ServiceHours

section Intervals

variable {current : Nat × DesiredState} {later xs : List (Nat × DesiredState)}

/-- Whether the service runs at a minute of the week: by the last transition up to it, or by the last of all. -/
def runsAt (xs : List (Nat × DesiredState)) (minute : Nat) : Bool :=
  ((xs.filter (·.1 ≤ minute)).getLast?.or xs.getLast?).any (·.2.isRunning)

private theorem countP_range'_of_const {p : Nat → Bool} {b : Bool} {start n : Nat}
    (h : ∀ m, start ≤ m → m < start + n → p m = b) : (List.range' start n).countP p = if b then n else 0 := by
  have hall : ∀ m ∈ List.range' start n, p m = b := fun m hm => by
    rw [List.mem_range'_1] at hm
    exact h m hm.1 hm.2
  cases b with
  | true =>
    rw [List.countP_eq_length.mpr hall, List.length_range']
    rfl
  | false =>
    refine List.countP_eq_zero.mpr fun m hm => ?_
    rw [hall m hm]
    decide

/-- From a transition up to the next one the service is in its state. -/
private theorem runsAt_of_lt {minute : Nat} (hle : current.1 ≤ minute) (hlater : ∀ x ∈ later, minute < x.1) :
    runsAt (current :: later) minute = current.2.isRunning := by
  have hnil : later.filter (·.1 ≤ minute) = [] := by
    rw [List.filter_eq_nil_iff]
    intro x hx
    have := hlater x hx
    simp
    omega
  simp [runsAt, hle, hnil]

/-- Once the next transition has come the one before does not matter. -/
private theorem runsAt_cons {minute : Nat} (hcome : ∃ x ∈ later, x.1 ≤ minute) :
    runsAt (current :: later) minute = runsAt later minute := by
  obtain ⟨x, hx, hle⟩ := hcome
  have hmem : x ∈ later.filter (·.1 ≤ minute) := by simp [hx, hle]
  have hlast : (later.filter (·.1 ≤ minute)).getLast?.isSome := by
    rw [Option.isSome_iff_ne_none, ne_eq, List.getLast?_eq_none_iff]
    exact List.ne_nil_of_mem hmem
  have hcons : ((current :: later).filter (·.1 ≤ minute)).getLast? = (later.filter (·.1 ≤ minute)).getLast? := by
    rw [List.filter_cons]
    split
    · rw [← List.singleton_append, List.getLast?_append, Option.or_of_isSome hlast]
    · rfl
  rw [runsAt, runsAt, hcons, Option.or_of_isSome hlast, Option.or_of_isSome hlast]

/-- The intervals from a transition up to an end that no transition passes. -/
private theorem runningTime_eq_countP (h : (current :: later).Pairwise fun a b => a.1 ≤ b.1) {final : Nat}
    (hfinal : ∀ x ∈ current :: later, x.1 ≤ final) (state : DesiredState) :
    runningTime current (later ++ [(final, state)]) =
      (List.range' current.1 (final - current.1)).countP (runsAt (current :: later)) := by
  induction later generalizing current with
  | nil =>
    have hle : current.1 ≤ final := hfinal current (List.mem_cons_self ..)
    rw [countP_range'_of_const fun m hm _ => runsAt_of_lt hm (by simp)]
    simp only [List.nil_append, runningTime]
    split <;> omega
  | cons next later ih =>
    obtain ⟨hcurrent, hnext⟩ := List.pairwise_cons.mp h
    have hle : current.1 ≤ next.1 := hcurrent next (List.mem_cons_self ..)
    have hend : next.1 ≤ final := hfinal next (by simp)
    -- Up to `next` the state is that of `current`; from there on `current` does not matter.
    have hsplit : List.range' current.1 (final - current.1) =
        List.range' current.1 (next.1 - current.1) ++ List.range' next.1 (final - next.1) := by
      rw [show List.range' next.1 (final - next.1) =
        List.range' (current.1 + (next.1 - current.1)) (final - next.1) by congr 1; omega, List.range'_append_1]
      congr 1
      omega
    have hfirst : (List.range' current.1 (next.1 - current.1)).countP (runsAt (current :: next :: later)) =
        if current.2.isRunning then next.1 - current.1 else 0 := by
      refine countP_range'_of_const fun m hm hlt => runsAt_of_lt hm fun x hx => ?_
      have : next.1 ≤ x.1 := by
        rcases List.mem_cons.mp hx with rfl | hx
        · exact Nat.le_refl _
        · exact (List.pairwise_cons.mp hnext).1 x hx
      omega
    have hrest : (List.range' next.1 (final - next.1)).countP (runsAt (current :: next :: later)) =
        (List.range' next.1 (final - next.1)).countP (runsAt (next :: later)) := by
      refine List.countP_congr fun m hm => ?_
      rw [List.mem_range'_1] at hm
      rw [runsAt_cons ⟨next, List.mem_cons_self .., hm.1⟩]
    have hih := ih hnext fun x hx => hfinal x (List.mem_cons_of_mem _ hx)
    rw [List.cons_append, runningTime, hih, hsplit, List.countP_append, hfirst, hrest]
    split <;> omega

/-- A later end counts for the last transition. -/
private theorem runningTime_add (current : Nat × DesiredState) (later : List (Nat × DesiredState)) (final extra : Nat)
    (state : DesiredState) :
    runningTime current (later ++ [(final + extra, state)]) = runningTime current (later ++ [(final, state)]) +
      if (current :: later).getLast?.any (·.2.isRunning) then (extra : Int) else 0 := by
  induction later generalizing current with
  | nil =>
    simp only [List.nil_append, runningTime, List.getLast?_singleton, Option.any_some]
    by_cases hrun : current.2.isRunning
    · simp only [hrun, ↓reduceIte]
      omega
    · simp only [hrun, Bool.false_eq_true, ↓reduceIte]
      omega
  | cons next later ih =>
    rw [List.cons_append, List.cons_append, runningTime, runningTime, ih, List.getLast?_cons_cons]
    omega

/-- Around the whole week: the intervals up to the return of the first transition make up the minutes that run. -/
private theorem runningTime_around (h : (current :: later).Pairwise fun a b => a.1 ≤ b.1) {length : Nat}
    (hlength : ∀ x ∈ current :: later, x.1 ≤ length) :
    runningTime current (later ++ [(current.1 + length, current.2)]) =
      (List.range length).countP (runsAt (current :: later)) := by
  have hle : current.1 ≤ length := hlength current (List.mem_cons_self ..)
  have hsplit : List.range length = List.range' 0 current.1 ++ List.range' current.1 (length - current.1) := by
    rw [List.range_eq_range', show length = current.1 + (length - current.1) by omega, ← List.range'_append_1]
    simp
  -- Before the first transition of the week it is the last one that holds, from the week before.
  have hbefore : (List.range' 0 current.1).countP (runsAt (current :: later)) =
      if (current :: later).getLast?.any (·.2.isRunning) then current.1 else 0 := by
    refine countP_range'_of_const fun m _ hm => ?_
    have hnil : (current :: later).filter (·.1 ≤ m) = [] := by
      rw [List.filter_eq_nil_iff]
      intro x hx
      have : current.1 ≤ x.1 := by
        rcases List.mem_cons.mp hx with rfl | hx
        · exact Nat.le_refl _
        · exact (List.pairwise_cons.mp h).1 x hx
      simp
      omega
    rw [runsAt, hnil, List.getLast?_nil, Option.none_or]
  rw [Nat.add_comm, runningTime_add, runningTime_eq_countP h hlength, hsplit, List.countP_append, hbefore]
  split <;> omega

end Intervals

namespace Week

/-- What is in force at an instant is read off the minutes of the week alone. -/
private theorem any_lastTransition {w : Week} (hs : w.Sound) (ht : w.Timely) (s : Service) (now : Timestamp) :
    (w.lastTransition s now).any (·.state.isRunning) =
      runsAt ((w.occurrencesOf s).map fun o => (o.minuteOfWeek, o.state)) now.minuteOfWeek := by
  have hfilter : ((w.occurrencesOf s).map fun o => (o.minuteOfWeek, o.state)).filter (·.1 ≤ now.minuteOfWeek) =
      ((w.occurrencesOf s).filter (·.minuteOfWeek ≤ now.minuteOfWeek)).map fun o => (o.minuteOfWeek, o.state) := by
    rw [List.filter_map]
    rfl
  rw [runsAt, hfilter, List.getLast?_map, List.getLast?_map]
  rcases lastTransition_cases hs ht s now with ⟨hnil, hnone⟩ | ⟨o, ho, hsome⟩ | ⟨o, hlater, ho, hsome⟩
  · simp [hnil, hnone]
  · simp [ho, hsome, Occurrence.transition]
  · -- Both fall back on the last of all.
    have hnone : (w.occurrencesOf s).filter (·.minuteOfWeek ≤ now.minuteOfWeek) = [] := by
      rw [List.filter_eq_nil_iff]
      intro x hx
      have := hlater x hx
      simp
      omega
    simp [ho, hsome, hnone, Occurrence.transition]

/-- Minutes after midnight of a Sunday are minutes of the week. -/
private theorem minuteOfWeek_plus {sunday : Timestamp} (hday : sunday.weekday = 0) (hsecond : sunday.secondOfDay = 0)
    (hnano : sunday.nano = 0) {m : Nat} (hm : m < minutesPerWeek) : (sunday.plus (60 * m)).minuteOfWeek = m := by
  have hlt : sunday.nano < nanosPerSecond := by
    rw [hnano]
    decide
  rw [Timestamp.plus_of_nano_lt hlt]
  simp only [Timestamp.minuteOfWeek, Timestamp.weekday, weekdayOfDay, Timestamp.minuteOfDay, Timestamp.secondOfDay,
    Timestamp.localDay, Timestamp.localSecond, secondsPerDay, minutesPerDay, minutesPerWeek] at *
  omega

private theorem runningMinutes_eq_runsAt {w : Week} (hs : w.Sound) (ht : w.Timely) {s : Service}
    (hne : w.occurrencesOf s ≠ []) :
    w.runningMinutes s =
      (List.range minutesPerWeek).countP (runsAt ((w.occurrencesOf s).map fun o => (o.minuteOfWeek, o.state))) := by
  have hsorted : ((w.occurrencesOf s).map fun o => (o.minuteOfWeek, o.state)).Pairwise fun a b => a.1 ≤ b.1 :=
    List.pairwise_map.mpr (pairwise_occurrencesOf hs ht s)
  have hlength : ∀ x ∈ (w.occurrencesOf s).map fun o => (o.minuteOfWeek, o.state), x.1 ≤ minutesPerWeek := by
    intro x hx
    obtain ⟨o, ho, rfl⟩ := List.mem_map.mp hx
    have hmem := (mem_occurrencesOf.mp ho).1
    have := minuteOfWeek_lt hs ht hmem
    exact Nat.le_of_lt this
  unfold runningMinutes
  split
  · rename_i hnil
    exact absurd (List.map_eq_nil_iff.mp hnil) hne
  · rename_i first later heq
    rw [heq] at hsorted hlength ⊢
    exact runningTime_around hsorted hlength

/-- The minutes that the intervals add up to are the minutes of a week at which the last transition is to running, from
any local Sunday midnight on; so they never leave the range of a week. -/
theorem runningMinutes_eq_countP {plans : List Plan} (h : ∀ p ∈ plans, p.Parsed) {s : Service}
    (hne : (ofPlans plans).occurrencesOf s ≠ []) {sunday : Timestamp} (hday : sunday.weekday = 0)
    (hsecond : sunday.secondOfDay = 0) (hnano : sunday.nano = 0) :
    (ofPlans plans).runningMinutes s = ((List.range 10080).countP fun m : Nat =>
        ((ofPlans plans).lastTransition s (sunday.plus (60 * m))).any (·.state.isRunning) : Nat) ∧
      0 ≤ (ofPlans plans).runningMinutes s ∧ (ofPlans plans).runningMinutes s ≤ 10080 := by
  have hs := sound_ofPlans plans
  have ht := timely_ofPlans h
  have hweek : minutesPerWeek = 10080 := rfl
  have hcount : ((List.range 10080).countP fun m : Nat =>
      ((ofPlans plans).lastTransition s (sunday.plus (60 * m))).any (·.state.isRunning)) =
      (List.range 10080).countP
        (runsAt (((ofPlans plans).occurrencesOf s).map fun o => (o.minuteOfWeek, o.state))) := by
    refine List.countP_congr fun m hm => ?_
    rw [← hweek, List.mem_range] at hm
    rw [any_lastTransition hs ht, minuteOfWeek_plus hday hsecond hnano hm]
  have hle (p : Nat → Bool) : (List.range 10080).countP p ≤ 10080 := by
    have := List.countP_le_length (p := p) (l := List.range 10080)
    rwa [List.length_range] at this
  have hrange := hle (runsAt (((ofPlans plans).occurrencesOf s).map fun o => (o.minuteOfWeek, o.state)))
  rw [runningMinutes_eq_runsAt hs ht hne, hweek, hcount]
  omega

/-- A service that runs from Friday evening to Monday morning runs for sixty hours, over the end of the week. -/
theorem runningMinutes_eq_countP_weekend :
    let plans := [{ service := ⟨"shop/api"⟩, configured := "running=0 18 5. stopped=0 6 1." }].map Plan.validated
    let sunday : Timestamp := ⟨1704582000, 0, 3600⟩
    (∀ p ∈ plans, p.Parsed) ∧ (ofPlans plans).occurrencesOf ⟨"shop/api"⟩ ≠ [] ∧ sunday.weekday = 0 ∧
      sunday.secondOfDay = 0 ∧ sunday.nano = 0 ∧ (ofPlans plans).runningMinutes ⟨"shop/api"⟩ = 3600 ∧
      ((List.range 10080).countP fun m : Nat =>
        ((ofPlans plans).lastTransition ⟨"shop/api"⟩ (sunday.plus (60 * m))).any (·.state.isRunning)) = 3600 := by
  intro plans sunday
  have hplans : ∀ p ∈ plans, p.Parsed := Plan.forall_parsed_validated _
  have hne : (ofPlans plans).occurrencesOf ⟨"shop/api"⟩ ≠ [] := by decide +kernel
  have hminutes : (ofPlans plans).runningMinutes ⟨"shop/api"⟩ = 3600 := by decide +kernel
  have hcount := (runningMinutes_eq_countP hplans hne (show sunday.weekday = 0 from rfl) rfl rfl).1
  rw [hminutes] at hcount
  exact ⟨hplans, hne, rfl, rfl, rfl, hminutes, by omega⟩

end Week

end ServiceHours
