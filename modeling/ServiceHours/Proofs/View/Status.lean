import ServiceHours.Proofs.Schedule.Revalidation
import ServiceHours.Proofs.Week.Today
import ServiceHours.View.Status

/-!
# Count and hint

What a row of the status view says of a plan: the count that its schedule asks for by now, and a hint where the number
of tasks is off.

* A plan with a schedule text that can be read is validated to the changes of the text (`Plan.reads_of_read`): such a
  text is no reference (`Schedule.isReference_of_read`), and a blank one has no changes (`Schedule.read_of_blank`).
* `Change.IsCurrent` says which change is in effect at a minute, with the clauses in the order of the text: it is one of
  the latest that have come, and of those at its minute the last (`Change.isCurrent_iff`). Validation keeps the order of
  the text among changes at one minute, so the plan's count is that of the change in effect (`Plan.countAt_of_read`).
* The hint is told from the state and the two counts (`StatusRow.hint_ofPlan`).
-/

namespace ServiceHours

/-! ### Texts that can be read -/

section Reference

variable {cs key value : List Char}

/-- A clause and its key begin in the same way. -/
private theorem head_of_parts {c : Char} (h : Clause.Parts (c :: cs) key value) (hblank : Text.isBlank c = false)
    (hc : c ≠ '=') : key.head? = some c := by
  obtain ⟨left, right, hclause, -, -, hkey, -⟩ := h
  rw [← hkey.trim_eq]
  cases left with
  | nil => exact absurd (List.cons.inj hclause).1 hc
  | cons d left =>
    obtain ⟨rfl, -⟩ := List.cons.inj hclause
    rw [Text.head?_trim, Text.trimStart_cons_of_not_blank hblank, List.head?_cons]

/-- No clause begins with the sign of a reference. -/
private theorem Clause.not_says_of_sign (cs : List Char) (x : Clause) : ¬Clause.Says ('@' :: cs) x := by
  have hblank : Text.isBlank '@' = false := by decide
  have hequals : '@' ≠ '=' := by decide
  rintro (⟨hparts, -⟩ | ⟨hparts, -, -⟩)
  · rename_i state value recurrence
    have hhead := head_of_parts hparts hblank hequals
    cases state <;> exact absurd hhead (by decide)
  · exact absurd (head_of_parts hparts hblank hequals) (by decide)

/-- The first clause of a reference begins with the sign. -/
private theorem exists_clauses_of_sign (h : (Text.trimStart cs).head? = some '@') :
    ∃ clause rest, Schedule.clauses cs = ('@' :: clause) :: rest := by
  have hblank : Text.isBlank '@' = false := by decide
  rw [← Text.head?_trim, List.head?_eq_some_iff] at h
  obtain ⟨text, htrim⟩ := h
  obtain ⟨piece, rest, hsplit⟩ : ∃ piece rest, Text.split (· == '.') ('@' :: text) = ('@' :: piece) :: rest := by
    unfold Text.split
    cases hrest : Text.split (· == '.') text with
    | nil => exact absurd hrest (Text.split_ne_nil _ _)
    | cons piece rest => exact ⟨piece, rest, rfl⟩
  have hpiece : Text.trim ('@' :: piece) = '@' :: Text.trimEnd piece := by
    rw [Text.trim, Text.trimStart_cons_of_not_blank hblank, Text.trimEnd_cons_of_not_blank hblank]
  rw [Schedule.clauses, htrim, hsplit, List.map_cons, hpiece]
  exact ⟨_, _, rfl⟩

end Reference

namespace Schedule

variable {text : String} {reading : Reading}

theorem isReference_of_read (h : read text = .ok reading) : Reference.isReference text = false := by
  rw [Bool.eq_false_iff]
  intro hreference
  obtain ⟨clause, rest, hclauses⟩ := exists_clauses_of_sign (beq_iff_eq.mp hreference)
  obtain ⟨said, hsaid, -⟩ := read_eq_ok_iff.mp h
  rw [hclauses] at hsaid
  cases hsaid with
  | cons hfirst _ => exact Clause.not_says_of_sign _ _ hfirst

theorem read_of_blank (h : Text.allBlank text = true) : read text = .ok {} := by
  have htrim : Text.trimStart text.toList = [] := List.dropWhile_eq_nil_iff.mpr (List.all_eq_true.mp h)
  unfold read scan clauses
  rw [Text.trim, htrim]
  rfl

end Schedule

/-- A plan whose schedule text can be read, and that lists no changes in the place of a blank one. -/
theorem Plan.reads_of_read {p : Plan} {reading : Reading} (hread : Schedule.read p.scheduleText = .ok reading)
    (hlisted : Text.allBlank p.scheduleText = true → p.changes = []) : p.Reads reading.warnings reading.changes := by
  by_cases hblank : Text.allBlank p.scheduleText = true
  · have hempty : reading = {} := Except.ok.inj (hread.symm.trans (Schedule.read_of_blank hblank))
    rw [hempty]
    refine .listed hblank ?_
    rw [hlisted hblank]
    exact .nil
  · rw [Bool.not_eq_true] at hblank
    exact .text (isUnresolved_of_plain (Schedule.isReference_of_read hread)) hblank hread

/-! ### The change in effect -/

namespace Change

variable {changes : List Change} {weekday minute : Nat} {c : Change}

/-- The change comes on the day of the week, and no later than at the minute. -/
def HasCome (c : Change) (weekday minute : Nat) : Prop :=
  weekday ∈ c.recurrence.days ∧ c.minuteOfDay ≤ minute

/-- Of the changes that have come this one is in effect: those in front of it came no later, and those behind it came
earlier. -/
def IsCurrent (changes : List Change) (weekday minute : Nat) (c : Change) : Prop :=
  ∃ before after, changes = before ++ c :: after ∧ c.HasCome weekday minute ∧
    (∀ x ∈ before, x.HasCome weekday minute → x.minuteOfDay ≤ c.minuteOfDay) ∧
    ∀ x ∈ after, x.HasCome weekday minute → x.minuteOfDay < c.minuteOfDay

/-- The change in effect is one of the latest that have come, and the last in the list of those at its minute. -/
theorem isCurrent_iff : IsCurrent changes weekday minute c ↔
    c.minuteOfDay ≤ minute ∧ (∀ x ∈ changes, x.HasCome weekday minute → x.minuteOfDay ≤ c.minuteOfDay) ∧
      (changes.filter fun x => x.recurrence.comesOn weekday && x.minuteOfDay = c.minuteOfDay).getLast? = some c := by
  have hat (x : Change) : (x.recurrence.comesOn weekday && x.minuteOfDay = c.minuteOfDay) = true ↔
      weekday ∈ x.recurrence.days ∧ x.minuteOfDay = c.minuteOfDay := by
    rw [Bool.and_eq_true, Recurrence.comesOn, List.contains_iff_mem, decide_eq_true_eq]
  constructor
  · rintro ⟨before, after, rfl, ⟨hday, hle⟩, hbefore, hafter⟩
    refine ⟨hle, fun x hx hcome => ?_, ?_⟩
    · rcases List.mem_append.mp hx with hx | hx
      · exact hbefore x hx hcome
      · rcases List.mem_cons.mp hx with rfl | hx
        · exact Nat.le_refl _
        · exact Nat.le_of_lt (hafter x hx hcome)
    · have hnone : (after.filter fun x => x.recurrence.comesOn weekday && x.minuteOfDay = c.minuteOfDay) = [] := by
        rw [List.filter_eq_nil_iff]
        intro x hx hsame
        obtain ⟨hxday, hxat⟩ := (hat x).mp hsame
        have hlt := hafter x hx ⟨hxday, by omega⟩
        omega
      rw [List.filter_append, List.filter_cons, if_pos ((hat c).mpr ⟨hday, rfl⟩), hnone, List.getLast?_concat]
  · rintro ⟨hle, hmax, hlast⟩
    obtain ⟨front, hfront⟩ := List.getLast?_eq_some_iff.mp hlast
    obtain ⟨before, rest, rfl, -, hrest⟩ := List.filter_eq_append_iff.mp hfront
    obtain ⟨skipped, after, rfl, -, hc, hafter⟩ := List.filter_eq_cons_iff.mp hrest
    have hday := ((hat c).mp hc).1
    refine ⟨before ++ skipped, after, by rw [List.append_assoc], ⟨hday, hle⟩, fun x hx => hmax x ?_,
      fun x hx hcome => ?_⟩
    · rw [← List.append_assoc]
      exact List.mem_append_left _ hx
    · have hxle := hmax x (by simp [hx]) hcome
      have hne : x.minuteOfDay ≠ c.minuteOfDay := fun he =>
        List.filter_eq_nil_iff.mp hafter x hx ((hat x).mpr ⟨hcome.1, he⟩)
      omega

private theorem IsCurrent.mem (h : IsCurrent changes weekday minute c) : c ∈ changes ∧ c.HasCome weekday minute := by
  obtain ⟨before, after, rfl, hcome, -⟩ := h
  exact ⟨List.mem_append_right before List.mem_cons_self, hcome⟩

private theorem IsCurrent.unique {d : Change} (hc : IsCurrent changes weekday minute c)
    (hd : IsCurrent changes weekday minute d) : c = d := by
  obtain ⟨hcmem, hccome⟩ := hc.mem
  obtain ⟨hdmem, hdcome⟩ := hd.mem
  obtain ⟨-, hcmax, hclast⟩ := isCurrent_iff.mp hc
  obtain ⟨-, hdmax, hdlast⟩ := isCurrent_iff.mp hd
  have hat : c.minuteOfDay = d.minuteOfDay := Nat.le_antisymm (hdmax c hcmem hccome) (hcmax d hdmem hdcome)
  rw [hat] at hclast
  exact Option.some.inj (hclast.symm.trans hdlast)

private theorem ByTime.mem_iff {sorted : List Change} (h : ByTime changes sorted) : c ∈ sorted ↔ c ∈ changes := by
  have hat : c ∈ sorted.filter (·.minuteOfDay = c.minuteOfDay) ↔
      c ∈ changes.filter (·.minuteOfDay = c.minuteOfDay) := by
    rw [h.stable]
  simpa using hat

end Change

namespace Plan

variable {p : Plan} {reading : Reading}

/-- The plan's count comes from the change in effect; without one it is 0. -/
private theorem countAt_cases_of_byTime {changes : List Change} (h : Change.ByTime changes p.changes)
    (now : Timestamp) :
    (∃ c, Change.IsCurrent changes now.weekday now.minuteOfDay c ∧ p.countAt now = c.count) ∨
      (∀ c ∈ changes, ¬c.HasCome now.weekday now.minuteOfDay) ∧ p.countAt now = 0 := by
  rcases countAt_cases h.ordered now with ⟨c, hle, hlast, hcount, hmax⟩ | ⟨hnone, hcount⟩
  · refine Or.inl ⟨c, Change.isCurrent_iff.mpr ⟨hle, fun x hx hcome => ?_, ?_⟩, hcount⟩
    · exact hmax x (h.mem_iff.mpr hx) hcome.1 hcome.2
    · -- At one minute the plan has the changes in the order of the text.
      rw [changesAt, ← List.filter_filter, h.stable, List.filter_filter] at hlast
      exact hlast
  · refine Or.inr ⟨fun c hc hcome => ?_, hcount⟩
    have := hnone c (h.mem_iff.mpr hc) hcome.1
    have := hcome.2
    omega

/-- A plan whose schedule text can be read asks at any time for the count of the change in effect, by the clauses in the
order of the text, and for none if no change has come on the day. A change is in effect as soon as one has come. Of the
time only the day of the week and the minute of the day count. -/
theorem countAt_of_read (hread : Schedule.read p.scheduleText = .ok reading)
    (hlisted : Text.allBlank p.scheduleText = true → p.changes = []) (now : Timestamp) :
    p.validate.1 = .ok reading.warnings ∧
      (∀ c, Change.IsCurrent reading.changes now.weekday now.minuteOfDay c → p.validated.countAt now = c.count) ∧
      ((∀ c ∈ reading.changes, ¬c.HasCome now.weekday now.minuteOfDay) → p.validated.countAt now = 0) ∧
      ((∃ c, Change.IsCurrent reading.changes now.weekday now.minuteOfDay c) ↔
        ∃ c ∈ reading.changes, c.HasCome now.weekday now.minuteOfDay) ∧
      ∀ other : Timestamp, other.weekday = now.weekday → other.minuteOfDay = now.minuteOfDay →
        p.validated.countAt other = p.validated.countAt now := by
  have hvalidate := (reads_of_read hread hlisted).validate_eq
  have hchanges : p.validated.changes = Change.sortByTime reading.changes := by
    rw [validated, hvalidate]
  have hbyTime : Change.ByTime reading.changes p.validated.changes := by
    rw [hchanges]
    exact Change.byTime_sortByTime reading.changes
  refine ⟨congrArg (·.1) hvalidate, fun c hc => ?_, fun hnone => ?_, ⟨?_, ?_⟩, fun other hday hminute => ?_⟩
  · rcases countAt_cases_of_byTime hbyTime now with ⟨d, hd, hcount⟩ | ⟨hnone, -⟩
    · rw [hcount, hc.unique hd]
    · exact absurd hc.mem.2 (hnone c hc.mem.1)
  · rcases countAt_cases_of_byTime hbyTime now with ⟨d, hd, -⟩ | ⟨-, hcount⟩
    · exact absurd hd.mem.2 (hnone d hd.mem.1)
    · exact hcount
  · rintro ⟨c, hc⟩
    exact ⟨c, hc.mem⟩
  · rintro ⟨c, hmem, hcome⟩
    rcases countAt_cases_of_byTime hbyTime now with ⟨d, hd, -⟩ | ⟨hnone, -⟩
    · exact ⟨d, hd⟩
    · exact absurd hcome (hnone c hmem)
  · unfold countAt
    rw [hday, hminute]

/-- On a Wednesday morning the later clause of two at eight counts, and none of those at half past nine, wherever they
are written; so it does a week later at another offset. -/
theorem countAt_of_read_wednesday :
    let p : Plan := { service := ⟨"shop/api"⟩, configured :=
      "stopped=30 9 1-5. running=0 8 1-3. count=2. running=30 9 3. count=4. running=0 8 3-5. count=3." }
    let now : Timestamp := ⟨1704262507, 500000000, 7200⟩
    let c : Change := { state := .running, count := 3, cron := "0 8 3-5", recurrence := ⟨0, 8, [3, 4, 5]⟩ }
    (∃ reading, Schedule.read p.scheduleText = .ok reading ∧
      Change.IsCurrent reading.changes now.weekday now.minuteOfDay c) ∧
    p.validated.countAt now = 3 ∧ p.validated.countAt ⟨1704874500, 0, 0⟩ = 3 := by
  intro p now c
  let before : List Change :=
    [{ state := .stopped, cron := "30 9 1-5", recurrence := ⟨30, 9, [1, 2, 3, 4, 5]⟩ },
      { state := .running, count := 2, cron := "0 8 1-3", recurrence := ⟨0, 8, [1, 2, 3]⟩ },
      { state := .running, count := 4, cron := "30 9 3", recurrence := ⟨30, 9, [3]⟩ }]
  have hread : Schedule.read p.scheduleText = .ok { changes := before ++ [c], warnings := [] } := by
    decide +kernel
  have hblank : Text.allBlank p.scheduleText = true → p.changes = [] := fun _ => rfl
  have hcurrent : Change.IsCurrent (before ++ [c]) now.weekday now.minuteOfDay c := by
    refine ⟨before, [], rfl, ⟨by decide +kernel, by decide +kernel⟩, ?_, nofun⟩
    unfold Change.HasCome
    decide +kernel
  obtain ⟨-, hcount, -, -, hsame⟩ := countAt_of_read hread hblank now
  have hthree : p.validated.countAt now = 3 := hcount c hcurrent
  exact ⟨⟨_, hread, hcurrent⟩, hthree, (hsame _ (by decide +kernel) (by decide +kernel)).trans hthree⟩

end Plan

/-! ### The hint -/

/-- What a hint can be. -/
private theorem ScaleHint.ofCounts?_cases (state : ObservedState) (running desired : Nat) :
    (state ≠ .running ∧ ofCounts? state running desired = none) ∨
    (state = .running ∧ running < desired ∧ ofCounts? state running desired = some (.upscale desired)) ∨
    (state = .running ∧ (desired + 1 < running ∨ running = desired + 1 ∧ 0 < desired) ∧
      ofCounts? state running desired = some (.downscale 1)) ∨
    (state = .running ∧ (running = desired ∨ running = desired + 1 ∧ desired = 0) ∧
      ofCounts? state running desired = none) := by
  cases state with
  | stopped => exact Or.inl ⟨nofun, rfl⟩
  | unknown => exact Or.inl ⟨nofun, rfl⟩
  | running =>
    have hrunning : ofCounts? .running running desired =
        if running < desired then some (.upscale desired)
        else if 1 < running && desired < running then some (.downscale 1) else none := rfl
    rw [hrunning]
    right
    by_cases hbelow : running < desired
    · exact Or.inl ⟨rfl, hbelow, if_pos hbelow⟩
    · right
      rw [if_neg hbelow]
      by_cases habove : 1 < running ∧ desired < running
      · exact Or.inl ⟨rfl, by omega, if_pos (by simpa using habove)⟩
      · exact Or.inr ⟨rfl, by omega, if_neg (by simpa using habove)⟩

namespace StatusRow

/-- Only a running service gets a hint. With fewer tasks than its plan asks for now it is to be scaled up to that
count. It is to be scaled down to one task with two tasks or more beyond the count, but also with one beyond it if the
count is not 0. -/
theorem hint_ofPlan (p : Plan) (status : Status) (now : Timestamp) :
    let desired := p.countAt now
    let running := status.runningCount
    let hint := (ofPlan p status now).hint
    (status.state ≠ .running → hint = none) ∧
      (status.state = .running →
        (∀ n, hint = some (.upscale n) ↔ running < desired ∧ n = desired) ∧
        (∀ n, hint = some (.downscale n) ↔ (desired + 1 < running ∨ running = desired + 1 ∧ 0 < desired) ∧ n = 1) ∧
        (hint = none ↔ running = desired ∨ running = desired + 1 ∧ desired = 0)) := by
  intro desired running hint
  have hshown : shownState status.state = .running ↔ status.state = .running := by
    cases status.state <;> decide
  have hhint : hint = ScaleHint.ofCounts? (shownState status.state) running desired := rfl
  have hcases := ScaleHint.ofCounts?_cases (shownState status.state) running desired
  rw [ne_eq, hshown, ← hhint] at hcases
  clear_value hint running desired
  constructor
  · intro hstate
    rcases hcases with ⟨-, hnone⟩ | ⟨hrunning, -⟩ | ⟨hrunning, -⟩ | ⟨hrunning, -⟩
    · exact hnone
    · exact absurd hrunning hstate
    · exact absurd hrunning hstate
    · exact absurd hrunning hstate
  · intro hstate
    rcases hcases with ⟨hother, -⟩ | ⟨-, hbelow, rfl⟩ | ⟨-, habove, rfl⟩ | ⟨-, hmet, rfl⟩
    · exact absurd hstate hother
    · refine ⟨fun n => ?_, fun n => iff_of_false nofun (by omega), iff_of_false nofun (by omega)⟩
      rw [Option.some.injEq, ScaleHint.upscale.injEq]
      omega
    · refine ⟨fun n => iff_of_false nofun (by omega), fun n => ?_, iff_of_false nofun (by omega)⟩
      rw [Option.some.injEq, ScaleHint.downscale.injEq]
      omega
    · exact ⟨fun n => iff_of_false nofun (by omega), fun n => iff_of_false nofun (by omega), iff_of_true rfl hmet⟩

/-- At eight in the morning one task is asked for: with three running the hint is to scale down, and at seven as well,
when none is asked for. -/
theorem hint_ofPlan_surplus :
    let p := Plan.validated { service := ⟨"shop/api"⟩, configured := "running=0 8 1-5. count=1." }
    let status : Status := ⟨.running, 3, 1⟩
    p.countAt ⟨1704096000, 0, 0⟩ = 1 ∧ p.countAt ⟨1704092400, 0, 0⟩ = 0 ∧
      (ofPlan p status ⟨1704096000, 0, 0⟩).hint = some (.downscale 1) ∧
      (ofPlan p status ⟨1704092400, 0, 0⟩).hint = some (.downscale 1) ∧
      (ofPlan p { status with state := .unknown } ⟨1704096000, 0, 0⟩).hint = none := by
  intro p status
  have height : p.countAt ⟨1704096000, 0, 0⟩ = 1 := by decide +kernel
  have hseven : p.countAt ⟨1704092400, 0, 0⟩ = 0 := by decide +kernel
  obtain ⟨-, hscaled⟩ := hint_ofPlan p status ⟨1704096000, 0, 0⟩
  obtain ⟨-, hearly⟩ := hint_ofPlan p status ⟨1704092400, 0, 0⟩
  obtain ⟨hhidden, -⟩ := hint_ofPlan p { status with state := .unknown } ⟨1704096000, 0, 0⟩
  refine ⟨height, hseven, ((hscaled rfl).2.1 1).mpr ⟨?_, rfl⟩, ((hearly rfl).2.1 1).mpr ⟨?_, rfl⟩, hhidden nofun⟩
  · rw [height]
    exact Or.inl (by decide)
  · rw [hseven]
    exact Or.inl (by decide)

/-- With one task beyond the count there is not always no hint. -/
theorem hint_ofPlan_one_beyond :
    ¬∀ (p : Plan) (status : Status) (now : Timestamp), (∃ warnings, p.validate.1 = .ok warnings) →
      let q := p.validated
      let desired := q.countAt now
      let hint := (ofPlan q status now).hint
      (status.state ≠ .running → hint = none) ∧
        (status.state = .running →
          (hint = some (.upscale desired) ↔ status.runningCount < desired) ∧
          (hint = some (.downscale 1) ↔ desired + 1 < status.runningCount) ∧
          (status.runningCount = desired ∨ status.runningCount = desired + 1 → hint = none)) := by
  intro hhints
  let p : Plan := { service := ⟨"shop/api"⟩, configured := "running=0 8 1-5. count=1." }
  have hread : p.validate.1 = .ok [] := by decide +kernel
  have hcount : p.validated.countAt ⟨1704099600, 0, 0⟩ = 1 := by decide +kernel
  have hhint : (ofPlan p.validated ⟨.running, 2, 1⟩ ⟨1704099600, 0, 0⟩).hint = some (.downscale 1) := by decide +kernel
  obtain ⟨-, hrunning⟩ := hhints p ⟨.running, 2, 1⟩ ⟨1704099600, 0, 0⟩ ⟨_, hread⟩
  obtain ⟨-, -, hnone⟩ := hrunning rfl
  have hsilent := hnone (Or.inr (by rw [hcount]))
  rw [hhint] at hsilent
  cases hsilent

end StatusRow

end ServiceHours
