import ServiceHours.Proofs.Schedule.Written

/-!
# What a validation leaves

A validation that succeeds, one that fails, and a second one after either.

* Listed changes are read one after the other, so those in front of the first faulty one have been read when it is found
  (`Change.readAll_append`, `Change.readAll_cons_of_error`).
* `Plan.Reads` and `Plan.Fails` list the ways in which a schedule can be read and those in which it cannot, each with
  the changes that it comes to; one of them is the case (`Plan.reads_or_fails`, `Plan.validate_iff`).
* A second validation finds the same once more (`Plan.Reads.again`, `Plan.Fails.again`), so it changes nothing
  (`Plan.validate_validated`).
-/

namespace ServiceHours

/-! ### Listed changes -/

namespace Change

variable {read changes : List Change} {bad c d : Change} {e : ScheduleError}

/-- A change that cannot be read is left as it is, and so are all behind it. -/
theorem readAll_cons_of_error (h : Recurrence.read bad.cron = .error e) (after : List Change) :
    readAll (bad :: after) = (bad :: after, some e) := by
  rw [readAll, h]

private theorem readAs_or_error (c : Change) : (∃ d, ReadAs c d) ∨ ∃ e, Recurrence.read c.cron = .error e := by
  cases hc : Recurrence.read c.cron with
  | ok recurrence => exact Or.inl ⟨{ c with recurrence }, rfl, rfl, rfl, hc⟩
  | error e => exact Or.inr ⟨e, rfl⟩

/-- What was read is read as it is. -/
private theorem ReadAs.again (h : ReadAs c d) : ReadAs d d :=
  ⟨rfl, rfl, rfl, by rw [h.cron, h.read]⟩

private theorem forall₂_readAs_again (h : List.Forall₂ ReadAs changes read) : List.Forall₂ ReadAs read read :=
  List.forall₂_same.mpr fun _ hd => by
    obtain ⟨c, -, hcd⟩ := exists_of_mem_readAs h hd
    exact hcd.again

/-- Reading touches nothing but recurrences. -/
private theorem map_unread_of_readAs (h : List.Forall₂ ReadAs changes read) : read.map unread = changes.map unread := by
  induction h with
  | nil => rfl
  | cons hcd _ ih =>
    rw [List.map_cons, List.map_cons, ih, unread, unread, hcd.state, hcd.count, hcd.cron]

/-- It touches none of them exactly if each is already the one that its text reads as. -/
private theorem eq_of_readAs_iff (h : List.Forall₂ ReadAs changes read) :
    read = changes ↔ ∀ c ∈ changes, Recurrence.read c.cron = .ok c.recurrence := by
  constructor
  · rintro rfl c hc
    exact (List.forall₂_same.mp h c hc).read
  · intro hall
    induction h with
    | nil => rfl
    | @cons c d changes read hcd _ ih =>
      obtain ⟨hc, hchanges⟩ := List.forall_mem_cons.mp hall
      have hrecurrence : d.recurrence = c.recurrence := Except.ok.inj (hcd.read.symm.trans hc)
      rw [ih hchanges, ← hcd.with_recurrence, hrecurrence]

/-- The changes by time of day, those at the same time in the order in which they came. Each change has some time of
day, so none is lost or comes in. -/
structure ByTime (changes sorted : List Change) : Prop where
  ordered : sorted.Pairwise fun c d => c.minuteOfDay ≤ d.minuteOfDay
  stable : ∀ minute, sorted.filter (·.minuteOfDay = minute) = changes.filter (·.minuteOfDay = minute)

theorem byTime_sortByTime (changes : List Change) : ByTime changes (sortByTime changes) :=
  ⟨pairwise_sortByTime changes, filter_sortByTime changes⟩

end Change

/-! ### Ways to succeed and ways to fail -/

namespace Plan

variable {p : Plan} {changes : List Change} {warnings : List Warning} {e : ScheduleError}

/-- The schedule of the plan can be read: as these changes in the order in which it has them, with these warnings. -/
inductive Reads (p : Plan) : List Warning → List Change → Prop
  | text {reading : Reading} (hplain : p.isUnresolved = false) (hblank : Text.allBlank p.scheduleText = false)
    (hread : Schedule.read p.scheduleText = .ok reading) : Reads p reading.warnings reading.changes
  | listed {read : List Change} (hblank : Text.allBlank p.scheduleText = true)
    (hread : List.Forall₂ Change.ReadAs p.changes read) : Reads p [] read

/-- The schedule of the plan cannot be read, for this reason; these are its changes when that is found. -/
inductive Fails (p : Plan) : ScheduleError → List Change → Prop
  | reference (hopen : p.isUnresolved = true) : Fails p (.unresolved p.configured) p.changes
  | text {e : ScheduleError} (hplain : p.isUnresolved = false) (hblank : Text.allBlank p.scheduleText = false)
    (hread : Schedule.read p.scheduleText = .error e) : Fails p e p.changes
  | listed {before after read : List Change} {bad : Change} {e : ScheduleError}
    (hblank : Text.allBlank p.scheduleText = true) (hchanges : p.changes = before ++ bad :: after)
    (hread : List.Forall₂ Change.ReadAs before read) (hbad : Recurrence.read bad.cron = .error e) :
    Fails p e (read ++ bad :: after)

theorem Reads.validate_eq (h : p.Reads warnings changes) :
    p.validate = (.ok warnings, { p with changes := Change.sortByTime changes }) := by
  cases h with
  | text hplain hblank hread =>
    unfold validate readChanges
    rw [hplain, hblank, hread]
    rfl
  | listed hblank hread => exact validate_of_listed hblank rfl hread

private theorem Fails.validate_eq (h : p.Fails e changes) :
    p.validate = (.error e, { p with changes, disabled := true, fault := some e.message }) := by
  cases h with
  | reference hopen =>
    unfold validate readChanges
    rw [hopen]
    rfl
  | text hplain hblank hread =>
    unfold validate readChanges
    rw [hplain, hblank, hread]
    rfl
  | listed hblank hchanges hread hbad =>
    rw [validate_of_blank (isUnresolved_of_blank hblank) hblank, hchanges, Change.readAll_append hread,
      Change.readAll_cons_of_error hbad]

/-- A schedule can be read, or it cannot. -/
theorem reads_or_fails (p : Plan) :
    (∃ warnings changes, p.Reads warnings changes) ∨ ∃ e changes, p.Fails e changes := by
  by_cases hopen : p.isUnresolved = true
  · exact Or.inr ⟨_, _, .reference hopen⟩
  · rw [Bool.not_eq_true] at hopen
    by_cases hblank : Text.allBlank p.scheduleText = true
    · rcases forall₂_or_first Change.readAs_or_error p.changes with
        ⟨read, hread⟩ | ⟨before, bad, after, read, hchanges, hread, e, hbad⟩
      · exact Or.inl ⟨_, _, .listed hblank hread⟩
      · exact Or.inr ⟨_, _, .listed hblank hchanges hread hbad⟩
    · rw [Bool.not_eq_true] at hblank
      cases hread : Schedule.read p.scheduleText with
      | ok reading => exact Or.inl ⟨_, _, .text hopen hblank hread⟩
      | error e => exact Or.inr ⟨_, _, .text hopen hblank hread⟩

theorem validate_iff (p : Plan) : (∀ warnings, p.validate.1 = .ok warnings ↔ ∃ changes, p.Reads warnings changes) ∧
    ∀ e, p.validate.1 = .error e ↔ ∃ changes, p.Fails e changes :=
  ok_iff_and_error_iff (fun _ ⟨_, hreads⟩ => congrArg (·.1) hreads.validate_eq)
    (fun _ ⟨_, hfails⟩ => congrArg (·.1) hfails.validate_eq) (reads_or_fails p)

/-- A plan with the changes in order is read again, as changes that come to the same order. -/
theorem Reads.again (h : p.Reads warnings changes) : ∃ changes',
    Reads { p with changes := Change.sortByTime changes } warnings changes' ∧
      Change.sortByTime changes' = Change.sortByTime changes := by
  cases h with
  | text hplain hblank hread => exact ⟨_, .text hplain hblank hread, rfl⟩
  | listed hblank hread =>
    refine ⟨_, .listed hblank (List.forall₂_same.mpr fun d hd => ?_), Change.sortByTime_sortByTime changes⟩
    have hmem : d ∈ changes := (Change.sortByTime_perm changes).mem_iff.mp hd
    exact List.forall₂_same.mp (Change.forall₂_readAs_again hread) d hmem

/-- A plan with the changes of a failure fails again, and comes to the same changes. -/
theorem Fails.again (h : p.Fails e changes) (fault : Option String) :
    Fails { p with changes, disabled := true, fault } e changes := by
  cases h with
  | reference hopen => exact .reference hopen
  | text hplain hblank hread => exact .text hplain hblank hread
  | listed hblank _ hread hbad => exact .listed hblank rfl (Change.forall₂_readAs_again hread) hbad

/-- A second validation reports the same and leaves the plan as it is. -/
theorem validate_validated (p : Plan) : p.validated.validate = p.validate := by
  unfold validated
  rcases reads_or_fails p with ⟨warnings, changes, hreads⟩ | ⟨e, changes, hfails⟩
  · obtain ⟨changes', hagain, hsame⟩ := hreads.again
    rw [hreads.validate_eq, hagain.validate_eq, hsame]
  · rw [hfails.validate_eq, (hfails.again _).validate_eq]

/-! ### Failures -/

/-- A failed validation disables the plan, keeps the text of the error and changes nothing else but recurrences. A fault
in a schedule text leaves the changes as they were. Of listed changes those in front of the first faulty one get the
recurrences that their texts read as; so the list is as it was exactly if they had them before. -/
theorem validated_of_error (h : p.validate.1 = .error e) :
    let q := p.validated
    q = { p with changes := q.changes, disabled := true, fault := some e.message } ∧
      q.changes.map Change.unread = p.changes.map Change.unread ∧
      (Text.allBlank p.scheduleText = false → q.changes = p.changes) ∧
      (Text.allBlank p.scheduleText = true → ∃ before bad after read,
        p.changes = before ++ bad :: after ∧ List.Forall₂ Change.ReadAs before read ∧
          Recurrence.read bad.cron = .error e ∧ q.changes = read ++ bad :: after ∧
          (q.changes = p.changes ↔ ∀ c ∈ before, Recurrence.read c.cron = .ok c.recurrence)) := by
  intro q
  obtain ⟨changes, hfails⟩ := (p.validate_iff.2 e).mp h
  have hq : q = { p with changes, disabled := true, fault := some e.message } := congrArg (·.2) hfails.validate_eq
  have hchanges : q.changes = changes := congrArg Plan.changes hq
  rw [hchanges]
  refine ⟨hq, ?_⟩
  cases hfails with
  | reference hopen =>
    -- A blank text is no reference.
    have hblank : Text.allBlank p.scheduleText ≠ true := fun hblank => by
      rw [isUnresolved_of_blank hblank] at hopen
      cases hopen
    exact ⟨rfl, fun _ => rfl, fun hlisted => absurd hlisted hblank⟩
  | text _ hblank _ => exact ⟨rfl, fun _ => rfl, fun hlisted => absurd (hblank.symm.trans hlisted) nofun⟩
  | @listed before after read bad _ hblank hlist hread hbad =>
    refine ⟨?_, fun htext => absurd (htext.symm.trans hblank) nofun,
      fun _ => ⟨before, bad, after, read, hlist, hread, hbad, rfl, ?_⟩⟩
    · rw [hlist, List.map_append, List.map_append, Change.map_unread_of_readAs hread]
    · rw [hlist, List.append_left_inj, Change.eq_of_readAs_iff hread]

/-- The third of four listed changes is faulty: the two before it have been read, it and the last one have not. -/
theorem validated_of_error_third :
    let p : Plan := { service := ⟨"shop/api"⟩, configured := " ", changes :=
      [{ state := .running, count := 2, cron := "0 8 1-5" }, { state := .stopped, cron := "30 6 +0" },
        { state := .running, cron := "0 24 6" }, { state := .stopped, cron := "0 18 1-5" }] }
    let e : ScheduleError := .outOfRange .hour 24 "0 24 6"
    let q := p.validated
    p.validate.1 = .error e ∧
      q.changes.map (·.recurrence) = [⟨0, 8, [1, 2, 3, 4, 5]⟩, ⟨30, 6, [0]⟩, {}, {}] ∧
      q = { p with changes := q.changes, disabled := true, fault := some e.message } ∧
      q.changes.map Change.unread = p.changes ∧ q.changes ≠ p.changes := by
  intro p e q
  have hfailed : p.validate.1 = .error e := by decide +kernel
  have hread : q.changes.map (·.recurrence) = [⟨0, 8, [1, 2, 3, 4, 5]⟩, ⟨30, 6, [0]⟩, {}, {}] := by decide +kernel
  obtain ⟨hplan, hlist, -⟩ := validated_of_error hfailed
  refine ⟨hfailed, hread, hplan, hlist, fun hsame => ?_⟩
  rw [hsame] at hread
  cases hread

/-- A failed validation does not leave listed changes as they were. -/
theorem validated_of_error_partial :
    ¬∀ (p : Plan) (e : ScheduleError), p.validate.1 = .error e →
      p.validated.disabled = true ∧ p.validated.fault = some e.message ∧ p.validated.service = p.service ∧
        p.validated.configured = p.configured ∧ p.validated.resolved = p.resolved ∧
        p.validated.changes = p.changes := by
  intro hunchanged
  let p : Plan := { service := ⟨"ops/api"⟩, changes :=
    [{ state := .running, count := 2, cron := "0 8 1-5" }, { state := .stopped, cron := "0 24 1-5" }] }
  have hfailed : p.validate.1 = .error (.outOfRange .hour 24 "0 24 1-5") := by decide +kernel
  have hread : p.validated.changes.map (·.recurrence) = [⟨0, 8, [1, 2, 3, 4, 5]⟩, {}] := by decide +kernel
  obtain ⟨-, -, -, -, -, hsame⟩ := hunchanged p _ hfailed
  rw [hsame] at hread
  cases hread

/-! ### Successes, and once more -/

/-- A successful validation leaves the changes of the schedule by time of day, those at the same time in the order of
the schedule, each on real days of the week at a real time; nothing else of the plan changes. The changes are those of
the schedule text or, where that is blank, the listed ones with the recurrences that their texts read as. Whatever came
of it, a second validation reports the same and leaves the plan as it is. -/
theorem validation_settles (p : Plan) :
    (∀ warnings, p.validate.1 = .ok warnings → ∃ changes,
      (Text.allBlank p.scheduleText = false ∧ Schedule.read p.scheduleText = .ok ⟨changes, warnings⟩ ∨
        Text.allBlank p.scheduleText = true ∧ warnings = [] ∧ List.Forall₂ Change.ReadAs p.changes changes) ∧
      Change.ByTime changes p.validated.changes ∧ (∀ c ∈ p.validated.changes, c.recurrence.WellFormed) ∧
      p.validated = { p with changes := p.validated.changes }) ∧
    p.validated.validate.1 = p.validate.1 ∧ p.validated.validated = p.validated := by
  refine ⟨fun warnings h => ?_, congrArg (·.1) p.validate_validated, congrArg (·.2) p.validate_validated⟩
  obtain ⟨changes, hreads⟩ := (p.validate_iff.1 warnings).mp h
  have hplan : p.validated = { p with changes := Change.sortByTime changes } := congrArg (·.2) hreads.validate_eq
  have hchanges : p.validated.changes = Change.sortByTime changes := congrArg Plan.changes hplan
  obtain ⟨-, hread⟩ := changes_of_validate h
  refine ⟨changes, ?_, ?_, fun c hc => Recurrence.wellFormed_of_read (hread c hc), ?_⟩
  · cases hreads with
    | text _ hblank hread => exact Or.inl ⟨hblank, hread⟩
    | listed hblank hread => exact Or.inr ⟨hblank, rfl, hread⟩
  · rw [hchanges]
    exact Change.byTime_sortByTime changes
  · rw [hchanges, hplan]

/-- Two changes at the same time keep their order behind an earlier one that is listed last, and the second validation
finds them in this order. -/
theorem validation_settles_tie :
    let p : Plan := { service := ⟨"shop/api"⟩, changes := [{ state := .stopped, cron := "0 9 1" },
      { state := .running, count := 2, cron := "0 9 2/+1" }, { state := .running, cron := "59 8 3-4" }] }
    p.validate.1 = .ok [] ∧
      p.validated.changes.map (fun c => (c.state, c.recurrence)) =
        [(.running, ⟨59, 8, [3, 4]⟩), (.stopped, ⟨0, 9, [1]⟩), (.running, ⟨0, 9, [2, 1]⟩)] ∧
      (∃ changes, List.Forall₂ Change.ReadAs p.changes changes ∧ Change.ByTime changes p.validated.changes) ∧
      p.validated.validate.1 = .ok [] ∧ p.validated.validated = p.validated := by
  intro p
  have hread : p.validate.1 = .ok [] := by decide +kernel
  obtain ⟨hsettled, hagain, hsame⟩ := validation_settles p
  obtain ⟨changes, htext | ⟨-, -, hlisted⟩, hbyTime, -⟩ := hsettled [] hread
  · cases htext.1
  · exact ⟨hread, by decide +kernel, ⟨changes, hlisted, hbyTime⟩, hagain.trans hread, hsame⟩

end Plan

end ServiceHours
