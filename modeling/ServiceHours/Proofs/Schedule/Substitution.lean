import ServiceHours.Proofs.Schedule.Revalidation

/-!
# References as substitutions

A plan whose reference was followed is validated as the plan that has the text at the other end for its own schedule.

* `Reference.textFor` is what a lookup gives in place of a name, for one step: never a reference again
  (`Reference.isReference_textFor`). Following a reference leads to this text (`Resolution.schedule_ofSchedule`).
* Validation does not see whether a text is the configured one or was found (`Plan.validate_resolved`).
* Only a reference that was not followed is reported as one: the errors of recurrences and clauses are about what they
  have in them (`Plan.validate_eq_unresolved_iff`).
-/

namespace ServiceHours

variable {lookup : String → Option String} {value target text : String}

/-! ### One step -/

/-- What stands in place of a name: the text found for it, or nothing if there is none or it is a reference again. -/
def Reference.textFor (lookup : String → Option String) (target : String) : String :=
  ((lookup target).filter fun text => !isReference text).getD ""

theorem Reference.isReference_textFor (lookup : String → Option String) (target : String) :
    isReference (textFor lookup target) = false := by
  unfold textFor
  cases hfound : (lookup target).filter fun text => !isReference text with
  | none => rfl
  | some text => simpa using (Option.filter_eq_some_iff.mp hfound).2

theorem Resolution.schedule_ofSchedule (htarget : Reference.target? value = some target) :
    (ofSchedule value lookup).schedule = Reference.textFor lookup target := by
  unfold ofSchedule Reference.textFor
  rw [htarget]
  dsimp only
  cases hfound : lookup target with
  | none => simp [schedule]
  | some text => cases hopen : Reference.isReference text <;> simp [schedule, Option.filter_some, hopen]

/-! ### Errors of texts -/

private theorem Recurrence.FieldFails.ne_unresolved {expr : String} {field : TimeField} {cs : List Char}
    {e : ScheduleError} (h : FieldFails expr field cs e) : e ≠ .unresolved text := by
  cases h with
  | number => exact nofun
  | range => exact nofun

private theorem Recurrence.DaysFail.ne_unresolved {expr : String} {cs : List Char} {e : ScheduleError}
    (h : DaysFail expr cs e) : e ≠ .unresolved text := by
  cases h with
  | single _ _ hfails => exact hfails.ne_unresolved
  | first _ _ hfails => exact hfails.ne_unresolved
  | last _ _ hfails => exact hfails.ne_unresolved
  | reversed => exact nofun
  | listed _ _ _ _ hfails => exact hfails.ne_unresolved
  | repeated => exact nofun

/-- No recurrence is taken for a reference. -/
private theorem Recurrence.read_ne_unresolved {expr : String} : read expr ≠ .error (.unresolved text) := by
  intro h
  generalize he : ScheduleError.unresolved text = e at h
  cases read_eq_error_iff.mp h with
  | fieldCount => cases he
  | minute _ hfails => exact hfails.ne_unresolved he.symm
  | hour _ _ hfails => exact hfails.ne_unresolved he.symm
  | days _ _ _ hfails => exact hfails.ne_unresolved he.symm

/-- No schedule text is taken for a reference. -/
private theorem Schedule.read_ne_unresolved {schedule : String} : read schedule ≠ .error (.unresolved text) := by
  intro h
  obtain ⟨-, bad, -, -, -, hfails⟩ := read_eq_error_iff.mp h
  generalize he : ScheduleError.unresolved text = e at hfails
  cases hfails with
  | form => cases he
  | key => cases he
  | recurrence _ hread => exact Recurrence.read_ne_unresolved (he ▸ hread)
  | count => cases he

/-! ### Validation -/

namespace Plan

variable {p : Plan}

/-- An unfollowed reference is reported as such, and nothing else is. -/
theorem validate_eq_unresolved_iff :
    p.validate.1 = .error (.unresolved text) ↔ p.isUnresolved = true ∧ text = p.configured := by
  rw [p.validate_iff.2]
  constructor
  · rintro ⟨changes, hfails⟩
    generalize he : ScheduleError.unresolved text = e at hfails
    cases hfails with
    | reference hopen => exact ⟨hopen, ScheduleError.unresolved.inj he⟩
    | text _ _ hread => exact absurd (he ▸ hread) Schedule.read_ne_unresolved
    | listed _ _ _ hbad => exact absurd (he ▸ hbad) Recurrence.read_ne_unresolved
  · rintro ⟨hopen, rfl⟩
    exact ⟨_, .reference hopen⟩

/-- A text that was found is validated as it would be if it were the configured one. -/
theorem validate_resolved (p : Plan) (hplain : Reference.isReference text = false) :
    { p with resolved := some text }.validate =
      let (result, q) := { p with configured := text, resolved := none }.validate
      (result, { q with configured := p.configured, resolved := some text }) := by
  have hown : isUnresolved { p with configured := text, resolved := none } = false := by
    rw [isUnresolved, hplain, Bool.and_false]
  have hchanges : readChanges { p with resolved := some text } =
      readChanges { p with configured := text, resolved := none } := by
    unfold readChanges
    rw [hown]
    rfl
  unfold validate
  rw [hchanges]
  rcases readChanges _ with ⟨changes, _ | _⟩ <;> rfl

/-- Following the reference of a plan keeps all of the plan and adds the text that it leads to. -/
private theorem withResolution_ofSchedule (htarget : Reference.target? p.configured = some target) :
    p.withResolution (Resolution.ofSchedule p.configured lookup) =
      { p with resolved := some (Reference.textFor lookup target) } := by
  rw [withResolution_of_reference (Reference.isReference_of_target? htarget), Resolution.schedule_ofSchedule htarget]

/-- A text has a target exactly if it is a reference, and following it finds out the same. Following the reference of a
plan one step puts a text in its place and leaves the reference where it was configured: the text that was found for the
target, or the empty one if none was found or it is a reference itself. Validation then comes to what it comes to for
the plan with this text for its own schedule, and never reports a reference. -/
theorem resolution_substitutes (lookup : String → Option String) :
    (∀ value, (Reference.target? value).isSome = Reference.isReference value ∧
      (Resolution.ofSchedule value lookup).wasReference = Reference.isReference value) ∧
    ∀ p : Plan, p.isUnresolved = true → ∃ target, Reference.target? p.configured = some target ∧
      let text := Reference.textFor lookup target
      let q := p.withResolution (Resolution.ofSchedule p.configured lookup)
      let r : Plan := { p with configured := text, resolved := none }
      q.isUnresolved = false ∧ q.configured = p.configured ∧ q.scheduleText = text ∧
        Reference.isReference text = false ∧ q.validate.1 = r.validate.1 ∧
        q.validated.changes = r.validated.changes ∧ q.validated.disabled = r.validated.disabled ∧
        q.validated.fault = r.validated.fault ∧ ∀ reference, q.validate.1 ≠ .error (.unresolved reference) := by
  refine ⟨fun value => ⟨Reference.isSome_target? value, Resolution.wasReference_ofSchedule value lookup⟩,
    fun p hopen => ?_⟩
  have href : Reference.isReference p.configured = true := (Bool.and_eq_true_iff.mp hopen).2
  obtain ⟨target, htarget⟩ := Option.isSome_iff_exists.mp ((Reference.isSome_target? p.configured).trans href)
  refine ⟨target, htarget, ?_⟩
  intro text q r
  have hplain : Reference.isReference text = false := Reference.isReference_textFor lookup target
  have hq : q = { p with resolved := some text } := withResolution_ofSchedule htarget
  have hvalidate : q.validate =
      (r.validate.1, { r.validate.2 with configured := p.configured, resolved := some text }) :=
    hq ▸ p.validate_resolved hplain
  have hfollowed : q.isUnresolved = false := p.isUnresolved_withResolution lookup
  refine ⟨hfollowed, congrArg (·.configured) hq, congrArg (·.scheduleText) hq, hplain, congrArg (·.1) hvalidate,
    congrArg (·.2.changes) hvalidate, congrArg (·.2.disabled) hvalidate, congrArg (·.2.fault) hvalidate,
    fun reference hreported => ?_⟩
  have hunresolved := (validate_eq_unresolved_iff.mp hreported).1
  rw [hfollowed] at hunresolved
  cases hunresolved

/-- One reference, with blanks around it, finds a schedule. Another finds itself behind a blank that is no ASCII
character; so the plan is left with the changes that it lists. -/
theorem resolution_substitutes_itself :
    let lookup : String → Option String := fun name =>
      if name = "web" then some "running=0 8 1. count=2." else if name = "api" then some "\u3000@api" else none
    let follow (p : Plan) : Plan := p.withResolution (Resolution.ofSchedule p.configured lookup)
    let found : Plan := { service := ⟨"shop/api"⟩, configured := " @ web " }
    let itself : Plan := { found with configured := "\u3000@api", changes := [{ state := .stopped, cron := "0 9 1" }] }
    found.isUnresolved = true ∧ (follow found).scheduleText = "running=0 8 1. count=2." ∧
      (follow found).validated.changes =
        [{ state := .running, count := 2, cron := "0 8 1", recurrence := ⟨0, 8, [1]⟩ }] ∧
      itself.isUnresolved = true ∧ (follow itself).scheduleText = "" ∧ (follow itself).validate.1 = .ok [] ∧
      (follow itself).validated.changes = [{ state := .stopped, cron := "0 9 1", recurrence := ⟨0, 9, [1]⟩ }] := by
  intro lookup follow found itself
  have hopen : found.isUnresolved = true := by decide +kernel
  have hopen' : itself.isUnresolved = true := by decide +kernel
  have hweb : Reference.target? " @ web " = some "web" := by decide +kernel
  have hapi : Reference.target? "\u3000@api" = some "api" := by decide +kernel
  obtain ⟨target, htarget, -, -, htext, -, -, hchanges, -⟩ := (resolution_substitutes lookup).2 found hopen
  obtain ⟨target', htarget', -, -, htext', -, hresult', hchanges', -⟩ := (resolution_substitutes lookup).2 itself hopen'
  obtain rfl : "web" = target := Option.some.inj (hweb.symm.trans htarget)
  obtain rfl : "api" = target' := Option.some.inj (hapi.symm.trans htarget')
  refine ⟨hopen, htext.trans ?_, hchanges.trans ?_, hopen', htext'.trans ?_, hresult'.trans ?_, hchanges'.trans ?_⟩
  all_goals decide +kernel

end Plan

end ServiceHours
