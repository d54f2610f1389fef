import ServiceHours.Control.Setup
import ServiceHours.Proofs.Schedule.Reference
import ServiceHours.Proofs.Schedule.Validation
import ServiceHours.Remote.Fleet

/-!
# Plans that reach the engine

Whatever way a plan takes into an agenda, it was validated on it, and nothing is left to resolve.

* `Plan.Ready` is what validation leaves of a plan without an open reference (`Plan.ready_validated`).
* A plan of a file was validated when the file was loaded, or its reference is still open (`PlanFile.ready_prepare`).
* The survey follows open references and validates these plans then, as it does with tagged ones
  (`Survey.ready_ofSources`).
* So every plan of an agenda that was prepared from settings is ready (`Agenda.ready_of_prepare`).

How the records of a file are decoded from its text (`decode?`) makes no difference to any of this.
-/

namespace ServiceHours

variable {decode? : PlanFile.Format → String → Option (List PlanFile.Record)}

/-! ### Validation -/

/-- The plan needs no other schedule, and it is disabled or its changes stand by time of day, each with the recurrence
that its own text reads as. -/
structure Plan.Ready (p : Plan) : Prop where
  resolved : p.isUnresolved = false
  timed : p.disabled = true ∨ (p.changes.Pairwise fun c d => c.minuteOfDay ≤ d.minuteOfDay) ∧
    ∀ c ∈ p.changes, Recurrence.read c.cron = .ok c.recurrence

namespace Plan

theorem isUnresolved_validated (p : Plan) : p.validated.isUnresolved = p.isUnresolved := by
  unfold validated validate
  split <;> rfl

theorem ready_validated {p : Plan} (h : p.isUnresolved = false) : p.validated.Ready := by
  refine ⟨p.isUnresolved_validated.trans h, ?_⟩
  rcases p.disabled_or_ordered_validated with hdisabled | hordered
  · exact Or.inl hdisabled
  · rcases p.disabled_or_read_validated with hdisabled | hread
    · exact Or.inl hdisabled
    · exact Or.inr ⟨hordered, hread⟩

private theorem isUnresolved_resolve (p : Plan) (lookup : String → Option String) :
    (p.resolve lookup).isUnresolved = false := by
  unfold resolve
  split
  · exact p.isUnresolved_withResolution lookup
  · rename_i hresolved
    exact Bool.eq_false_iff.mpr hresolved

end Plan

/-! ### The ways of a plan -/

/-- The value of a sequence is that of its last part, after the parts before. -/
private theorem Run.exists_of_bind {σ α β : Type} {x : Run σ α} {f : α → Run σ β} {s : σ} {b : β}
    (h : ((x >>= f) s).value.1 = b) : ∃ a t, (x s).value = (a, t) ∧ (f a t).value.1 = b :=
  ⟨_, _, rfl, h⟩

/-- A plan of a file is ready, unless its reference is still to be followed. -/
theorem PlanFile.ready_prepare (r : Record) : (prepare r).isUnresolved = true ∨ (prepare r).Ready := by
  unfold prepare
  split
  · rename_i hopen
    exact Or.inl hopen
  · rename_i hresolved
    exact Or.inr (Plan.ready_validated (Bool.eq_false_iff.mpr hresolved))

/-- The plans of a file come from its records. -/
theorem FoundFile.exists_record {profile : String} {file : Option FoundFile} {plans : List Plan}
    (h : (FoundFile.plansWith decode? profile file).value = .ok plans) {p : Plan} (hp : p ∈ plans) :
    ∃ r, PlanFile.prepare r = p := by
  cases file with
  | none =>
    cases h
    cases hp
  | some file =>
    rw [FoundFile.plansWith, PlanFile.loadWith] at h
    cases hopen : PlanFile.openWith decode? file.path file.content with
    | error e =>
      rw [hopen] at h
      cases h
    | ok records =>
      rw [hopen] at h
      cases h
      obtain ⟨r, -, hr⟩ := List.mem_map.mp hp
      exact ⟨r, hr⟩

private theorem FoundFile.ready_plans {profile : String} {file : Option FoundFile} {plans : List Plan}
    (h : (FoundFile.plansWith decode? profile file).value = .ok plans) :
    ∀ p ∈ plans, p.isUnresolved = true ∨ p.Ready := by
  intro p hp
  obtain ⟨r, rfl⟩ := exists_record h hp
  exact PlanFile.ready_prepare r

namespace Survey

/-- Disabling a plan because its service does not exist does not undo anything. -/
private theorem ready_checkExistence {p : Plan} (h : p.Ready) (inventory : List Service) :
    (checkExistence inventory p).Ready := by
  unfold checkExistence
  split
  · exact h
  · exact ⟨h.resolved, Or.inl rfl⟩

theorem isUnresolved_checkExistence (inventory : List Service) (p : Plan) :
    (checkExistence inventory p).isUnresolved = p.isUnresolved := by
  unfold checkExistence
  split <;> rfl

private theorem ready_taggedPlans (tagged : List (Service × String)) (filed : List Plan) :
    ∀ p ∈ taggedPlans tagged filed, p.Ready := by
  intro p hp
  obtain ⟨q, hq, rfl⟩ := List.mem_map.mp hp
  obtain ⟨entry, -, rfl⟩ := List.mem_map.mp (List.mem_filter.mp hq).1
  exact Plan.ready_validated (Plan.isUnresolved_resolve _ _)

private theorem ready_filedPlans {filed : List Plan} (h : ∀ p ∈ filed, p.isUnresolved = true ∨ p.Ready)
    (inventory : List Service) (tagged : List (Service × String)) :
    ∀ p ∈ filedPlans inventory tagged filed, p.Ready := by
  intro p hp
  obtain ⟨q, hq, rfl⟩ := List.mem_map.mp hp
  dsimp only
  split
  · exact Plan.ready_validated (Plan.isUnresolved_resolve _ _)
  · rename_i hresolved
    rw [isUnresolved_checkExistence] at hresolved
    exact ready_checkExistence ((h q hq).resolve_left hresolved) inventory

/-- Plans of both sources are ready after the survey. -/
theorem ready_ofSources {filed : List Plan} (h : ∀ p ∈ filed, p.isUnresolved = true ∨ p.Ready)
    (inventory : List Service) (tagged : List (Service × String)) :
    ∀ p ∈ (ofSources inventory tagged filed).plans, p.Ready := by
  intro p hp
  rcases List.mem_append.mp hp with hp | hp
  · exact ready_taggedPlans tagged filed p hp
  · exact ready_filedPlans h inventory tagged p hp

/-- The tags that a survey reads, each with its service. -/
def tagsRead (m : Manager σ) (tag : String) (x : σ) : List (Service × String) :=
  match (m.listServices (some tag) (m.listServices none x).value.2).value with
  | (.ok carriers, y) => (readTags m tag carriers y).value.1
  | (.error _, _) => []

/-- A survey that succeeds is made from the tags that it read and the filed plans. -/
theorem eq_ofSources_of_collect {m : Manager σ} {tag : String} {filed : List Plan} {x : σ} {v : Survey}
    (h : (collect m tag filed x).value.1 = .ok v) : ∃ inventory, v = ofSources inventory (tagsRead m tag x) filed := by
  obtain ⟨all, y, hall, h⟩ := Run.exists_of_bind h
  cases all with
  | error e => cases h
  | ok all =>
    obtain ⟨carriers, z, hcarriers, h⟩ := Run.exists_of_bind h
    cases carriers with
    | error e => cases h
    | ok carriers =>
      cases h
      have hread : tagsRead m tag x = (readTags m tag carriers z).value.1 := by
        rw [tagsRead, hall, hcarriers]
      rw [hread]
      exact ⟨_, rfl⟩

end Survey

namespace Agenda

/-- A run that can be prepared has the plans of the file and those that the survey collects. -/
private theorem exists_survey_of_prepare {m : Manager σ} {settings : Settings} {file : Option FoundFile} {x : σ}
    {a : Agenda} (h : (prepareWith decode? m settings file x).value.1 = .ok a) :
    ∃ filed inventory tagged, (FoundFile.plansWith decode? settings.profile file).value = .ok filed ∧
      a = .ofSurvey settings.profile (.ofSources inventory tagged filed) := by
  rw [prepareWith, Run.within_apply] at h
  dsimp only at h
  obtain ⟨loaded, y, hloaded, h⟩ := Run.exists_of_bind h
  have hfile : (FoundFile.plansWith decode? settings.profile file).value = loaded := congrArg Prod.fst hloaded
  cases loaded with
  | error e => cases h
  | ok filed =>
    obtain ⟨collected, z, hcollected, h⟩ := Run.exists_of_bind h
    cases collected with
    | error e => cases h
    | ok survey =>
      obtain ⟨inventory, rfl⟩ := Survey.eq_ofSources_of_collect (congrArg Prod.fst hcollected)
      cases h
      exact ⟨filed, inventory, _, hfile, rfl⟩

/-- An agenda that was prepared from settings holds validated plans only, whatever records the plan file is decoded to
and whatever the manager answers. Nothing of them is left to resolve; a plan that is not disabled has its changes by
time of day, and each change comes at the real times that its own text reads as. -/
theorem ready_of_prepare {m : Manager σ} {settings : Settings} {file : Option FoundFile} {x : σ} {a : Agenda}
    (h : (prepareWith decode? m settings file x).value.1 = .ok a) :
    ∀ p ∈ a.plans, p.isUnresolved = false ∧
      (p.disabled = true ∨ (p.changes.Pairwise fun c d => c.minuteOfDay ≤ d.minuteOfDay) ∧
        ∀ c ∈ p.changes, Recurrence.read c.cron = .ok c.recurrence ∧ c.recurrence.WellFormed) := by
  obtain ⟨filed, inventory, tagged, hfiled, rfl⟩ := exists_survey_of_prepare h
  intro p hp
  have hready : p.Ready := Survey.ready_ofSources (FoundFile.ready_plans hfiled) inventory tagged p hp
  refine ⟨hready.resolved, hready.timed.imp_right fun ⟨hordered, hread⟩ => ⟨hordered, fun c hc => ?_⟩⟩
  exact ⟨hread c hc, Recurrence.wellFormed_of_read (hread c hc)⟩

/-- A file says when the first service is to stop and to run, and the tag of the second refers to it: both plans are
ready, with the changes of the file turned into the order of the day. -/
theorem ready_of_prepare_reference :
    let f := (Fleet.addTagged {} ⟨"shop/web"⟩ "offhours" "@api").addService ⟨"shop/api"⟩
    let file : FoundFile := ⟨"plans.json", some
      "[\x7b\"service\": \"shop/api\", \"schedule\": \"stopped=0 18 1. running=0 8 1.\"\x7d]".toUTF8⟩
    ∃ a, (prepare (Settings.manager {} (fun _ => false) Fleet.manager) {} (some file) f).value.1 = .ok a ∧
      (a.plans.map fun p => (p.service.path, p.disabled, p.changes.map Change.minuteOfDay)) =
        [("shop/web", false, [480, 1080]), ("shop/api", false, [480, 1080])] ∧
      ∀ p ∈ a.plans, p.isUnresolved = false ∧
        (p.disabled = true ∨ (p.changes.Pairwise fun c d => c.minuteOfDay ≤ d.minuteOfDay) ∧
          ∀ c ∈ p.changes, Recurrence.read c.cron = .ok c.recurrence ∧ c.recurrence.WellFormed) := by
  intro f file
  have hplans : ((prepare (Settings.manager {} (fun _ => false) Fleet.manager) {} (some file) f).value.1.toOption.map
      fun a => a.plans.map fun p => (p.service.path, p.disabled, p.changes.map Change.minuteOfDay)) =
        some [("shop/web", false, [480, 1080]), ("shop/api", false, [480, 1080])] := by decide +kernel
  cases h : (prepare (Settings.manager {} (fun _ => false) Fleet.manager) {} (some file) f).value.1 with
  | error e =>
    rw [h] at hplans
    cases hplans
  | ok a =>
    rw [h] at hplans
    exact ⟨a, rfl, Option.some.inj hplans, ready_of_prepare h⟩

end Agenda

end ServiceHours
