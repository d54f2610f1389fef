import ServiceHours.Proofs.Control.Independence
import ServiceHours.Proofs.Control.References
import ServiceHours.Proofs.Week.Latest

/-!
# References that lead nowhere

A reference leads nowhere if no service bears its name, or if the schedule found under the name is itself a reference.
It stands for an empty schedule.

* A tagged service with such a reference gets no plan (`Survey.not_nowhere_of_mem_taggedPlans`).
* A filed plan with such a reference is left with the changes that its record lists; without any it is not active
  (`Survey.isActive_filedPlan_iff`).
* Where no plan of a service is active, the table has nothing for the service and a pass makes no call on it
  (`Week.occurrencesOf_ofPlans_eq_nil`, `Agenda.called_pass_of_no_occurrences`).
-/

namespace ServiceHours

/-! ### Plans without a schedule text -/

namespace Change

private theorem length_readAll (changes : List Change) : (readAll changes).1.length = changes.length := by
  induction changes with
  | nil => rfl
  | cons c cs ih =>
    unfold readAll
    split
    · rw [List.length_cons, List.length_cons, ih]
    · rfl

end Change

namespace Plan

variable {p : Plan} {lookup : String → Option String}

/-- A plan without a schedule text is active if it was not disabled before and lists changes that can all be read. -/
private theorem isActive_validated_of_blank (hresolved : p.isUnresolved = false)
    (hblank : Text.allBlank p.scheduleText = true) :
    p.validated.isActive = true ↔ p.disabled = false ∧ p.changes ≠ [] ∧ (Change.readAll p.changes).2 = none := by
  have hlength := Change.length_readAll p.changes
  rw [validated, validate_of_blank hresolved hblank]
  rcases hread : Change.readAll p.changes with ⟨changes, _ | e⟩
  · rw [hread] at hlength
    have hsorted := (Change.sortByTime_perm changes).length_eq
    have hempty : (Change.sortByTime changes).isEmpty = p.changes.isEmpty := by
      rw [Bool.eq_iff_iff, List.isEmpty_iff_length_eq_zero, List.isEmpty_iff_length_eq_zero, hsorted, hlength]
    simp only [isActive, hempty, Bool.and_eq_true, Bool.not_eq_true', List.isEmpty_eq_false_iff, and_true]
  · simp [isActive]

/-- A reference that leads to no schedule stands for an empty one. -/
private theorem resolve_of_empty (hopen : p.isUnresolved = true)
    (hempty : (Resolution.ofSchedule p.configured lookup).schedule = "") :
    p.resolve lookup = { p with resolved := some "" } := by
  have hreference : Reference.isReference p.configured = true := (Bool.and_eq_true_iff.mp hopen).2
  rw [resolve, if_pos hopen, withResolution_of_reference hreference, hempty]

end Plan

/-! ### The two sources -/

namespace Survey

variable {inventory : List Service} {tagged : List (Service × String)} {filed : List Plan} {text : String}

/-- The text is a reference, and no service bears its name, or what is found under the name is a reference again. -/
def LeadsNowhere (tagged : List (Service × String)) (filed : List Plan) (text : String) : Prop :=
  ∃ name, Reference.target? text = some name ∧ (bearers tagged filed name = [] ∨
    ∃ found, lookup tagged filed name = some found ∧ Reference.isReference found = true)

/-- Nothing is found under a name exactly if no service bears it. -/
private theorem lookup_eq_none_iff {name : String} :
    lookup tagged filed name = none ↔ bearers tagged filed name = [] := by
  have hnames : bearers tagged filed name = [] ↔
      (∀ p ∈ filed, ¬p.service.name = name) ∧ ∀ entry ∈ tagged, ¬entry.1.name = name := by
    rw [bearers, List.filter_append, List.append_eq_nil_iff, List.filter_eq_nil_iff, List.filter_eq_nil_iff, and_comm]
    simp only [decide_eq_true_eq, List.forall_mem_map]
  rw [hnames, lookup]
  cases hfind : filed.reverse.find? (·.service.name = name) with
  | some p =>
    have hp := List.mem_reverse.mp (List.mem_of_find?_eq_some hfind)
    have hname : p.service.name = name := by simpa using List.find?_some hfind
    exact iff_of_false (Option.some_ne_none _) fun h => h.1 p hp hname
  | none =>
    have hfiled : ∀ p ∈ filed, ¬p.service.name = name := by simpa [List.find?_eq_none] using hfind
    dsimp only
    rw [Option.map_eq_none_iff, List.find?_eq_none]
    simp only [List.mem_reverse, decide_eq_true_eq]
    exact (and_iff_right hfiled).symm

/-- Following such a reference fails, in one of the two ways there are. -/
private theorem leadsNowhere_iff : LeadsNowhere tagged filed text ↔ ∃ name,
    Resolution.ofSchedule text (lookup tagged filed) = .missing name ∨
      ∃ found, Resolution.ofSchedule text (lookup tagged filed) = .chained name found := by
  unfold LeadsNowhere Resolution.ofSchedule
  cases Reference.target? text with
  | none => simp
  | some name =>
    dsimp only
    cases hfound : lookup tagged filed name with
    | none => simp [lookup_eq_none_iff.mp hfound]
    | some found =>
      have hsome : bearers tagged filed name ≠ [] := fun h => by
        rw [lookup_eq_none_iff.mpr h] at hfound
        cases hfound
      by_cases hchained : Reference.isReference found = true <;> simp [hsome, hfound, hchained]

private theorem LeadsNowhere.isReference (h : LeadsNowhere tagged filed text) : Reference.isReference text = true := by
  obtain ⟨name, htarget, -⟩ := h
  exact Reference.isReference_of_target? htarget

private theorem LeadsNowhere.schedule_eq (h : LeadsNowhere tagged filed text) :
    (Resolution.ofSchedule text (lookup tagged filed)).schedule = "" := by
  obtain ⟨name, hmissing | ⟨found, hchained⟩⟩ := leadsNowhere_iff.mp h
  · rw [hmissing, Resolution.schedule]
  · rw [hchained, Resolution.schedule]

/-- A tag that leads nowhere makes no plan. -/
theorem not_nowhere_of_mem_taggedPlans {p : Plan} (hp : p ∈ taggedPlans tagged filed) :
    ¬LeadsNowhere tagged filed p.configured := by
  obtain ⟨s, value, -, -, hbare, rfl⟩ := mem_taggedPlans.mp hp
  rw [Plan.configured_validated, Plan.configured_resolve]
  intro h
  have hopen : Plan.isUnresolved { service := s, configured := value } = true := h.isReference
  rw [Plan.resolve_of_empty hopen h.schedule_eq] at hbare
  cases hbare

/-- A filed plan that leads nowhere is active only through changes that its record lists. -/
theorem isActive_filedPlan_iff {p : Plan} (hopen : p.isUnresolved = true)
    (h : LeadsNowhere tagged filed p.configured) :
    (filedPlan inventory tagged filed p).isActive = true ↔
      p.disabled = false ∧ p.service ∈ inventory ∧ p.changes ≠ [] ∧ (Change.readAll p.changes).2 = none := by
  have hchecked := (isUnresolved_checkExistence inventory p).trans hopen
  have hempty :
      (Resolution.ofSchedule (checkExistence inventory p).configured (lookup tagged filed)).schedule = "" := by
    rw [configured_checkExistence, h.schedule_eq]
  have hdisabled : (checkExistence inventory p).disabled = false ↔ p.disabled = false ∧ p.service ∈ inventory := by
    rw [checkExistence_eq, Bool.or_eq_false_iff, Bool.not_eq_false', List.contains_iff_mem]
  rw [filedPlan, if_pos hopen, Plan.resolve_of_empty hchecked hempty, Plan.isActive_validated_of_blank rfl rfl]
  dsimp only
  rw [changes_checkExistence, hdisabled, and_assoc]

end Survey

/-! ### Services without an active plan -/

/-- Plans that are not active bring nothing into the table. -/
theorem Week.occurrencesOf_ofPlans_eq_nil {plans : List Plan} {s : Service}
    (h : ∀ p ∈ plans, p.service = s → p.isActive = false) : (ofPlans plans).occurrencesOf s = [] := by
  have hnone : (plans.filter (·.service = s)).flatMap Plan.occurrences = [] := by
    rw [List.flatMap_eq_nil_iff]
    intro p hp
    obtain ⟨hp, hs⟩ := List.mem_filter.mp hp
    rw [Plan.occurrences, h p hp (of_decide_eq_true hs), if_neg Bool.false_ne_true]
  rw [occurrencesOf_ofPlans, hnone, List.foldl_nil]

namespace Agenda

variable {a : Agenda} {s : Service}

/-- A plan whose service has no transitions is skipped without a call. -/
private theorem visit_of_no_occurrences {σ : Type} (m : Manager σ) (now : Timestamp) (dryRun : Bool) {p : Plan}
    (h : a.week.occurrencesOf p.service = []) (x : σ) :
    (a.visit m now dryRun p x).value =
      (skipped p (if p.disabled then .disabled else .unscheduled), x) := by
  rw [visit_value, (a.week.lastTransition_eq_none_iff p.service now).mpr h]
  split <;> rfl

/-- A pass makes no call on a service that has no transitions. -/
theorem called_pass_of_no_occurrences (now : Timestamp) (dryRun : Bool) (h : a.week.occurrencesOf s = [])
    (f : Fleet) : f.Called (·.service? ≠ some s) (a.pass Fleet.manager now dryRun f).value.2 := by
  have hvisits : ∀ p ∈ a.plans,
      Run.Keeps (f.Called (·.service? ≠ some s)) (a.visit Fleet.manager now dryRun p) := by
    intro p _
    by_cases hs : p.service = s
    · intro g hg
      rw [visit_of_no_occurrences Fleet.manager now dryRun (hs ▸ h) g]
      exact hg
    · refine a.keeps_visit now dryRun (Fleet.keepsOn_manager fun g c hc hg => hg.trans ?_)
      refine (Fleet.localTo_afterCall g hc).calls.mono fun d hd => ?_
      rw [hd]
      exact fun he => hs (Option.some.inj he)
  exact Run.keeps_iff_agree.mpr (agree_pass fun p hp => Run.keeps_iff_agree.mp (hvisits p hp)) f (.none rfl)

end Agenda

namespace Survey

/-- A reference that leads nowhere leaves a plan with nothing but the changes that its record lists, whatever records
the plan file is decoded to. No tag makes such a plan, and a filed one is active exactly if it is not disabled, its
service exists, and its record lists changes that can all be read. Passes make no call on a service without active
plans. -/
theorem isActive_of_leadsNowhere {decode? : PlanFile.Format → String → Option (List PlanFile.Record)} {m : Manager σ}
    {tag profile : String} {file : Option FoundFile} {filed : List Plan} {x : σ} {v : Survey}
    (hfiled : (FoundFile.plansWith decode? profile file).value = .ok filed)
    (hcollect : (collect m tag filed x).value.1 = .ok v) {plan : Plan} (hplan : plan ∈ v.plans)
    (hnowhere : LeadsNowhere (tagsRead m tag x) filed plan.configured) :
    (∃ p ∈ filed, plan = filedPlan v.inventory (tagsRead m tag x) filed p ∧
      (plan.isActive = true ↔
        p.disabled = false ∧ p.service ∈ v.inventory ∧ p.changes ≠ [] ∧ (Change.readAll p.changes).2 = none)) ∧
    ((∀ q ∈ v.plans, q.service = plan.service → q.isActive = false) → ∀ now dryRun (f : Fleet),
      f.Called (·.service? ≠ some plan.service)
        ((Agenda.ofSurvey profile v).pass Fleet.manager now dryRun f).value.2) := by
  obtain ⟨inventory, rfl⟩ := eq_ofSources_of_collect hcollect
  constructor
  · rw [ofSources, filedPlans_eq_map] at hplan
    rcases List.mem_append.mp hplan with htagged | hlocal
    · exact absurd hnowhere (not_nowhere_of_mem_taggedPlans htagged)
    · obtain ⟨p, hp, rfl⟩ := List.mem_map.mp hlocal
      obtain ⟨r, rfl⟩ := FoundFile.exists_record hfiled hp
      rw [configured_filedPlan] at hnowhere
      refine ⟨_, hp, rfl, isActive_filedPlan_iff ?_ hnowhere⟩
      -- A reference in a file is left open until the survey follows it.
      have hreference := hnowhere.isReference
      rw [PlanFile.configured_prepare] at hreference
      rcases PlanFile.prepare_cases r with ⟨-, hprepare, hopen⟩ | ⟨hnot, -⟩
      · rw [hprepare, hopen]
      · rw [hreference] at hnot
        cases hnot
  · intro hinactive now dryRun f
    refine Agenda.called_pass_of_no_occurrences now dryRun ?_ f
    show ((Week.ofPlans _).markKnown _).occurrencesOf _ = []
    rw [Week.occurrencesOf_markKnown, Week.occurrencesOf_ofPlans_eq_nil hinactive, List.map_nil]

/-- Nobody bears the name that a tag and the first record refer to, and the second record refers to the first. The tag
makes no plan, those of the records are not active, and no pass makes a call on their services. -/
theorem isActive_of_leadsNowhere_chained :
    let f := ((Fleet.addTagged {} ⟨"shop/web"⟩ "offhours" "@ghost").addService ⟨"shop/mail"⟩).addService ⟨"shop/api"⟩
    let file : FoundFile := ⟨"plans.json", some ("[\x7b\"service\":\"shop/mail\",\"schedule\":\"@ghost\"\x7d," ++
      "\x7b\"service\":\"shop/api\",\"schedule\":\" @ mail\"\x7d]").toUTF8⟩
    let filed : List Plan := [{ service := ⟨"shop/mail"⟩, configured := "@ghost" },
      { service := ⟨"shop/api"⟩, configured := " @ mail" }]
    ∃ v, (FoundFile.plans "default" (some file)).value = .ok filed ∧
      (collect Fleet.manager "offhours" filed f).value.1 = .ok v ∧
      v.plans.map (fun p => (p.service.path, p.configured)) = [("shop/mail", "@ghost"), ("shop/api", " @ mail")] ∧
      ∀ plan ∈ v.plans, LeadsNowhere (tagsRead Fleet.manager "offhours" f) filed plan.configured ∧
        plan.isActive = false ∧ ∀ now dryRun (g : Fleet), g.Called (·.service? ≠ some plan.service)
          ((Agenda.ofSurvey "default" v).pass Fleet.manager now dryRun g).value.2 := by
  intro f file filed
  have hfiled : (FoundFile.plans "default" (some file)).value = .ok filed := by decide +kernel
  have hcollect : (collect Fleet.manager "offhours" filed f).value.1 =
      .ok ⟨filed.map fun p => { p with resolved := some "" }, [⟨"shop/api"⟩, ⟨"shop/mail"⟩, ⟨"shop/web"⟩]⟩ := by
    decide +kernel
  have hghost : LeadsNowhere (tagsRead Fleet.manager "offhours" f) filed "@ghost" :=
    ⟨"ghost", by decide +kernel, Or.inl (by decide +kernel)⟩
  have hchained : LeadsNowhere (tagsRead Fleet.manager "offhours" f) filed " @ mail" :=
    ⟨"mail", by decide +kernel, Or.inr ⟨"@ghost", by decide +kernel, by decide +kernel⟩⟩
  have hlisted : ∀ p ∈ filed, p.changes = [] := by decide +kernel
  have hinactive : ∀ q ∈ filed.map fun p => { p with resolved := some "" }, q.isActive = false := by decide +kernel
  refine ⟨_, hfiled, hcollect, rfl, fun plan hplan => ?_⟩
  have hnowhere : LeadsNowhere (tagsRead Fleet.manager "offhours" f) filed plan.configured := by
    rcases List.mem_cons.mp hplan with rfl | hplan
    · exact hghost
    · rw [List.mem_singleton.mp hplan]
      exact hchained
  obtain ⟨⟨p, hp, -, hactive⟩, hcalled⟩ := isActive_of_leadsNowhere hfiled hcollect hplan hnowhere
  refine ⟨hnowhere, Bool.eq_false_iff.mpr fun h => (hactive.mp h).2.2.1 (hlisted p hp), ?_⟩
  exact hcalled fun q hq _ => hinactive q hq

/-- A record may list changes beside a reference. If the reference leads nowhere, the plan is active with them. -/
theorem isActive_of_leadsNowhere_listed :
    ¬∀ (tag profile : String) (file : Option FoundFile) (filed : List Plan) (f : Fleet) (v : Survey),
      (FoundFile.plans profile file).value = .ok filed → (collect Fleet.manager tag filed f).value.1 = .ok v →
      ∀ plan ∈ v.plans, LeadsNowhere (tagsRead Fleet.manager tag f) filed plan.configured →
        plan.isActive = false := by
  intro hinactive
  let f := Fleet.addService {} ⟨"ops/batch"⟩
  let file : FoundFile := ⟨"plans.json", some ("[\x7b\"service\":\"ops/batch\",\"schedule\":\"@ghost\"," ++
    "\"state-changes\":[\x7b\"desired-state\":\"RUNNING\",\"desired-count\":2,\"cron\":\"0 8 1-5\"\x7d]\x7d]").toUTF8⟩
  let batch : Plan := { service := ⟨"ops/batch"⟩, configured := "@ghost", changes :=
    [{ state := .running, count := 2, cron := "0 8 1-5" }] }
  have hfiled : (FoundFile.plans "default" (some file)).value = .ok [batch] := by decide +kernel
  have hcollect : (collect Fleet.manager "offhours" [batch] f).value.1 =
      .ok ⟨[{ batch with resolved := some "", changes :=
        [{ state := .running, count := 2, cron := "0 8 1-5", recurrence := ⟨0, 8, [1, 2, 3, 4, 5]⟩ }] }],
        [⟨"ops/batch"⟩]⟩ := by decide +kernel
  have hnowhere : LeadsNowhere (tagsRead Fleet.manager "offhours" f) [batch] "@ghost" :=
    ⟨"ghost", by decide +kernel, Or.inl (by decide +kernel)⟩
  have hactive := hinactive "offhours" "default" (some file) [batch] f _ hfiled hcollect _
    (List.mem_singleton.mpr rfl) hnowhere
  cases hactive

end Survey

end ServiceHours
