import ServiceHours.Proofs.Control.Ready

/-!
# Schedules by reference

A plan that refers to another service is read from the same text as the plan of that service.

* A reference leads to the text that the survey has for the name: that of the last filed plan with it, or else that of
  the tag (`Survey.lookup_of_filed`, `Survey.lookup_of_tagged`).
* From the same text, validation reads the same changes, whichever plan it reads them for (`Plan.changes_of_found`).
* So every plan that refers to a service has the changes of that service's plan (`Survey.changes_of_reference`). This
  needs a schedule text: changes that are listed without one are not handed on (`Survey.changes_of_reference_listed`).
-/

namespace ServiceHours

/-! ### One plan and its target -/

namespace Plan

variable {p q : Plan} {lookup : String → Option String} {name : String}

@[simp] theorem service_validated (p : Plan) : p.validated.service = p.service := by
  unfold validated validate
  split <;> rfl

@[simp] theorem configured_validated (p : Plan) : p.validated.configured = p.configured := by
  unfold validated validate
  split <;> rfl

@[simp] theorem service_resolve (lookup : String → Option String) (p : Plan) :
    (p.resolve lookup).service = p.service := by
  unfold resolve withResolution
  split
  · split <;> rfl
  · rfl

@[simp] theorem configured_resolve (lookup : String → Option String) (p : Plan) :
    (p.resolve lookup).configured = p.configured := by
  unfold resolve withResolution
  split
  · split <;> rfl
  · rfl

/-- With a schedule text, validation takes the changes from it and from nothing else. -/
private theorem validate_of_text (hresolved : p.isUnresolved = false) (hblank : Text.allBlank p.scheduleText = false) :
    p.validated = match Schedule.read p.scheduleText with
      | .ok reading => { p with changes := Change.sortByTime reading.changes }
      | .error e => { p with disabled := true, fault := some e.message } := by
  unfold validated validate readChanges
  rw [hresolved, hblank]
  simp only [Bool.false_eq_true, if_false]
  cases Schedule.read p.scheduleText <;> rfl

/-- Two plans with the same schedule text have the same changes, unless the text has a fault. -/
private theorem changes_validated_congr (hp : p.isUnresolved = false) (hq : q.isUnresolved = false)
    (htext : p.scheduleText = q.scheduleText) (hblank : Text.allBlank q.scheduleText = false)
    (hfault : q.validated.fault = none) : p.validated.changes = q.validated.changes := by
  have hpvalidated := validate_of_text hp (htext ▸ hblank)
  have hqvalidated := validate_of_text hq hblank
  rw [htext] at hpvalidated
  cases hread : Schedule.read q.scheduleText with
  | error e =>
    rw [hqvalidated, hread] at hfault
    cases hfault
  | ok reading => rw [hpvalidated, hqvalidated, hread]

/-- Where a reference finds a schedule that is not a reference itself, the plan takes it over. -/
private theorem resolve_of_found {text : String} (hopen : p.isUnresolved = true)
    (htarget : Reference.target? p.configured = some name) (hfound : lookup name = some text)
    (htext : Reference.isReference text = false) : p.resolve lookup = { p with resolved := some text } := by
  have hfollowed : Resolution.ofSchedule p.configured lookup = .found name text := by
    simp only [Resolution.ofSchedule, htarget, hfound, htext, Bool.false_eq_true, if_false]
  rw [resolve, if_pos hopen, hfollowed]
  rfl

/-- A plan whose reference finds the text of another plan has the changes of that plan. -/
theorem changes_of_found (hopen : p.isUnresolved = true) (htarget : Reference.target? p.configured = some name)
    (hfound : lookup name = some q.configured) (hq : Reference.isReference q.configured = false)
    (hown : q.resolved = none) (hblank : Text.allBlank q.configured = false) (hfault : q.validated.fault = none) :
    (p.resolve lookup).isBare = false ∧ (p.resolve lookup).validated.changes = q.validated.changes := by
  have htext : q.scheduleText = q.configured := by rw [scheduleText, hown, Option.getD_none]
  rw [resolve_of_found hopen htarget hfound hq]
  constructor
  · have hbare : isBare { p with resolved := some q.configured } =
        (Text.allBlank q.configured && p.changes.isEmpty) := rfl
    rw [hbare, hblank, Bool.false_and]
  · refine changes_validated_congr rfl ?_ htext.symm (htext.symm ▸ hblank) hfault
    rw [isUnresolved, hq, Bool.and_false]

end Plan

/-- What is known of a plan of a file by its schedule: a reference waits to be followed, and any other schedule was
validated. -/
theorem PlanFile.prepare_cases (r : Record) :
    (Reference.isReference r.schedule = true ∧ prepare r = r.toPlan ∧ r.toPlan.isUnresolved = true) ∨
    (Reference.isReference r.schedule = false ∧ prepare r = r.toPlan.validated ∧ r.toPlan.isUnresolved = false) := by
  have hopen : r.toPlan.isUnresolved = Reference.isReference r.schedule := rfl
  cases hreference : Reference.isReference r.schedule with
  | true =>
    refine Or.inl ⟨rfl, ?_, hopen.trans hreference⟩
    rw [prepare, if_pos (hopen.trans hreference)]
  | false =>
    have hresolved := hopen.trans hreference
    refine Or.inr ⟨rfl, ?_, hresolved⟩
    rw [prepare, hresolved, if_neg Bool.false_ne_true]
    rfl

@[simp] theorem PlanFile.configured_prepare (r : Record) : (prepare r).configured = r.schedule := by
  rcases prepare_cases r with ⟨-, h, -⟩ | ⟨-, h, -⟩
  · rw [h]
    rfl
  · rw [h, Plan.configured_validated]
    rfl

namespace Survey

/-! ### The two sources -/

variable {inventory : List Service} {tagged : List (Service × String)} {filed : List Plan}

/-- The plan that a filed one becomes. -/
def filedPlan (inventory : List Service) (tagged : List (Service × String)) (filed : List Plan) (p : Plan) : Plan :=
  if p.isUnresolved then ((checkExistence inventory p).resolve (lookup tagged filed)).validated
  else checkExistence inventory p

theorem filedPlans_eq_map : filedPlans inventory tagged filed = filed.map (filedPlan inventory tagged filed) := by
  refine List.map_congr_left fun p _ => ?_
  dsimp only
  rw [isUnresolved_checkExistence, filedPlan]

theorem checkExistence_eq (p : Plan) : checkExistence inventory p =
    { p with disabled := p.disabled || !inventory.contains p.service } := by
  unfold checkExistence
  split
  · rename_i hknown
    rw [hknown, Bool.not_true, Bool.or_false]
  · rename_i hgone
    rw [Bool.eq_false_iff.mpr hgone, Bool.not_false, Bool.or_true]

@[simp] theorem service_checkExistence (p : Plan) : (checkExistence inventory p).service = p.service := by
  unfold checkExistence
  split <;> rfl

@[simp] theorem configured_checkExistence (p : Plan) : (checkExistence inventory p).configured = p.configured := by
  unfold checkExistence
  split <;> rfl

theorem changes_checkExistence (p : Plan) : (checkExistence inventory p).changes = p.changes := by
  unfold checkExistence
  split <;> rfl

private theorem fault_checkExistence (p : Plan) : (checkExistence inventory p).fault = p.fault := by
  unfold checkExistence
  split <;> rfl

@[simp] theorem service_filedPlan (p : Plan) : (filedPlan inventory tagged filed p).service = p.service := by
  unfold filedPlan
  split
  · rw [Plan.service_validated, Plan.service_resolve, service_checkExistence]
  · exact service_checkExistence p

@[simp] theorem configured_filedPlan (p : Plan) :
    (filedPlan inventory tagged filed p).configured = p.configured := by
  unfold filedPlan
  split
  · rw [Plan.configured_validated, Plan.configured_resolve, configured_checkExistence]
  · exact configured_checkExistence p

theorem mem_taggedPlans {q : Plan} : q ∈ taggedPlans tagged filed ↔
    ∃ s value, (s, value) ∈ tagged ∧ overridden filed s = false ∧
      (Plan.resolve (lookup tagged filed) { service := s, configured := value }).isBare = false ∧
      (Plan.resolve (lookup tagged filed) { service := s, configured := value }).validated = q := by
  simp only [taggedPlans, List.mem_map, List.mem_filter, Bool.not_eq_true', Prod.exists]
  constructor
  · rintro ⟨p, ⟨⟨s, value, ⟨hmem, hover⟩, rfl⟩, hbare⟩, rfl⟩
    exact ⟨s, value, hmem, hover, hbare, rfl⟩
  · rintro ⟨s, value, hmem, hover, hbare, rfl⟩
    exact ⟨_, ⟨⟨s, value, ⟨hmem, hover⟩, rfl⟩, hbare⟩, rfl⟩

theorem overridden_iff {s : Service} : overridden filed s = true ↔ ∃ p ∈ filed, p.service = s := by
  simp only [overridden, List.any_eq_true, decide_eq_true_eq]

/-! ### The text under a name -/

/-- The services with a short name among those with tags and those with filed plans. -/
def bearers (tagged : List (Service × String)) (filed : List Plan) (name : String) : List Service :=
  (tagged.map (·.1) ++ filed.map (·.service)).filter (·.name = name)

private theorem mem_bearers {name : String} {s : Service} :
    s ∈ bearers tagged filed name ↔ ((∃ value, (s, value) ∈ tagged) ∨ ∃ p ∈ filed, p.service = s) ∧ s.name = name := by
  simp only [bearers, List.mem_filter, List.mem_append, List.mem_map, Prod.exists, exists_and_right, exists_eq_right,
    decide_eq_true_eq]

variable {name : String} {target : Service} (honly : ∀ s, s ∈ bearers tagged filed name ↔ s = target)

include honly in
private theorem filter_name_filed :
    (filed.filter fun p => p.service.name = name) = filed.filter (·.service = target) := by
  refine List.filter_congr fun p hp => ?_
  rw [decide_eq_decide]
  constructor
  · intro hname
    exact (honly p.service).mp (mem_bearers.mpr ⟨Or.inr ⟨p, hp, rfl⟩, hname⟩)
  · intro htarget
    exact (mem_bearers.mp ((honly p.service).mpr htarget)).2

include honly in
/-- The last filed plan of a service gives the text under its name. -/
theorem lookup_of_filed {p : Plan} (hp : (filed.filter (·.service = target)).getLast? = some p) :
    lookup tagged filed name = some p.configured := by
  rw [lookup, ← List.getLast?_filter, filter_name_filed honly, hp]

include honly in
/-- Without a filed plan it is the tag that gives the text. -/
theorem lookup_of_tagged (hover : overridden filed target = false) {value : String} (hmem : (target, value) ∈ tagged)
    (hvalue : ∀ a, (target, a) ∈ tagged → a = value) : lookup tagged filed name = some value := by
  have hnone : filed.filter (·.service = target) = [] := by
    rw [List.filter_eq_nil_iff]
    intro p hp htarget
    have hsome := overridden_iff.mpr ⟨p, hp, of_decide_eq_true htarget⟩
    rw [hover] at hsome
    cases hsome
  have hname : target.name = name := (mem_bearers.mp ((honly target).mpr rfl)).2
  rw [lookup, ← List.getLast?_filter, filter_name_filed honly, hnone]
  dsimp only [List.getLast?_nil]
  cases hfind : tagged.reverse.find? (·.1.name = name) with
  | none =>
    rw [List.find?_eq_none] at hfind
    have hmiss := hfind (target, value) (List.mem_reverse.mpr hmem)
    rw [decide_eq_true_eq] at hmiss
    exact absurd hname hmiss
  | some entry =>
    obtain ⟨s, a⟩ := entry
    have hentry := List.mem_reverse.mp (List.mem_of_find?_eq_some hfind)
    have hs := List.find?_some hfind
    rw [decide_eq_true_eq] at hs
    have htarget : s = target := (honly s).mp (mem_bearers.mpr ⟨Or.inl ⟨a, hentry⟩, hs⟩)
    subst htarget
    rw [Option.map_some, hvalue a hentry]

/-! ### The plan of the target -/

include honly in
/-- The text under the name is that of a plan whose validation gave the target its changes, if the target has no
reference itself. -/
private theorem exists_validated_of_target (hfiled : ∀ p ∈ filed, ∃ r, PlanFile.prepare r = p)
    (hvalue : ∀ a b, (target, a) ∈ tagged → (target, b) ∈ tagged → a = b) {plan : Plan}
    (hplan : ((ofSources inventory tagged filed).plans.filter (·.service = target)).getLast? = some plan)
    (hplain : Reference.isReference plan.configured = false) :
    ∃ q : Plan, q.resolved = none ∧ q.configured = plan.configured ∧ q.validated.fault = plan.fault ∧
      q.validated.changes = plan.changes ∧ lookup tagged filed name = some q.configured := by
  have hsplit : (ofSources inventory tagged filed).plans.filter (·.service = target) =
      (taggedPlans tagged filed).filter (·.service = target) ++
        (filed.filter (·.service = target)).map (filedPlan inventory tagged filed) := by
    have hservice : ((fun p : Plan => decide (p.service = target)) ∘ filedPlan inventory tagged filed) =
        fun p => decide (p.service = target) := by
      funext p
      simp only [Function.comp, service_filedPlan]
    rw [ofSources, filedPlans_eq_map, List.filter_append, List.filter_map, hservice]
  rw [hsplit, List.getLast?_append, List.getLast?_map] at hplan
  cases hlast : (filed.filter (·.service = target)).getLast? with
  | some p =>
    rw [hlast, Option.map_some, Option.some_or] at hplan
    cases hplan
    obtain ⟨r, rfl⟩ := hfiled p (List.mem_filter.mp (List.mem_of_getLast? hlast)).1
    have hlookup := lookup_of_filed honly hlast
    rw [configured_filedPlan, PlanFile.configured_prepare] at hplain
    rcases PlanFile.prepare_cases r with ⟨hreference, -⟩ | ⟨-, hprepare, hresolved⟩
    · rw [hplain] at hreference
      cases hreference
    · have hdone : (PlanFile.prepare r).isUnresolved = false := by
        rw [hprepare, Plan.isUnresolved_validated, hresolved]
      have hkept : filedPlan inventory tagged filed (PlanFile.prepare r) =
          checkExistence inventory (PlanFile.prepare r) := by
        rw [filedPlan, hdone, if_neg Bool.false_ne_true]
      refine ⟨r.toPlan, rfl, ?_, ?_, ?_, ?_⟩
      · rw [configured_filedPlan, PlanFile.configured_prepare]
        rfl
      · rw [hkept, fault_checkExistence, hprepare]
      · rw [hkept, changes_checkExistence, hprepare]
      · rw [hlookup, PlanFile.configured_prepare]
        rfl
  | none =>
    rw [hlast, Option.map_none, Option.none_or] at hplan
    obtain ⟨hmem, hservice⟩ := List.mem_filter.mp (List.mem_of_getLast? hplan)
    obtain ⟨s, value, hentry, hover, -, rfl⟩ := mem_taggedPlans.mp hmem
    have hs : s = target := by simpa using hservice
    subst hs
    rw [Plan.configured_validated, Plan.configured_resolve] at hplain
    have hkept : Plan.resolve (lookup tagged filed) { service := s, configured := value } =
        { service := s, configured := value } := by
      rw [Plan.resolve, Plan.isUnresolved, hplain, Bool.and_false, if_neg Bool.false_ne_true]
    have hlookup := lookup_of_tagged honly hover hentry fun a ha => hvalue a value ha hentry
    rw [hkept]
    exact ⟨{ service := s, configured := value }, rfl, (Plan.configured_validated _).symm, rfl, rfl, hlookup⟩

/-! ### The plans that refer to it -/

section Referring

variable {q : Plan} (hfound : lookup tagged filed name = some q.configured)
  (hplain : Reference.isReference q.configured = false) (hown : q.resolved = none)
  (hblank : Text.allBlank q.configured = false) (hfault : q.validated.fault = none)

include hfound hplain hown hblank hfault

private theorem changes_filedPlan {r : PlanFile.Record} (htarget : Reference.target? r.schedule = some name) :
    (filedPlan inventory tagged filed (PlanFile.prepare r)).changes = q.validated.changes := by
  have hreference : Reference.isReference r.schedule = true := Reference.isReference_of_target? htarget
  rcases PlanFile.prepare_cases r with ⟨-, hprepare, hopen⟩ | ⟨hnot, -⟩
  · have hchecked : (checkExistence inventory r.toPlan).isUnresolved = true :=
      (isUnresolved_checkExistence inventory r.toPlan).trans hopen
    have hname : Reference.target? (checkExistence inventory r.toPlan).configured = some name := by
      rw [configured_checkExistence]
      exact htarget
    rw [hprepare, filedPlan, if_pos hopen]
    exact (Plan.changes_of_found hchecked hname hfound hplain hown hblank hfault).2
  · rw [hreference] at hnot
    cases hnot

private theorem changes_tagged (s : Service) {value : String} (htarget : Reference.target? value = some name) :
    let p : Plan := Plan.resolve (lookup tagged filed) { service := s, configured := value }
    p.isBare = false ∧ p.validated.changes = q.validated.changes := by
  have hreference : Reference.isReference value = true := Reference.isReference_of_target? htarget
  exact Plan.changes_of_found hreference htarget hfound hplain hown hblank hfault

end Referring

/-- A plan with a reference has the changes of the plan that it refers to, whichever of the two sources they come from
and whatever records the plan file is decoded to. The service with the name is to be the only one, and its schedule a
text without a fault and not a reference itself. All plans that refer to it are there: those of the file, and those of
tags that no filed plan overrides. -/
theorem changes_of_reference {decode? : PlanFile.Format → String → Option (List PlanFile.Record)} {m : Manager σ}
    {tag profile : String} {file : Option FoundFile} {filed : List Plan} {x : σ} {v : Survey}
    (hfiled : (FoundFile.plansWith decode? profile file).value = .ok filed)
    (hcollect : (collect m tag filed x).value.1 = .ok v) {name : String} {target : Service}
    (honly : ∀ s, s ∈ bearers (tagsRead m tag x) filed name ↔ s = target)
    (hvalue : ∀ a b, (target, a) ∈ tagsRead m tag x → (target, b) ∈ tagsRead m tag x → a = b) {plan : Plan}
    (hplan : (v.plans.filter (·.service = target)).getLast? = some plan) (hfault : plan.fault = none)
    (hplain : Reference.isReference plan.configured = false) (hblank : Text.allBlank plan.configured = false) :
    (∀ p ∈ v.plans, Reference.target? p.configured = some name → p.changes = plan.changes) ∧
    (∀ p ∈ filed, Reference.target? p.configured = some name →
      ∃ p' ∈ v.plans, p'.service = p.service ∧ p'.configured = p.configured ∧ p'.changes = plan.changes) ∧
    ∀ s value, (s, value) ∈ tagsRead m tag x → overridden filed s = false → Reference.target? value = some name →
      ∃ p ∈ v.plans, p.service = s ∧ p.configured = value ∧ p.changes = plan.changes := by
  obtain ⟨inventory, rfl⟩ := eq_ofSources_of_collect hcollect
  have hrecords : ∀ p ∈ filed, ∃ r, PlanFile.prepare r = p := fun p hp => FoundFile.exists_record hfiled hp
  obtain ⟨q, hown, hconfigured, hqfault, hchanges, hfound⟩ :=
    exists_validated_of_target honly hrecords hvalue hplan hplain
  rw [← hconfigured] at hplain hblank
  rw [hfault] at hqfault
  rw [← hchanges]
  have hmem {p : Plan} (hp : p ∈ filed) : filedPlan inventory (tagsRead m tag x) filed p ∈
      (ofSources inventory (tagsRead m tag x) filed).plans := by
    rw [ofSources, filedPlans_eq_map]
    exact List.mem_append_right _ (List.mem_map_of_mem hp)
  refine ⟨fun p hp htarget => ?_, fun p hp htarget => ?_, fun s value hentry hover htarget => ?_⟩
  · rw [ofSources, filedPlans_eq_map] at hp
    rcases List.mem_append.mp hp with hp | hp
    · obtain ⟨s, value, -, -, -, rfl⟩ := mem_taggedPlans.mp hp
      rw [Plan.configured_validated, Plan.configured_resolve] at htarget
      exact (changes_tagged hfound hplain hown hblank hqfault s htarget).2
    · obtain ⟨own, hown', rfl⟩ := List.mem_map.mp hp
      obtain ⟨r, rfl⟩ := hrecords own hown'
      rw [configured_filedPlan, PlanFile.configured_prepare] at htarget
      exact changes_filedPlan hfound hplain hown hblank hqfault htarget
  · obtain ⟨r, rfl⟩ := hrecords p hp
    rw [PlanFile.configured_prepare] at htarget
    exact ⟨_, hmem hp, service_filedPlan _, configured_filedPlan _,
      changes_filedPlan hfound hplain hown hblank hqfault htarget⟩
  · obtain ⟨hbare, hsame⟩ := changes_tagged hfound hplain hown hblank hqfault s htarget
    refine ⟨_, List.mem_append_left _ (mem_taggedPlans.mpr ⟨s, value, hentry, hover, hbare, rfl⟩), ?_, ?_, hsame⟩
    · rw [Plan.service_validated, Plan.service_resolve]
    · rw [Plan.configured_validated, Plan.configured_resolve]

/-- A file gives one service its schedule, over a tag that would have it stopped, and another a reference to it. The tag
of a third refers to it as well. All three have the changes of the schedule. -/
theorem changes_of_reference_overridden :
    let schedule := "running=0 8 1. count=2."
    let f := ((Fleet.addTagged {} ⟨"shop/api"⟩ "offhours" "stopped=0 8 1.").addTagged ⟨"shop/web"⟩ "offhours"
      " @ api").addService ⟨"shop/mail"⟩
    let file : FoundFile := ⟨"plans.json", some ("[\x7b\"service\":\"shop/api\",\"schedule\":\"" ++ schedule ++
      "\"\x7d,\x7b\"service\":\"shop/mail\",\"schedule\":\"@api\"\x7d]").toUTF8⟩
    let filed : List Plan := [Plan.validated { service := ⟨"shop/api"⟩, configured := schedule },
      { service := ⟨"shop/mail"⟩, configured := "@api" }]
    let changes : List Change := [{ state := .running, count := 2, cron := "0 8 1", recurrence := ⟨0, 8, [1]⟩ }]
    ∃ v, (FoundFile.plans "default" (some file)).value = .ok filed ∧
      (collect Fleet.manager "offhours" filed f).value.1 = .ok v ∧
      (v.plans.map fun p => (p.service.path, p.configured)) =
        [("shop/web", " @ api"), ("shop/api", schedule), ("shop/mail", "@api")] ∧
      (∀ p ∈ v.plans, Reference.target? p.configured = some "api" → p.changes = changes) ∧
      (∃ p ∈ v.plans, p.service = ⟨"shop/mail"⟩ ∧ p.configured = "@api" ∧ p.changes = changes) ∧
      ∃ p ∈ v.plans, p.service = ⟨"shop/web"⟩ ∧ p.configured = " @ api" ∧ p.changes = changes := by
  intro schedule f file filed changes
  have hfiled : (FoundFile.plans "default" (some file)).value = .ok filed := by decide +kernel
  have htagged : tagsRead Fleet.manager "offhours" f =
      [(⟨"shop/api"⟩, "stopped=0 8 1."), (⟨"shop/web"⟩, " @ api")] := by decide +kernel
  have hbearers : bearers (tagsRead Fleet.manager "offhours" f) filed "api" = [⟨"shop/api"⟩, ⟨"shop/api"⟩] := by
    decide +kernel
  have honly (s : Service) : s ∈ bearers (tagsRead Fleet.manager "offhours" f) filed "api" ↔ s = ⟨"shop/api"⟩ := by
    rw [hbearers]
    simp
  have hvalue (a b : String) (ha : (⟨"shop/api"⟩, a) ∈ tagsRead Fleet.manager "offhours" f)
      (hb : (⟨"shop/api"⟩, b) ∈ tagsRead Fleet.manager "offhours" f) : a = b := by
    have ha : a = "stopped=0 8 1." := by simpa [htagged] using ha
    have hb : b = "stopped=0 8 1." := by simpa [htagged] using hb
    rw [ha, hb]
  have hplans : ((collect Fleet.manager "offhours" filed f).value.1.toOption.map fun v =>
      ((v.plans.map fun p => (p.service.path, p.configured)),
        (v.plans.filter (·.service = ⟨"shop/api"⟩)).getLast?)) =
      some ([("shop/web", " @ api"), ("shop/api", schedule), ("shop/mail", "@api")],
        some { service := ⟨"shop/api"⟩, configured := schedule, changes := changes }) := by decide +kernel
  cases hcollect : (collect Fleet.manager "offhours" filed f).value.1 with
  | error e =>
    rw [hcollect] at hplans
    cases hplans
  | ok v =>
    rw [hcollect] at hplans
    obtain ⟨hpaths, hplan⟩ := Prod.mk.inj (Option.some.inj hplans)
    obtain ⟨hall, hfile, htag⟩ :=
      changes_of_reference hfiled hcollect honly hvalue hplan rfl (by decide +kernel) (by decide +kernel)
    refine ⟨v, hfiled, rfl, hpaths, hall, ?_, ?_⟩
    · exact hfile _ (List.mem_cons_of_mem _ List.mem_cons_self) (by decide +kernel)
    · refine htag ⟨"shop/web"⟩ " @ api" ?_ (by decide +kernel) (by decide +kernel)
      rw [htagged]
      exact List.mem_cons_of_mem _ List.mem_cons_self

/-- Changes that are listed without a schedule text are not handed on: the plan that refers to them has none. -/
theorem changes_of_reference_listed :
    ¬∀ (tag profile : String) (file : Option FoundFile) (filed : List Plan) (f : Fleet) (v : Survey),
      (FoundFile.plans profile file).value = .ok filed → (collect Fleet.manager tag filed f).value.1 = .ok v →
      ∀ (name : String) (target : Service) (plan : Plan),
        (∀ s, s ∈ bearers (tagsRead Fleet.manager tag f) filed name ↔ s = target) →
        v.plans.filter (·.service = target) = [plan] → plan.fault = none →
        Reference.isReference plan.configured = false → plan.changes ≠ [] →
        ∀ p ∈ filed, p.service ≠ target → Reference.target? p.configured = some name →
          ∃ p' ∈ v.plans, p'.service = p.service ∧ p'.changes = plan.changes := by
  intro hhandedOn
  let f := (Fleet.addService {} ⟨"ops/api"⟩).addService ⟨"ops/batch"⟩
  let file : FoundFile := ⟨"plans.json", some ("[\x7b\"service\":\"ops/api\",\"state-changes\":" ++
    "[\x7b\"desired-state\":\"RUNNING\",\"desired-count\":2,\"cron\":\"0 8 1-5\"\x7d]\x7d," ++
    "\x7b\"service\":\"ops/batch\",\"schedule\":\"@api\"\x7d]").toUTF8⟩
  let api : Plan := { service := ⟨"ops/api"⟩, changes :=
    [{ state := .running, count := 2, cron := "0 8 1-5", recurrence := ⟨0, 8, [1, 2, 3, 4, 5]⟩ }] }
  let batch : Plan := { service := ⟨"ops/batch"⟩, configured := "@api" }
  have hfiled : (FoundFile.plans "default" (some file)).value = .ok [api, batch] := by decide +kernel
  have hcollect : (collect Fleet.manager "offhours" [api, batch] f).value.1 =
      .ok ⟨[api, { batch with resolved := some "" }], [⟨"ops/api"⟩, ⟨"ops/batch"⟩]⟩ := by decide +kernel
  have hbearers : bearers (tagsRead Fleet.manager "offhours" f) [api, batch] "api" = [⟨"ops/api"⟩] := by decide +kernel
  have honly (s : Service) :
      s ∈ bearers (tagsRead Fleet.manager "offhours" f) [api, batch] "api" ↔ s = ⟨"ops/api"⟩ := by
    rw [hbearers, List.mem_singleton]
  have hsame := hhandedOn "offhours" "default" (some file) [api, batch] f _ hfiled hcollect "api" ⟨"ops/api"⟩ api
    honly (by decide +kernel) rfl (by decide +kernel) (by decide +kernel) batch (by decide +kernel) (by decide +kernel)
    (by decide +kernel)
  exact absurd hsame (by decide +kernel)

end Survey

end ServiceHours
