import Mathlib.Data.List.Forall2
import ServiceHours.Proofs.Control.References
import ServiceHours.Proofs.Remote.Reachable

/-!
# What a survey collects

A survey of a fleet has one plan for each service that carries the tag, unless a filed plan is there for the service or
the tag leads to no schedule, and one plan for each filed one.

* The tags that are read are those that the services carry, in the order of their paths (`Fleet.carriers`,
  `Survey.readTags_value`).
* A tagged plan keeps the value of the tag as its configured schedule (`Survey.FromTag`, `Survey.taggedPlans_eq_map`).
* A filed plan keeps its service and its configured schedule, and there are three reasons for which it is disabled
  (`Survey.FromFile`, `Survey.fromFile_filedPlan`).
-/

namespace ServiceHours

/-! ### One plan -/

namespace Plan

variable {p : Plan} {lookup : String → Option String}

/-- A plan whose reference was not followed before has the text that following it leads to. -/
private theorem scheduleText_resolve (h : p.resolved = none) :
    (p.resolve lookup).scheduleText = (Resolution.ofSchedule p.configured lookup).schedule := by
  have hopen : p.isUnresolved = Reference.isReference p.configured := by
    rw [isUnresolved, h, Option.isNone_none, Bool.true_and]
  rw [resolve, hopen]
  split
  · rename_i hreference
    rw [withResolution_of_reference hreference]
    rfl
  · rename_i hplain
    have htarget : Reference.target? p.configured = none := by
      rw [← Option.isNone_iff_eq_none, ← Option.not_isSome, Reference.isSome_target?]
      simpa using hplain
    rw [scheduleText, h, Option.getD_none, Resolution.ofSchedule, htarget, Resolution.schedule]

@[simp] theorem changes_resolve (p : Plan) (lookup : String → Option String) :
    (p.resolve lookup).changes = p.changes := by
  unfold resolve withResolution
  split
  · split <;> rfl
  · rfl

@[simp] theorem disabled_resolve (p : Plan) (lookup : String → Option String) :
    (p.resolve lookup).disabled = p.disabled := by
  unfold resolve withResolution
  split
  · split <;> rfl
  · rfl

@[simp] theorem scheduleText_validated (p : Plan) : p.validated.scheduleText = p.scheduleText := by
  unfold validated validate
  split <;> rfl

/-- Validation disables a plan exactly if it fails. -/
private theorem disabled_validated_iff :
    p.validated.disabled = true ↔ p.disabled = true ∨ ∃ e, p.validate.1 = .error e := by
  unfold validated validate
  split <;> simp

/-- A disabled plan is resolved as it would be otherwise. -/
private theorem resolve_disabled (p : Plan) (lookup : String → Option String) (disabled : Bool) :
    resolve lookup { p with disabled } = { p.resolve lookup with disabled } := by
  unfold resolve withResolution
  split
  · rename_i hopen
    rw [if_pos (show p.isUnresolved = true from hopen)]
    split <;> rfl
  · rename_i hdone
    rw [if_neg (show ¬p.isUnresolved = true from hdone)]

/-- It makes no difference to what validation finds, either. -/
private theorem validate_disabled (p : Plan) (disabled : Bool) : (validate { p with disabled }).1 = p.validate.1 := by
  have hsame : readChanges { p with disabled } = p.readChanges := rfl
  unfold validate
  rw [hsame]
  split <;> rfl

end Plan

/-! ### Services and tags -/

theorem mem_inventoryOf {s : Service} {services : List Service} : s ∈ inventoryOf services ↔ s ∈ services := by
  have hfold (known : List Service) : s ∈ services.foldl
      (fun known t => if known.contains t then known else insertBy Service.before t known) known ↔
        s ∈ known ∨ s ∈ services := by
    induction services generalizing known with
    | nil => simp
    | cons t services ih =>
      rw [List.foldl_cons, ih, List.mem_cons]
      split
      · rename_i hknown
        have ht : t ∈ known := List.contains_iff_mem.mp hknown
        constructor
        · exact Or.imp_right Or.inr
        · rintro (h | rfl | h)
          · exact Or.inl h
          · exact Or.inl ht
          · exact Or.inr h
      · rw [mem_insertBy, or_comm (a := s = t), or_assoc]
  rw [inventoryOf, hfold, or_iff_right List.not_mem_nil]

namespace Fleet

/-- The services that carry a tag, in the order of the fleet, each with the value of the tag. -/
def carriers (f : Fleet) (tag : String) : List (Service × String) :=
  f.services.filterMap fun entry => (entry.2.tag? tag).map (entry.1, ·)

/-- In a fleet in order, they stand in the order of their paths. -/
private theorem Ordered.pairwise_carriers {f : Fleet} (ho : f.Ordered) (tag : String) :
    (f.carriers tag).Pairwise fun a b => a.1.before b.1 = true := by
  refine List.pairwise_filterMap.mpr (List.Pairwise.imp (fun {a b} hab => ?_) ho)
  rintro _ ha _ hb
  obtain ⟨-, -, rfl⟩ := Option.map_eq_some_iff.mp ha
  obtain ⟨-, -, rfl⟩ := Option.map_eq_some_iff.mp hb
  exact hab

end Fleet

namespace Survey

variable {f : Fleet} {inventory : List Service} {tagged : List (Service × String)} {filed : List Plan}

/-- Reading the tags of services leaves out those that are not there or do not carry the tag. -/
theorem readTags_value (tag : String) (services : List Service) (f : Fleet) :
    (readTags Fleet.manager tag services f).value.1 =
      services.filterMap fun s => (f.find? s).bind fun h => (h.tag? tag).map (s, ·) := by
  induction services generalizing f with
  | nil => rfl
  | cons s rest ih =>
    -- Asking for a tag is recorded, and nothing else about the fleet changes.
    have hrest := ih (f.record (.tagValue s tag))
    have hvalue : Fleet.manager.tagValue s tag f = ⟨Fleet.tagValue s tag f, []⟩ := rfl
    rw [readTags, Run.bind_apply, hvalue, List.filterMap_cons]
    unfold Fleet.tagValue
    cases f.find? s with
    | none => exact hrest
    | some h =>
      dsimp only [Option.bind_some]
      cases h.tag? tag with
      | none => exact hrest
      | some value => exact congrArg _ hrest

/-- The services that a listing names with a tag are read as the carriers of the tag. -/
private theorem filterMap_tag? (ho : f.Ordered) (tag : String) :
    (((f.services.filter fun entry => (entry.2.tag? tag).isSome).map (·.1)).filterMap fun s =>
      (f.find? s).bind fun h => (h.tag? tag).map (s, ·)) = f.carriers tag := by
  rw [List.filterMap_map, List.filterMap_filter, Fleet.carriers]
  refine List.filterMap_congr fun entry hentry => ?_
  have hfind : f.find? entry.1 = some entry.2 := ho.find?_of_mem hentry
  rw [Function.comp_apply, hfind, Option.bind_some]
  cases entry.2.tag? tag <;> rfl

/-- A listing that fails ends the survey. -/
private theorem collect_of_failingList (tag : String) (filed : List Plan) (h : f.failingList = true) :
    (collect Fleet.manager tag filed f).value.1 = .error (.list Fleet.scriptedFailure) := by
  have hall : Fleet.manager.listServices none f = ⟨Fleet.listServices none f, []⟩ := rfl
  rw [collect, Run.bind_apply, hall, Fleet.listServices, if_pos h]
  rfl

/-- Otherwise the survey has the carriers of the tag and the filed plans as its sources. -/
private theorem collect_of_listed (ho : f.Ordered) (tag : String) (filed : List Plan) (h : f.failingList = false) :
    (collect Fleet.manager tag filed f).value.1 =
      .ok (ofSources (inventoryOf (f.services.map (·.1))) (f.carriers tag) filed) := by
  have hnot : ¬f.failingList = true := by rw [h]; exact Bool.false_ne_true
  have hall : Fleet.manager.listServices none f =
      ⟨(.ok (f.services.map (·.1)), f.record (.listServices none)), []⟩ := by
    show Logged.mk (Fleet.listServices none f) [] = _
    rw [Fleet.listServices, if_neg hnot]
    dsimp only
    rw [List.filter_true]
  have hcarriers : Fleet.manager.listServices (some tag) (f.record (.listServices none)) =
      ⟨(.ok ((f.services.filter fun entry => (entry.2.tag? tag).isSome).map (·.1)),
        (f.record (.listServices none)).record (.listServices (some tag))), []⟩ := by
    show Logged.mk (Fleet.listServices (some tag) (f.record (.listServices none))) [] = _
    rw [Fleet.listServices, if_neg (show ¬(f.record (.listServices none)).failingList = true from hnot)]
    rfl
  have htags := readTags_value tag ((f.services.filter fun entry => (entry.2.tag? tag).isSome).map (·.1))
    ((f.record (.listServices none)).record (.listServices (some tag)))
  rw [collect, Run.bind_apply, hall]
  dsimp only
  rw [Run.bind_apply, hcarriers]
  dsimp only
  rw [Run.bind_apply, htags]
  exact congrArg (fun tagged => Except.ok (ofSources _ tagged filed)) (filterMap_tag? ho tag)

/-! ### The plans of the two sources -/

/-- A plan that stands for a service with a tag. -/
structure FromTag (texts : String → Option String) (entry : Service × String) (p : Plan) : Prop where
  service : p.service = entry.1
  configured : p.configured = entry.2
  scheduleText : p.scheduleText = (Resolution.ofSchedule entry.2 texts).schedule
  disabled_iff : p.disabled = true ↔
    ∃ e, (Plan.resolve texts { service := entry.1, configured := entry.2 }).validate.1 = .error e

/-- A plan that stands for a filed one. -/
structure FromFile (inventory : List Service) (texts : String → Option String) (own p : Plan) : Prop where
  service : p.service = own.service
  configured : p.configured = own.configured
  scheduleText : p.scheduleText =
    if own.isUnresolved then (Resolution.ofSchedule own.configured texts).schedule else own.scheduleText
  disabled_iff : p.disabled = true ↔ own.disabled = true ∨ own.service ∉ inventory ∨
    own.isUnresolved = true ∧ ∃ e, (own.resolve texts).validate.1 = .error e

private theorem fromTag_validated (texts : String → Option String) (entry : Service × String) :
    FromTag texts entry (Plan.resolve texts { service := entry.1, configured := entry.2 }).validated where
  service := by rw [Plan.service_validated, Plan.service_resolve]
  configured := by rw [Plan.configured_validated, Plan.configured_resolve]
  scheduleText := by rw [Plan.scheduleText_validated, Plan.scheduleText_resolve rfl]
  disabled_iff := by rw [Plan.disabled_validated_iff, Plan.disabled_resolve, or_iff_right Bool.false_ne_true]

/-- The tagged plans, one for each tag that no filed plan overrides and that leads to a schedule. -/
theorem taggedPlans_eq_map : taggedPlans tagged filed =
    (tagged.filter fun entry => (∀ p ∈ filed, p.service ≠ entry.1) ∧
      Text.allBlank (Resolution.ofSchedule entry.2 (lookup tagged filed)).schedule = false).map fun entry =>
        (Plan.resolve (lookup tagged filed) { service := entry.1, configured := entry.2 }).validated := by
  rw [taggedPlans, List.filter_map, List.map_map, List.filter_filter]
  refine congrArg _ (List.filter_congr fun entry _ => ?_)
  have hbare : (Plan.resolve (lookup tagged filed) { service := entry.1, configured := entry.2 }).isBare =
      Text.allBlank (Resolution.ofSchedule entry.2 (lookup tagged filed)).schedule := by
    rw [Plan.isBare, Plan.scheduleText_resolve rfl, Plan.changes_resolve, List.isEmpty_nil, Bool.and_true]
  have hover : overridden filed entry.1 = false ↔ ∀ p ∈ filed, p.service ≠ entry.1 := by
    rw [← Bool.not_eq_true, overridden_iff]
    simp only [not_exists, not_and, ne_eq]
  rw [Bool.eq_iff_iff, decide_eq_true_eq, ← hover, Function.comp_apply, hbare, Bool.and_eq_true, Bool.not_eq_true',
    Bool.not_eq_true', and_comm]

/-- A filed plan stays what it was, but for its schedule if it is a reference; it is disabled for three reasons. -/
theorem fromFile_filedPlan (own : Plan) :
    FromFile inventory (lookup tagged filed) own (filedPlan inventory tagged filed own) where
  service := service_filedPlan own
  configured := configured_filedPlan own
  scheduleText := by
    rw [filedPlan, checkExistence_eq]
    split
    · rename_i hopen
      have hresolved : own.resolved = none := Option.isNone_iff_eq_none.mp (Bool.and_eq_true_iff.mp hopen).1
      rw [Plan.scheduleText_validated, Plan.resolve_disabled]
      exact Plan.scheduleText_resolve hresolved
    · rfl
  disabled_iff := by
    have hchecked : (own.disabled || !inventory.contains own.service) = true ↔
        own.disabled = true ∨ own.service ∉ inventory := by
      rw [Bool.or_eq_true, Bool.not_eq_true', ← Bool.not_eq_true, List.contains_iff_mem]
    rw [filedPlan, checkExistence_eq, ← or_assoc, ← hchecked]
    split
    · rename_i hopen
      rw [Plan.disabled_validated_iff, Plan.disabled_resolve, Plan.resolve_disabled, Plan.validate_disabled, hopen,
        and_iff_right rfl]
    · rename_i hdone
      rw [Bool.not_eq_true] at hdone
      rw [hdone, or_iff_left (fun h => Bool.false_ne_true h.1)]

/-- Under a name stands the schedule of the last filed plan with this name, or else that of the last tag. -/
private theorem lookup_eq_getLast? (name : String) : lookup tagged filed name =
    ((filed.filter (·.service.name = name)).getLast?.map Plan.configured).or
      ((tagged.filter (·.1.name = name)).getLast?.map (·.2)) := by
  rw [lookup, ← List.getLast?_filter, ← List.getLast?_filter]
  cases (filed.filter (·.service.name = name)).getLast? with
  | none => rfl
  | some p => rfl

/-- The plans of a survey, if the listing does not fail. First come those of the services that carry the tag, in the
order of their paths: one for each that has no filed plan and whose tag leads to a schedule that is not blank. Then
come the filed plans, one for each, in the order of the file. A reference leads to the schedule of the last filed plan
with the name, or else to the last tag. -/
theorem collect_exact (ho : f.Ordered) (tag : String) (filed : List Plan) :
    let texts := lookup (f.carriers tag) filed
    (f.failingList = true → (collect Fleet.manager tag filed f).value.1 = .error (.list Fleet.scriptedFailure)) ∧
    (f.failingList = false → ∃ fromTags fromFile inventory,
      (collect Fleet.manager tag filed f).value.1 = .ok ⟨fromTags ++ fromFile, inventory⟩ ∧
      List.Forall₂ (FromTag texts) ((f.carriers tag).filter fun entry => (∀ p ∈ filed, p.service ≠ entry.1) ∧
        Text.allBlank (Resolution.ofSchedule entry.2 texts).schedule = false) fromTags ∧
      List.Forall₂ (FromFile inventory texts) filed fromFile ∧
      ∀ s, s ∈ inventory ↔ s ∈ f.services.map (·.1)) ∧
    (f.carriers tag).Pairwise (fun a b => a.1.before b.1 = true) ∧
    ∀ name, texts name = ((filed.filter (·.service.name = name)).getLast?.map Plan.configured).or
      (((f.carriers tag).filter (·.1.name = name)).getLast?.map (·.2)) := by
  intro texts
  refine ⟨collect_of_failingList tag filed, fun hlisted => ?_, ho.pairwise_carriers tag, lookup_eq_getLast?⟩
  refine ⟨_, _, _, collect_of_listed ho tag filed hlisted, ?_, ?_, fun s => mem_inventoryOf⟩
  · rw [taggedPlans_eq_map, List.forall₂_map_right_iff, List.forall₂_same]
    exact fun entry _ => fromTag_validated texts entry
  · rw [filedPlans_eq_map, List.forall₂_map_right_iff, List.forall₂_same]
    exact fun own _ => fromFile_filedPlan own

/-- A filed plan for a service that does not exist is disabled, but its short name is that of a tagged service. The tag
that refers to the name leads to the filed schedule, and a blank tag makes no plan. -/
theorem collect_exact_collision :
    let f := ((Fleet.addTagged {} ⟨"shop/web"⟩ "offhours" "@ api").addTagged ⟨"shop/idle"⟩ "offhours" " ").addTagged
      ⟨"shop/api"⟩ "offhours" "stopped=0 18 1."
    let filed : List Plan := [{ service := ⟨"dev/api"⟩, configured := "running=0 8 1." }]
    f.Ordered ∧ f.failingList = false ∧ ∃ api web dev inventory,
      (collect Fleet.manager "offhours" filed f).value.1 = .ok ⟨[api, web, dev], inventory⟩ ∧
      api.service = ⟨"shop/api"⟩ ∧ api.scheduleText = "stopped=0 18 1." ∧
      web.service = ⟨"shop/web"⟩ ∧ web.configured = "@ api" ∧ web.scheduleText = "running=0 8 1." ∧
      dev.service = ⟨"dev/api"⟩ ∧ dev.disabled = true := by
  intro f filed
  have ho : f.Ordered := by decide +kernel
  obtain ⟨-, hlisted, -, -⟩ := collect_exact ho "offhours" filed
  obtain ⟨fromTags, fromFile, inventory, hcollect, htags, hfile, hinventory⟩ := hlisted rfl
  have hkept : ((f.carriers "offhours").filter fun entry => (∀ p ∈ filed, p.service ≠ entry.1) ∧ Text.allBlank
      (Resolution.ofSchedule entry.2 (lookup (f.carriers "offhours") filed)).schedule = false) =
        [(⟨"shop/api"⟩, "stopped=0 18 1."), (⟨"shop/web"⟩, "@ api")] := by decide +kernel
  rw [hkept] at htags
  rcases htags with - | ⟨hapi, - | ⟨hweb, - | -⟩⟩
  obtain ⟨dev, _, hdev, hrest, rfl⟩ := List.forall₂_cons_left_iff.mp hfile
  cases List.forall₂_nil_left_iff.mp hrest
  have hgone : ⟨"dev/api"⟩ ∉ inventory := fun hmem => absurd ((hinventory _).mp hmem) (by decide +kernel)
  refine ⟨ho, rfl, _, _, _, inventory, hcollect, hapi.service, hapi.scheduleText.trans (by decide +kernel),
    hweb.service, hweb.configured, hweb.scheduleText.trans (by decide +kernel), hdev.service, ?_⟩
  exact hdev.disabled_iff.mpr (Or.inr (Or.inl hgone))

end Survey

end ServiceHours
