import ServiceHours.Proofs.Control.Visit
import ServiceHours.Proofs.Week.Latest

/-!
# Convergence of passes

A pass that carries its decisions out brings each service to where its last transition asks it to be, and a second
pass finds nothing to do.

* `Agenda.visitAll_of_idle`: a service all of whose plans are idle is left alone for the whole pass;
* `Agenda.idle_visitAll`: a pass without an error for a service leaves its plans idle;
* `Agenda.settled_of_mem`: an outcome that is neither a skip nor an error tells that the service has arrived;
* `Agenda.apply_converges` puts these together. The second pass may come later, in a quiet time.

A service may have several plans. They share its last transition, so what one visit brings about suits them all.
-/

namespace ServiceHours

namespace Fleet

/-- From `f` to `g` the service `s` was left alone: it did not change, and no call was made to change it. -/
structure Spared (s : Service) (f g : Fleet) : Prop where
  find? : g.find? s = f.find? s
  calls : f.Called (fun c => c.service? = some s → c.isMutation = false) g

private theorem Spared.refl (s : Service) (f : Fleet) : f.Spared s f :=
  ⟨rfl, .none rfl⟩

private theorem Spared.trans {s : Service} {f g h : Fleet} (hfg : f.Spared s g) (hgh : g.Spared s h) : f.Spared s h :=
  ⟨hgh.find?.trans hfg.find?, hfg.calls.trans hgh.calls⟩

private theorem Looked.spared {q : Service} {f g : Fleet} (h : f.Looked q g) (s : Service) : f.Spared s g := by
  rcases h with rfl | rfl
  · exact Spared.refl s g
  · exact ⟨rfl, f.called_record fun _ => rfl⟩

private theorem LocalTo.spared {q s : Service} {f g : Fleet} (h : f.LocalTo q g) (hne : q ≠ s) : f.Spared s g := by
  refine ⟨h.find?_of_ne s (Ne.symm hne), h.calls.mono fun c hq hs => ?_⟩
  rw [hq, Option.some.injEq] at hs
  exact absurd hs hne

/-- From `f` to `g` the service `s` did not change, or its state is known. -/
def SameOrKnown (s : Service) (f g : Fleet) : Prop :=
  g.find? s = f.find? s ∨ ∀ h, g.find? s = some h → h.state ≠ .unknown

end Fleet

namespace Agenda

variable {a : Agenda} {now : Timestamp} {f : Fleet} {p : Plan} {s : Service} {t : Transition} {h : Hosted}

/-! ### Visits in turn -/

/-- A service all of whose plans are idle is left alone. -/
theorem visitAll_of_idle (hf : f.Orderly) {plans : List Plan} (hi : ∀ p ∈ plans, p.service = s → a.Idle now f p) :
    (∀ o ∈ (a.visitAll Fleet.manager now false plans f).value.1, o.service = s → o.decision.isChange = false) ∧
      f.Spared s (a.visitAll Fleet.manager now false plans f).value.2 := by
  induction plans generalizing f with
  | nil => exact ⟨fun _ ho => absurd ho List.not_mem_nil, Fleet.Spared.refl s f⟩
  | cons p rest ih =>
    -- Whatever the first visit does, it leaves the plans of `s` idle for the others.
    obtain ⟨hrest, hspared⟩ := ih (a.orderly_visit now hf p) fun q hq hs =>
      (hi q (List.mem_cons_of_mem p hq) hs).visit hf p
    rw [visitAll_cons_value]
    by_cases hs : p.service = s
    · obtain ⟨hchange, hlook⟩ := visit_of_idle hf (hi p List.mem_cons_self hs)
      refine ⟨fun o ho hso => ?_, (hlook.spared s).trans hspared⟩
      rcases List.mem_cons.mp ho with rfl | ho
      · exact hchange
      · exact hrest o ho hso
    · refine ⟨fun o ho hso => ?_, ((a.localTo_visit now f p).spared hs).trans hspared⟩
      rcases List.mem_cons.mp ho with rfl | ho
      · exact absurd ((a.service_visit Fleet.manager now false p f).symm.trans hso) hs
      · exact hrest o ho hso

private theorem Idle.visitAll (hi : a.Idle now f p) (hf : f.Orderly) (plans : List Plan) :
    a.Idle now (a.visitAll Fleet.manager now false plans f).value.2 p := by
  induction plans generalizing f with
  | nil => exact hi
  | cons q rest ih => exact ih (hi.visit hf q) (a.orderly_visit now hf q)

/-- Visits without an error for a service leave its plans idle. -/
theorem idle_visitAll (hf : f.Orderly) {plans : List Plan}
    (herror : ∀ o ∈ (a.visitAll Fleet.manager now false plans f).value.1, o.service = s → o.error = none) :
    ∀ p ∈ plans, p.service = s → a.Idle now (a.visitAll Fleet.manager now false plans f).value.2 p := by
  induction plans generalizing f with
  | nil => exact fun p hp => absurd hp List.not_mem_nil
  | cons q rest ih =>
    rw [visitAll_cons_value] at herror ⊢
    have hf' := a.orderly_visit now hf q
    intro p hp hs
    rcases List.mem_cons.mp hp with rfl | hp
    · have hnone := herror _ List.mem_cons_self ((a.service_visit Fleet.manager now false p f).trans hs)
      exact (idle_of_visit hf hnone).visitAll hf' rest
    · exact ih hf' (fun o ho => herror o (List.mem_cons_of_mem _ ho)) p hp hs

/-! ### Arrival -/

/-- No visit hides the state of a service. -/
private theorem sameOrKnown_visit {g : Fleet} (hk : f.SameOrKnown s g) (a : Agenda) (now : Timestamp) (hg : g.Orderly)
    (p : Plan) : f.SameOrKnown s (a.visit Fleet.manager now false p g).value.2 := by
  have of_same {g' : Fleet} (hsame : g'.find? s = g.find? s) : f.SameOrKnown s g' := by
    unfold Fleet.SameOrKnown
    rw [hsame]
    exact hk
  have hlocal := a.localTo_visit now g p
  have hv := a.visited now hg p
  generalize (a.visit Fleet.manager now false p g).value = r at hlocal hv ⊢
  by_cases hs : s = p.service
  · subst hs
    cases hv with
    | unseen _ hlook => exact of_same (hlook.find? _)
    | rested _ _ => exact of_same rfl
    | failed hface _ _ _ hsame => exact of_same (hsame.trans hface.hosted.symm)
    | changed _ _ hafter hmeets =>
      refine Or.inr fun h hh => ?_
      cases hafter.symm.trans hh
      exact hmeets.state_ne_unknown
  · exact of_same (hlocal.find?_of_ne s hs)

/-- What a pass brings about for a service with the last transition `t`, from `f` to `g`. -/
structure Settled (s : Service) (t : Transition) (f g : Fleet) : Prop where
  /-- A service of unknown state that is to be stopped is left as it was. -/
  untouched : ∀ h, f.find? s = some h → h.state = .unknown → t.state = .stopped → g.find? s = some h
  /-- Any other is described as the transition asks. -/
  arrived : (∀ h, f.find? s = some h → h.state = .unknown → t.state ≠ .stopped) →
    ∃ h, g.find? s = some h ∧ (Fleet.describe s g).1 = .ok h.status ∧ h.Meets t

/-- A service of unknown state that is to be stopped is left alone. -/
private theorem find?_visitAll_of_unknown (hf : f.Orderly) (ht : a.week.lastTransition s now = some t)
    (hs : f.find? s = some h) (hunknown : h.state = .unknown) (hstop : t.state = .stopped) (plans : List Plan) :
    (a.visitAll Fleet.manager now false plans f).value.2.find? s = some h := by
  have hidle : ∀ p ∈ plans, p.service = s → a.Idle now f p := by
    rintro p - rfl t' h' hface
    cases ht.symm.trans hface.transition
    cases hs.symm.trans hface.hosted
    exact Decision.isChange_ofStatus_of_unknown hunknown hstop
  rw [(visitAll_of_idle hf hidle).2.find?]
  exact hs

/-- An outcome that is neither a skip nor an error tells that the service has arrived. The visits began at `f`, those
that are left begin at `g`. -/
private theorem arrived_of_mem {g : Fleet} (hk : f.SameOrKnown s g) (hg : g.Orderly) {plans : List Plan} {o : Outcome}
    (ho : o ∈ (a.visitAll Fleet.manager now false plans g).value.1) (hs : o.service = s) (herror : o.error = none)
    (hskip : ∀ reason, o.decision ≠ .skip reason) :
    ∃ t, a.week.lastTransition s now = some t ∧ s ∉ g.failingDescribe ∧
      ((∀ h, f.find? s = some h → h.state = .unknown → t.state ≠ .stopped) →
        ∃ h, (a.visitAll Fleet.manager now false plans g).value.2.find? s = some h ∧ h.Meets t) := by
  induction plans generalizing g with
  | nil => exact absurd ho List.not_mem_nil
  | cons p rest ih =>
    have hg' := a.orderly_visit now hg p
    have hlocal := a.localTo_visit now g p
    rw [visitAll_cons_value] at ho ⊢
    rcases List.mem_cons.mp ho with rfl | ho
    · -- The outcome of this visit: it brought the service there, and the other visits find its plans idle.
      obtain rfl := (a.service_visit Fleet.manager now false p g).symm.trans hs
      obtain ⟨t, h, hface, hafter⟩ := meets_of_visit hg herror hskip
      refine ⟨t, hface.transition, hface.described, fun hnot => ?_⟩
      rcases hafter with ⟨hunknown, hstop⟩ | ⟨h', hh', hmeets⟩
      · -- The state is unknown now, so it was when the visits began.
        rcases hk with hsame | hknown
        · exact absurd hstop (hnot h (hsame.symm.trans hface.hosted) hunknown)
        · exact absurd hunknown (hknown h hface.hosted)
      · have hidle : ∀ q ∈ rest, q.service = p.service →
            a.Idle now (a.visit Fleet.manager now false p g).value.2 q := by
          intro q _ hq
          rw [← hq] at hh'
          exact idle_of_meets (hq ▸ hface.transition) hh' hmeets
        refine ⟨h', ?_, hmeets⟩
        rw [(visitAll_of_idle hg' hidle).2.find?]
        exact hh'
    · obtain ⟨t, ht, hfail, harrived⟩ := ih (sameOrKnown_visit hk a now hg p) hg' ho
      exact ⟨t, ht, hlocal.failingDescribe ▸ hfail, harrived⟩

private theorem failingDescribe_visitAll (a : Agenda) (now : Timestamp) (f : Fleet) (plans : List Plan) :
    (a.visitAll Fleet.manager now false plans f).value.2.failingDescribe = f.failingDescribe := by
  have hkeeps (q : Service) : Fleet.manager.KeepsOn (fun g => g.failingDescribe = f.failingDescribe) q :=
    Fleet.keepsOn_manager fun g c hc h => (Fleet.localTo_afterCall g hc).failingDescribe.trans h
  exact a.keeps_visitAll now false (fun p _ => hkeeps p.service) f rfl

theorem settled_of_mem (hf : f.Orderly) {plans : List Plan} {o : Outcome}
    (ho : o ∈ (a.visitAll Fleet.manager now false plans f).value.1) (herror : o.error = none)
    (hskip : ∀ reason, o.decision ≠ .skip reason) :
    ∃ t, a.week.lastTransition o.service now = some t ∧
      Settled o.service t f (a.visitAll Fleet.manager now false plans f).value.2 := by
  obtain ⟨t, ht, hfail, harrived⟩ := arrived_of_mem (f := f) (Or.inl rfl) hf ho rfl herror hskip
  refine ⟨t, ht, fun h hh hunknown hstop => find?_visitAll_of_unknown hf ht hh hunknown hstop plans, fun hnot => ?_⟩
  obtain ⟨h, hh, hmeets⟩ := harrived hnot
  rw [← a.failingDescribe_visitAll now f plans] at hfail
  exact ⟨h, hh, by simp [Fleet.describe, hfail, hh], hmeets⟩

/-! ### Two passes -/

/-- The agenda was made from plans, or from a survey. -/
def IsBuilt (a : Agenda) : Prop :=
  (∃ profile plans, a = .ofPlans profile plans) ∨ ∃ profile v, a = .ofSurvey profile v

private theorem IsBuilt.sound_timely (ha : a.IsBuilt) (hp : ∀ p ∈ a.plans, p.Parsed) :
    a.week.Sound ∧ a.week.Timely := by
  rcases ha with ⟨profile, plans, rfl⟩ | ⟨profile, v, rfl⟩
  · exact ⟨Week.sound_ofPlans plans, Week.timely_ofPlans hp⟩
  · show ((Week.ofPlans v.plans).markKnown v.knows).Sound ∧ ((Week.ofPlans v.plans).markKnown v.knows).Timely
    rw [Week.ofPlans_eq_ofSteps, Week.markKnown_ofSteps]
    refine ⟨Week.sound_ofSteps _, Week.timely_ofSteps fun p hadd => hp p ?_⟩
    show p ∈ v.plans
    simpa using hadd

/-- In a quiet time an idle plan stays idle. -/
private theorem Idle.of_quiet (hi : a.Idle now f p) (ha : a.IsBuilt) (hp : ∀ q ∈ a.plans, q.Parsed) {later : Timestamp}
    (hoffset : later.offset = now.offset) (hle : now.noLater later = true) (hquiet : a.week.Quiet p.service now later) :
    a.Idle later f p := by
  obtain ⟨hs, ht⟩ := ha.sound_timely hp
  intro t h hface
  have htransition := hface.transition
  rw [Week.lastTransition_eq_of_quiet hs ht hoffset hle hquiet] at htransition
  exact hi t h ⟨hface.enabled, htransition, hface.described, hface.hosted⟩

/-- On a reachable fleet that scales at once, a pass brings every service whose outcome is neither a skip nor an error
to where its last transition asks it to be. A second pass, at the same time or after a quiet time, leaves each service
alone that had no error in the first. -/
theorem apply_converges (ha : a.IsBuilt) (hp : ∀ p ∈ a.plans, p.Parsed) (hf : f.Reachable)
    (hkeeps : f.keepsTasks = false) (now : Timestamp) :
    let first := (a.apply Fleet.manager now f).value
    first.1.map (·.service) = a.plans.map (·.service) ∧
      (∀ o ∈ first.1, (∀ reason, o.decision ≠ .skip reason) → o.error = none →
        ∃ t, a.week.lastTransition o.service now = some t ∧ Settled o.service t f first.2) ∧
      ∀ later, later.offset = now.offset → now.noLater later = true →
        let second := (a.apply Fleet.manager later first.2).value
        ∀ s, a.week.Quiet s now later → (∀ o ∈ first.1, o.service = s → o.error = none) →
          (∀ o ∈ second.1, o.service = s → o.decision = .noOp ∨ ∃ reason, o.decision = .skip reason) ∧
          ∃ calls, second.2.calls = first.2.calls ++ calls ∧
            ∀ c ∈ calls, c.service? = some s → c.isMutation = false := by
  have horderly : f.Orderly := ⟨hf.consistent, hkeeps⟩
  have hfirst : (a.apply Fleet.manager now f).value.2.Orderly :=
    a.keeps_pass now false (fun p _ => Fleet.Orderly.keepsOn p.service) f horderly
  refine ⟨a.map_service_visitAll Fleet.manager now false a.plans _, fun o ho hskip herror => ?_, ?_⟩
  · exact settled_of_mem horderly ho herror hskip
  · intro later hoffset hle second s hquiet herror
    have hidle : ∀ p ∈ a.plans, p.service = s → a.Idle later (a.apply Fleet.manager now f).value.2 p := by
      intro p hmem hs
      exact (idle_visitAll horderly herror p hmem hs).of_quiet ha hp hoffset hle (hs ▸ hquiet)
    obtain ⟨hrest, hspared⟩ := visitAll_of_idle hfirst hidle
    exact ⟨fun o ho hs => Decision.isChange_eq_false_iff.mp (hrest o ho hs), hspared.calls⟩

/-- On a Monday after eight a stopped service comes to run with two tasks and a running one is stopped; an hour later
there is nothing left to do. -/
theorem apply_converges_monday :
    let api : Service := ⟨"shop/api"⟩
    let web : Service := ⟨"shop/web"⟩
    let a := Agenda.ofPlans "default" ([{ service := api, configured := "running=0 8 1. count=2." },
      { service := web, configured := "stopped=0 8 1." }].map Plan.validated)
    let f := ((Fleet.addService {} api).addService web).setRunning web 3
    let now : Timestamp := ⟨1704099600, 0, 0⟩
    let later : Timestamp := ⟨1704103200, 0, 0⟩
    let first := (a.apply Fleet.manager now f).value
    a.IsBuilt ∧ (∀ p ∈ a.plans, p.Parsed) ∧ f.Reachable ∧ f.keepsTasks = false ∧
      first.1 = [{ service := api, decision := .start 2, applied := true },
        { service := web, decision := .stop, applied := true }] ∧
      (∃ h, first.2.find? api = some h ∧ h.state = .running ∧ h.tasks.length = 2) ∧
      (∃ h, first.2.find? web = some h ∧ h.state = .stopped ∧ h.tasks = []) ∧
      later.offset = now.offset ∧ now.noLater later = true ∧ a.week.Quiet api now later ∧
      ∀ o ∈ (a.apply Fleet.manager later first.2).value.1, o.service = api →
        o.decision = .noOp ∨ ∃ reason, o.decision = .skip reason := by
  intro api web a f now later first
  have ha : a.IsBuilt := Or.inl ⟨_, _, rfl⟩
  have hp : ∀ p ∈ a.plans, p.Parsed := Plan.forall_parsed_validated _
  have hf : f.Reachable :=
    ((Fleet.Reachable.initial.step (.addService api)).step (.addService web)).step (.setRunning web 3)
  have houtcomes : first.1 = [{ service := api, decision := .start 2, applied := true },
      { service := web, decision := .stop, applied := true }] := by decide +kernel
  have hquiet : a.week.Quiet api now later := by
    have htable : a.week.occurrencesOf api = [⟨⟨api, 8, 0, .running, 2, "0 8 1", true⟩, 1⟩] := by decide +kernel
    intro o ho day _ hcome
    rw [htable, List.mem_singleton] at ho
    subst ho
    rw [Timestamp.noLater_iff] at hcome ⊢
    simp only [Occurrence.onDate, Timestamp.ofLocal, Switch.minuteOfDay, secondsPerDay, now, later] at hcome ⊢
    omega
  have hrun : a.week.lastTransition api now = some ⟨api, .running, 2, ⟨1704096000, 0, 0⟩⟩ := by decide +kernel
  have hstop : a.week.lastTransition web now = some ⟨web, .stopped, 0, ⟨1704096000, 0, 0⟩⟩ := by decide +kernel
  obtain ⟨-, hsettled, hsecond⟩ := apply_converges ha hp hf rfl now
  obtain ⟨t, ht, hsettledApi⟩ := hsettled { service := api, decision := .start 2, applied := true }
    (houtcomes ▸ List.mem_cons_self) (fun _ h => by cases h) rfl
  obtain ⟨u, hu, hsettledWeb⟩ := hsettled { service := web, decision := .stop, applied := true }
    (houtcomes ▸ List.mem_cons_of_mem _ List.mem_cons_self) (fun _ h => by cases h) rfl
  cases hrun.symm.trans ht
  cases hstop.symm.trans hu
  obtain ⟨x, hx, -, hmeets⟩ := hsettledApi.arrived fun _ _ _ h => by cases h
  have hseen : (f.find? web).map (·.state) = some .running := by decide +kernel
  obtain ⟨y, hy, -, hmeets'⟩ := hsettledWeb.arrived fun h hh hunknown => by
    rw [show f.find? web = some h from hh, Option.map_some, hunknown] at hseen
    cases hseen
  refine ⟨ha, hp, hf, rfl, houtcomes, ⟨x, hx, hmeets.running rfl⟩, ⟨y, hy, hmeets'.stopped rfl⟩, rfl, rfl, hquiet,
    (hsecond later rfl rfl api hquiet fun o ho _ => ?_).1⟩
  rw [houtcomes] at ho
  rcases List.mem_cons.mp ho with rfl | ho
  · rfl
  · rw [List.mem_singleton.mp ho]

end Agenda

end ServiceHours
