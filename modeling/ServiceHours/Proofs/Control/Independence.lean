import ServiceHours.Proofs.Control.Agreement
import ServiceHours.Proofs.Control.Steps
import ServiceHours.Proofs.Remote.Reachable
import ServiceHours.Proofs.Week.Sequence

/-!
# Independence of services

A pass over plans of different services does for each of them what it would do for this plan alone.

* `Fleet.SameFor` relates fleets that cannot be told apart by the calls on one service
  (`Fleet.agreeOn_manager`); calls on another service lead to such a fleet (`Fleet.SameFor.keepsOn`).
* A plan sees the table only where it has transitions of its service, and those are the plan's own
  (`Agenda.occurrencesOf_alone`).
* So each visit of a pass finds for its service what the first visit would have found, and later visits do not touch
  the result (`Agenda.visitAll_eq_map`). `Agenda.pass_independent` says this of whole passes.
-/

namespace ServiceHours

namespace Fleet

/-! ### Fleets that are the same for a service -/

/-- All that calls on the service `s` depend on is the same in `g` as in `f`. -/
structure SameFor (s : Service) (f g : Fleet) : Prop where
  find? : g.find? s = f.find? s
  failingDescribe : s ∈ g.failingDescribe ↔ s ∈ f.failingDescribe
  failingUpdate : s ∈ g.failingUpdate ↔ s ∈ f.failingUpdate
  keepsTasks : g.keepsTasks = f.keepsTasks

variable {s t : Service} {f g h : Fleet}

theorem SameFor.refl (s : Service) (f : Fleet) : f.SameFor s f :=
  ⟨rfl, Iff.rfl, Iff.rfl, rfl⟩

private theorem SameFor.trans (hfg : f.SameFor s g) (hgh : g.SameFor s h) : f.SameFor s h where
  find? := hgh.find?.trans hfg.find?
  failingDescribe := hgh.failingDescribe.trans hfg.failingDescribe
  failingUpdate := hgh.failingUpdate.trans hfg.failingUpdate
  keepsTasks := hgh.keepsTasks.trans hfg.keepsTasks

private theorem SameFor.record (hfg : f.SameFor s g) (c : Call) : (f.record c).SameFor s (g.record c) :=
  ⟨hfg.find?, hfg.failingDescribe, hfg.failingUpdate, hfg.keepsTasks⟩

private theorem SameFor.update (hfg : f.SameFor s g) (change : Hosted → Hosted) :
    (f.update s change).SameFor s (g.update s change) := by
  refine ⟨?_, hfg.failingDescribe, hfg.failingUpdate, hfg.keepsTasks⟩
  rw [find?_update_self, find?_update_self, hfg.find?]

/-- A call on another service, or on none, changes nothing for `s`. -/
private theorem sameFor_afterCall (f : Fleet) {c : Call} (hc : c.service? ≠ some s) : f.SameFor s (f.afterCall c) := by
  rcases f.afterCall_cases c with he | ⟨t, change, ht, he, -⟩
  · rw [he]
    exact ⟨rfl, Iff.rfl, Iff.rfl, rfl⟩
  · have hne : s ≠ t := fun hst => hc (hst ▸ ht)
    rw [he]
    exact ⟨find?_update_of_ne hne change, Iff.rfl, Iff.rfl, rfl⟩

theorem SameFor.keepsOn (h : t ≠ s) (f : Fleet) : manager.KeepsOn (f.SameFor s) t :=
  keepsOn_manager fun g _ hc hfg => hfg.trans (sameFor_afterCall g fun hs => h (Option.some.inj (hc.symm.trans hs)))

/-- Calls on a service are answered alike by fleets that are the same for it. -/
theorem agreeOn_manager (s : Service) : manager.AgreeOn (SameFor s) manager s := by
  have hdescribe {f g : Fleet} (hfg : f.SameFor s g) : g.failingDescribe.contains s = f.failingDescribe.contains s := by
    rw [Bool.eq_iff_iff, List.contains_iff_mem, List.contains_iff_mem, hfg.failingDescribe]
  have hupdate {f g : Fleet} (hfg : f.SameFor s g) : g.failingUpdate.contains s = f.failingUpdate.contains s := by
    rw [Bool.eq_iff_iff, List.contains_iff_mem, List.contains_iff_mem, hfg.failingUpdate]
  refine ⟨fun f g hfg => ?_, fun count f g hfg => ?_, fun f g hfg => ?_, fun task f g hfg => ?_⟩
  · have hrecord := hfg.record (.describe s)
    simp only [manager, Run.silent_apply, describe, hfg.find?, hdescribe hfg]
    split
    · exact ⟨rfl, hrecord⟩
    · split <;> exact ⟨rfl, hrecord⟩
  · have hrecord := hfg.record (.setDesiredCount s count)
    simp only [manager, Run.silent_apply, setDesiredCount, hfg.find?, hupdate hfg, hfg.keepsTasks]
    split
    · exact ⟨rfl, hrecord⟩
    · split
      · exact ⟨rfl, hrecord.update fun h => h.scale s count f.keepsTasks⟩
      · exact ⟨rfl, hrecord⟩
  · have hrecord := hfg.record (.runningTasks s)
    simp only [manager, Run.silent_apply, runningTasks, hfg.find?]
    split <;> exact ⟨rfl, hrecord⟩
  · have hrecord := hfg.record (.stopTask s task)
    simp only [manager, Run.silent_apply, stopTask, hfg.find?, hupdate hfg]
    split
    · exact ⟨rfl, hrecord⟩
    · split
      · exact ⟨rfl, hrecord.update fun h => h.endTask task⟩
      · exact ⟨rfl, hrecord⟩

end Fleet

namespace Agenda

variable {plans : List Plan}

/-! ### Plans by themselves -/

/-- The agenda of a single plan, with the inventory of the run. -/
def alone (profile : String) (inventory : List Service) (p : Plan) : Agenda :=
  ofSurvey profile { plans := [p], inventory := inventory }

private theorem filter_service_eq_singleton (hdistinct : plans.Pairwise fun p q => p.service ≠ q.service) {p : Plan}
    (hp : p ∈ plans) : plans.filter (·.service = p.service) = [p] := by
  induction plans with
  | nil => cases hp
  | cons q rest ih =>
    obtain ⟨hq, hrest⟩ := List.pairwise_cons.mp hdistinct
    rcases List.mem_cons.mp hp with rfl | hp
    · have hnone : rest.filter (·.service = p.service) = [] := by
        rw [List.filter_eq_nil_iff]
        intro r hr hsame
        exact hq r hr (of_decide_eq_true hsame).symm
      rw [List.filter_cons, if_pos (decide_eq_true rfl), hnone]
    · rw [List.filter_cons, if_neg (by simpa using hq p hp), ih hrest hp]

/-- Where no other plan has its service, a plan finds in the table what it brought there, marked as in a run of its
own. -/
theorem occurrencesOf_alone (hdistinct : plans.Pairwise fun p q => p.service ≠ q.service) (profile : String)
    (inventory : List Service) {p : Plan} (hp : p ∈ plans) :
    (ofSurvey profile { plans := plans, inventory := inventory }).week.occurrencesOf p.service =
      (alone profile inventory p).week.occurrencesOf p.service := by
  have hplans := Week.occurrencesOf_ofPlans_alone (filter_service_eq_singleton hdistinct hp)
  show ((Week.ofPlans plans).markKnown _).occurrencesOf _ = ((Week.ofPlans [p]).markKnown _).occurrencesOf _
  rw [Week.occurrencesOf_markKnown, Week.occurrencesOf_markKnown, hplans]
  rfl

/-! ### Visits and passes -/

/-- The visits of plans of different services, each with an agenda of its own in place of the shared one and from the
same fleet `f`. The visits begin at a fleet that is the same for each of the services. -/
theorem visitAll_eq_map {a : Agenda} {own : Plan → Agenda}
    (hdistinct : plans.Pairwise fun p q => p.service ≠ q.service)
    (hweek : ∀ p ∈ plans, a.week.occurrencesOf p.service = (own p).week.occurrencesOf p.service) (now : Timestamp)
    (dryRun : Bool) {f g : Fleet} (hsame : ∀ p ∈ plans, f.SameFor p.service g) :
    (a.visitAll Fleet.manager now dryRun plans g).value.1 =
        plans.map (fun p => ((own p).visit Fleet.manager now dryRun p f).value.1) ∧
      ∀ p ∈ plans, ((own p).visit Fleet.manager now dryRun p f).value.2.SameFor p.service
        (a.visitAll Fleet.manager now dryRun plans g).value.2 := by
  induction plans generalizing g with
  | nil => exact ⟨rfl, fun p hp => absurd hp List.not_mem_nil⟩
  | cons p rest ih =>
    obtain ⟨hp, hrest⟩ := List.pairwise_cons.mp hdistinct
    obtain ⟨houtcome, hfleet⟩ := agree_visit (hweek p List.mem_cons_self).symm now dryRun
      (Fleet.agreeOn_manager p.service) f g (hsame p List.mem_cons_self)
    -- The visit of `p` leaves the fleet as it was for the others, and their visits leave it for `p`.
    have hothers : ∀ q ∈ rest, f.SameFor q.service (a.visit Fleet.manager now dryRun p g).value.2 := fun q hq =>
      a.keeps_visit now dryRun (Fleet.SameFor.keepsOn (hp q hq) f) g (hsame q (List.mem_cons_of_mem p hq))
    obtain ⟨houtcomes, hfleets⟩ := ih hrest (fun q hq => hweek q (List.mem_cons_of_mem p hq)) hothers
    have hkept := a.keeps_visitAll now dryRun (fun q hq => Fleet.SameFor.keepsOn (hp q hq).symm
      ((own p).visit Fleet.manager now dryRun p f).value.2) _ hfleet
    rw [visitAll_cons_value, List.map_cons, houtcome, houtcomes]
    refine ⟨rfl, fun q hq => ?_⟩
    rcases List.mem_cons.mp hq with rfl | hq
    · exact hkept
    · exact hfleets q hq

/-- What comes of a plan that is visited by itself. -/
def visitAlone (profile : String) (inventory : List Service) (now : Timestamp) (dryRun : Bool) (f : Fleet) (p : Plan) :
    Outcome × Fleet :=
  ((alone profile inventory p).visit Fleet.manager now dryRun p f).value

section Passes

variable (profile : String) (inventory : List Service) (now : Timestamp) (dryRun : Bool) {f g : Fleet}

/-- A pass over plans of different services, from a fleet that is the same as `f` for each of them. -/
private theorem pass_eq_map (hdistinct : plans.Pairwise fun p q => p.service ≠ q.service)
    (hsame : ∀ p ∈ plans, f.SameFor p.service g) :
    let after := ((ofSurvey profile { plans := plans, inventory := inventory }).pass Fleet.manager now dryRun g).value
    after.1 = plans.map (fun p => (visitAlone profile inventory now dryRun f p).1) ∧
      ∀ p ∈ plans, (visitAlone profile inventory now dryRun f p).2.SameFor p.service after.2 :=
  visitAll_eq_map hdistinct (fun _ hp => occurrencesOf_alone hdistinct profile inventory hp) now dryRun hsame

private theorem pass_alone {p : Plan} (hsame : f.SameFor p.service g) :
    let after := ((alone profile inventory p).pass Fleet.manager now dryRun g).value
    after.1 = [(visitAlone profile inventory now dryRun f p).1] ∧
      (visitAlone profile inventory now dryRun f p).2.SameFor p.service after.2 := by
  obtain ⟨houtcomes, hfleets⟩ := pass_eq_map profile inventory now dryRun (List.pairwise_singleton _ p)
    fun q hq => (List.mem_singleton.mp hq) ▸ hsame
  exact ⟨houtcomes, hfleets p List.mem_cons_self⟩

/-- A service without a plan is left alone. -/
private theorem find?_pass_of_forall_ne (a : Agenda) {s : Service} (hs : ∀ p ∈ a.plans, p.service ≠ s) (f : Fleet) :
    (a.pass Fleet.manager now dryRun f).value.2.find? s = f.find? s :=
  (a.keeps_pass now dryRun (fun p hp => Fleet.SameFor.keepsOn (hs p hp) f) f (Fleet.SameFor.refl s f)).find?

/-- Plans in another order have the same outcomes and lead to the same services. -/
private theorem pass_perm (hdistinct : plans.Pairwise fun p q => p.service ≠ q.service) {others : List Plan}
    (hperm : others.Perm plans) (f : Fleet) :
    let pass (plans : List Plan) :=
      ((ofSurvey profile { plans := plans, inventory := inventory }).pass Fleet.manager now dryRun f).value
    (others.zip (pass others).1).Perm (plans.zip (pass plans).1) ∧
      ∀ s, (pass others).2.find? s = (pass plans).2.find? s := by
  intro pass
  have hdistinct' : others.Pairwise fun p q => p.service ≠ q.service :=
    (hperm.pairwise_iff fun hne => Ne.symm hne).mpr hdistinct
  obtain ⟨houtcomes, hfleets⟩ := pass_eq_map profile inventory now dryRun hdistinct fun p _ =>
    Fleet.SameFor.refl p.service f
  obtain ⟨houtcomes', hfleets'⟩ := pass_eq_map profile inventory now dryRun hdistinct' fun p _ =>
    Fleet.SameFor.refl p.service f
  constructor
  · rw [houtcomes, houtcomes', ← List.map_prod_left_eq_zip, ← List.map_prod_left_eq_zip]
    exact hperm.map _
  · intro s
    by_cases hs : ∃ p ∈ plans, p.service = s
    · obtain ⟨p, hp, rfl⟩ := hs
      exact (hfleets' p (hperm.mem_iff.mpr hp)).find?.trans (hfleets p hp).find?.symm
    · have hnone : ∀ p ∈ plans, p.service ≠ s := fun p hp he => hs ⟨p, hp, he⟩
      have hnone' : ∀ p ∈ others, p.service ≠ s := fun p hp => hnone p (hperm.mem_iff.mp hp)
      exact (find?_pass_of_forall_ne now dryRun _ hnone' f).trans
        (find?_pass_of_forall_ne now dryRun _ hnone f).symm

end Passes

/-- A pass over plans of different services is the product of the passes over each plan alone, on the same fleet and
with the same inventory: each outcome is the only one of the single pass, the service of each plan is left as the
single pass leaves it, and no other service is touched. A single pass depends on its own service only, and the order of
the plans does not matter. -/
theorem pass_independent (hdistinct : plans.Pairwise fun p q => p.service ≠ q.service) (profile : String)
    (inventory : List Service) (now : Timestamp) (dryRun : Bool) (f : Fleet) :
    let pass (plans : List Plan) (f : Fleet) :=
      ((ofSurvey profile { plans := plans, inventory := inventory }).pass Fleet.manager now dryRun f).value
    (pass plans f).1.map (fun o => [o]) = plans.map (fun p => (pass [p] f).1) ∧
      (∀ p ∈ plans, (pass plans f).2.find? p.service = (pass [p] f).2.find? p.service) ∧
      (∀ s, (∀ p ∈ plans, p.service ≠ s) → (pass plans f).2.find? s = f.find? s) ∧
      (∀ p ∈ plans, ∀ g, f.SameFor p.service g →
        (pass [p] g).1 = (pass [p] f).1 ∧ (pass [p] g).2.find? p.service = (pass [p] f).2.find? p.service) ∧
      ∀ others, others.Perm plans →
        (others.zip (pass others f).1).Perm (plans.zip (pass plans f).1) ∧
          ∀ s, (pass others f).2.find? s = (pass plans f).2.find? s := by
  intro pass
  have hrefl (s : Service) := Fleet.SameFor.refl s f
  obtain ⟨houtcomes, hfleets⟩ := pass_eq_map profile inventory now dryRun hdistinct fun p _ => hrefl p.service
  have hsingle (p : Plan) {g : Fleet} (hsame : f.SameFor p.service g) :
      (pass [p] g).1 = [(visitAlone profile inventory now dryRun f p).1] ∧
        (visitAlone profile inventory now dryRun f p).2.SameFor p.service (pass [p] g).2 :=
    pass_alone profile inventory now dryRun hsame
  refine ⟨?_, fun p hp => ?_, fun s hs => find?_pass_of_forall_ne now dryRun _ hs f, fun p _ g hsame => ?_,
    fun others hperm => pass_perm profile inventory now dryRun hdistinct hperm f⟩
  · show (pass plans f).1.map _ = _
    rw [houtcomes, List.map_map]
    exact List.map_congr_left fun p _ => (hsingle p (hrefl p.service)).1.symm
  · exact (hfleets p hp).find?.trans (hsingle p (hrefl p.service)).2.find?.symm
  · obtain ⟨houtcome, hfleet⟩ := hsingle p hsame
    obtain ⟨houtcome', hfleet'⟩ := hsingle p (hrefl p.service)
    exact ⟨houtcome.trans houtcome'.symm, hfleet.find?.trans hfleet'.find?.symm⟩

/-- One service cannot be scaled up and another is stopped, as in the passes over each plan alone. -/
theorem pass_independent_failing :
    let api : Service := ⟨"shop/api"⟩
    let web : Service := ⟨"shop/web"⟩
    let plans := [{ service := api, configured := "running=0 8 1. count=2." },
      { service := web, configured := "stopped=0 8 1." }].map Plan.validated
    let f := ((((Fleet.addService {} api).addService web).setRunning web 3).failUpdate api).keepTasks
    let now : Timestamp := ⟨1704099600, 0, 0⟩
    let pass (plans : List Plan) (f : Fleet) :=
      ((ofSurvey "default" { plans := plans, inventory := [api, web] }).pass Fleet.manager now false f).value
    (plans.Pairwise fun p q => p.service ≠ q.service) ∧
      (pass plans f).1.map (fun o => (o.decision, o.applied)) = [(.start 2, false), (.stop, true)] ∧
      (pass plans f).1.map (fun o => [o]) = plans.map (fun p => (pass [p] f).1) ∧
      ∀ p ∈ plans, (pass plans f).2.find? p.service = (pass [p] f).2.find? p.service := by
  intro api web plans f now pass
  have hdistinct : plans.Pairwise fun p q => p.service ≠ q.service := by decide +kernel
  have houtcomes : (pass plans f).1.map (fun o => (o.decision, o.applied)) = [(.start 2, false), (.stop, true)] := by
    decide +kernel
  obtain ⟨hproduct, hfleets, -⟩ := pass_independent hdistinct "default" [api, web] now false f
  exact ⟨hdistinct, houtcomes, hproduct, hfleets⟩

end Agenda

end ServiceHours
