import ServiceHours.Proofs.Control.Independence
import ServiceHours.Proofs.Control.Looking
import Mathlib.Data.List.Forall2

/-!
# Previews

A dry run shows what a pass at the same time would decide, and it changes nothing.

* `Agenda.Look` stands for the operations that only show something. Any sequence of them leaves a fleet as it was, but
  for the record of calls (`Agenda.onlyLooked_looks`).
* For one plan a dry run has the outcome of a real visit, without what came of carrying it out
  (`Agenda.visit_dryRun`). This is so for every manager.
* A pass looks at a service after it changed others, a dry run before it changes any. For plans of different services
  this makes no difference, so a dry run previews the whole pass (`Agenda.plan_previews_apply`).
-/

namespace ServiceHours

variable {σ : Type}

/-- The outcome as it stands before anything is carried out. -/
def Outcome.preview (o : Outcome) : Outcome :=
  { o with applied := false, error := none }

/-- The outcomes are for the same service and show the same decision, with its reason and its actions. -/
structure Outcome.SameDecision (o o' : Outcome) : Prop where
  service : o.service = o'.service
  decision : o.decision = o'.decision
  justification : o.justification = o'.justification
  actions : o.actions = o'.actions

private theorem Outcome.sameDecision_preview (o : Outcome) : o.preview.SameDecision o :=
  ⟨rfl, rfl, rfl, rfl⟩

/-- After looking a fleet is the same for every service. -/
theorem Fleet.OnlyLooked.sameFor {f g : Fleet} (h : f.OnlyLooked g) (s : Service) : f.SameFor s g := by
  obtain ⟨calls, rfl, hcalls⟩ := h
  rw [f.afterCalls_of_looking hcalls]
  exact ⟨rfl, Iff.rfl, Iff.rfl, rfl⟩

namespace Agenda

/-! ### Operations that only show something -/

/-- An operation that only shows something. -/
inductive Look
  | plan (now : Timestamp)
  | schedule (now : Timestamp)
  | report (now : Timestamp)
  | status (now : Timestamp)

/-- The fleet after such an operation. -/
def Look.after (a : Agenda) (f : Fleet) : Look → Fleet
  | plan now => (a.plan Fleet.manager now f).value.2
  | schedule now => (a.schedule now f).value.2
  | report now => (a.report Fleet.manager now f).value.2
  | status now => (a.status Fleet.manager now f).value.2

private theorem onlyLooked_look (a : Agenda) (f : Fleet) (look : Look) : f.OnlyLooked (look.after a f) := by
  cases look with
  | plan now => exact f.onlyLooked_plan a now
  | schedule now => exact Fleet.OnlyLooked.refl f
  | report now => exact f.onlyLooked_report a now
  | status now => exact f.onlyLooked_status a now

theorem onlyLooked_looks (a : Agenda) (f : Fleet) (looks : List Look) :
    f.OnlyLooked (looks.foldl (Look.after a) f) := by
  induction looks generalizing f with
  | nil => exact Fleet.OnlyLooked.refl f
  | cons look looks ih => exact (a.onlyLooked_look f look).trans (ih _)

/-! ### Dry runs -/

theorem preview_carryOut (m : Manager σ) (s : Service) (d : Decision) (x : σ) :
    (carryOut m s d x).value.1.preview = { service := s, decision := d } := by
  rw [carryOut_value]
  rcases (m.executeAll (d.actions s) x).value with ⟨_ | _, y⟩ <;> rfl

/-- From the same state a dry run and a real visit decide alike, and a dry run shows the decision only. -/
theorem visit_dryRun (a : Agenda) (m : Manager σ) (now : Timestamp) (p : Plan) (x : σ) :
    (a.visit m now true p x).value.1 = (a.visit m now false p x).value.1.preview := by
  rw [visit_value, visit_value]
  split
  · rfl
  · rcases a.week.lastTransition p.service now with - | t
    · rfl
    · dsimp only
      rcases (m.describe p.service x).value with ⟨_ | status, y⟩
      · rfl
      · dsimp only
        rw [Bool.not_true, Bool.and_false, if_neg Bool.false_ne_true]
        split
        · exact (preview_carryOut m p.service _ y).symm
        · rfl

variable {a : Agenda}

/-- The outcomes of a pass over plans of different services are those of visits that all begin at the same fleet. The
pass may begin at any fleet that looks the same to each of the services. -/
private theorem pass_eq_map_visit (hdistinct : a.plans.Pairwise fun p q => p.service ≠ q.service) (now : Timestamp)
    (dryRun : Bool) {f g : Fleet} (hsame : ∀ p ∈ a.plans, f.SameFor p.service g) :
    (a.pass Fleet.manager now dryRun g).value.1 =
      a.plans.map fun p => (a.visit Fleet.manager now dryRun p f).value.1 := by
  have hvisits := @visitAll_eq_map a.plans a (fun _ => a) hdistinct (fun _ _ => rfl) now dryRun f g hsame
  exact hvisits.1

/-- A dry run foretells the pass that follows it, and so it does if between the two more is looked at. -/
private theorem plan_eq_preview_apply (hdistinct : a.plans.Pairwise fun p q => p.service ≠ q.service) (now : Timestamp)
    {f g : Fleet} (hlooked : f.OnlyLooked g) :
    (a.plan Fleet.manager now f).value.1 = (a.apply Fleet.manager now g).value.1.map Outcome.preview := by
  have hplan := pass_eq_map_visit hdistinct now true fun p _ => Fleet.SameFor.refl p.service f
  have happly := pass_eq_map_visit hdistinct now false fun p _ => hlooked.sameFor p.service
  rw [plan, apply, hplan, happly, List.map_map]
  exact List.map_congr_left fun p _ => a.visit_dryRun Fleet.manager now p f

/-- What only shows something changes nothing of a fleet but its record of calls, and it records no call that is made to
change something. A dry run previews the pass that follows at the same time: for plans of different services it has the
outcomes of the pass, in the same order and with the same decisions, reasons and actions, but none is carried out. -/
theorem plan_previews_apply (a : Agenda) (f : Fleet) :
    (∀ looks : List Look, ∃ calls, looks.foldl (Look.after a) f = { f with calls := f.calls ++ calls } ∧
      ∀ s, (∀ count, Call.setDesiredCount s count ∉ calls) ∧ ∀ task, Call.stopTask s task ∉ calls) ∧
    ((a.plans.Pairwise fun p q => p.service ≠ q.service) → ∀ now,
      let planned := (a.plan Fleet.manager now f).value
      let applied := (a.apply Fleet.manager now planned.2).value
      planned.1 = applied.1.map Outcome.preview ∧ List.Forall₂ Outcome.SameDecision planned.1 applied.1) := by
  constructor
  · intro looks
    obtain ⟨calls, hafter, hcalls⟩ := a.onlyLooked_looks f looks
    refine ⟨calls, hafter.trans (f.afterCalls_of_looking hcalls), fun s => ⟨fun count hmem => ?_, fun task hmem => ?_⟩⟩
    · cases hcalls _ hmem
    · cases hcalls _ hmem
  · intro hdistinct now planned applied
    have hpreview : planned.1 = applied.1.map Outcome.preview :=
      plan_eq_preview_apply hdistinct now (f.onlyLooked_plan a now)
    refine ⟨hpreview, ?_⟩
    rw [hpreview, List.forall₂_map_left_iff, List.forall₂_same]
    exact fun o _ => o.sameDecision_preview

/-- One service cannot be scaled up and another keeps tasks until each is ended: the dry run shows a start and a stop,
and of the pass after it only the stop is carried out. -/
theorem plan_previews_apply_failing :
    let api : Service := ⟨"shop/api"⟩
    let web : Service := ⟨"shop/web"⟩
    let a : Agenda := .ofPlans "default" ([{ service := api, configured := "running=0 8 1. count=2." },
      { service := web, configured := "stopped=0 8 1." }].map Plan.validated)
    let f := ((((Fleet.addService {} api).addService web).setRunning web 3).failUpdate api).keepTasks
    let now : Timestamp := ⟨1704099600, 0, 0⟩
    let planned := (a.plan Fleet.manager now f).value
    let applied := (a.apply Fleet.manager now planned.2).value
    (a.plans.Pairwise fun p q => p.service ≠ q.service) ∧
      planned.1.map (fun o => (o.decision, o.applied)) = [(.start 2, false), (.stop, false)] ∧
      applied.1.map (fun o => (o.decision, o.applied)) = [(.start 2, false), (.stop, true)] ∧
      planned.1 = applied.1.map Outcome.preview ∧ List.Forall₂ Outcome.SameDecision planned.1 applied.1 := by
  intro api web a f now planned applied
  have hdistinct : a.plans.Pairwise fun p q => p.service ≠ q.service := by decide +kernel
  have hplanned : planned.1.map (fun o => (o.decision, o.applied)) = [(.start 2, false), (.stop, false)] := by
    decide +kernel
  have happlied : applied.1.map (fun o => (o.decision, o.applied)) = [(.start 2, false), (.stop, true)] := by
    decide +kernel
  exact ⟨hdistinct, hplanned, happlied, (plan_previews_apply a f).2 hdistinct now⟩

end Agenda

end ServiceHours
