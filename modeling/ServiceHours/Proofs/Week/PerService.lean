import ServiceHours.Proofs.Schedule.Validation
import ServiceHours.Proofs.Week.Sequence
import ServiceHours.Week.Transition
import ServiceHours.Week.Utilization

/-!
# One service of the table

What the table answers for a service depends on the plans of that service only.

* The last transition and the running time are read off the transitions of the service (`Week.lastTransition_congr`,
  `Week.runningMinutes_congr`, `Week.utilization_congr`).
* These are the same in any two tables whose plans for the service are the same in the same order, so plans of other
  services may come, go and change places (`Week.ofPlans_perService`).
-/

namespace ServiceHours

namespace Week

section Answers

variable {w w' : Week} {s : Service}

theorem lastTransition_congr (h : w.occurrencesOf s = w'.occurrencesOf s) (now : Timestamp) :
    w.lastTransition s now = w'.lastTransition s now := by
  simp only [lastTransition, h]

theorem runningMinutes_congr (h : w.occurrencesOf s = w'.occurrencesOf s) :
    w.runningMinutes s = w'.runningMinutes s := by
  simp only [runningMinutes, h]

theorem utilization_congr (h : w.occurrencesOf s = w'.occurrencesOf s) : w.utilization s = w'.utilization s := by
  simp only [utilization, runningMinutes_congr h]

end Answers

variable {plans others : List Plan} {s : Service}

private theorem occurrencesOf_ofPlans_congr (h : others.filter (·.service = s) = plans.filter (·.service = s)) :
    (ofPlans others).occurrencesOf s = (ofPlans plans).occurrencesOf s := by
  rw [← occurrencesOf_ofPlans_filter others, ← occurrencesOf_ofPlans_filter plans, h]

/-- Neighbours of different services may change places. -/
private theorem filter_service_swap {p q : Plan} (hne : p.service ≠ q.service) (front back : List Plan) (s : Service) :
    (front ++ q :: p :: back).filter (·.service = s) = (front ++ p :: q :: back).filter (·.service = s) := by
  rw [List.filter_append, List.filter_append]
  congr 1
  by_cases hp : p.service = s
  · have hq : q.service ≠ s := fun hq => hne (hp.trans hq.symm)
    simp [hp, hq]
  · simp [List.filter_cons, hp]

/-- The transitions of a service are those of the table of its own plans alone, in the same order. So with other plans
of other services, or with plans of different services in another order, all answers for the service stay the same. An
enabled plan that is the only one of its service runs it for the share of the week that the shared table tells. -/
theorem ofPlans_perService (plans : List Plan) :
    (∀ s, (ofPlans plans).occurrencesOf s = (ofPlans (plans.filter (·.service = s))).occurrencesOf s) ∧
    (∀ others s, others.filter (·.service = s) = plans.filter (·.service = s) →
      (ofPlans others).occurrencesOf s = (ofPlans plans).occurrencesOf s ∧
      (∀ now, (ofPlans others).lastTransition s now = (ofPlans plans).lastTransition s now) ∧
      (ofPlans others).runningMinutes s = (ofPlans plans).runningMinutes s ∧
      (ofPlans others).utilization s = (ofPlans plans).utilization s) ∧
    (∀ front p q back, plans = front ++ p :: q :: back → p.service ≠ q.service → ∀ s,
      (ofPlans (front ++ q :: p :: back)).occurrencesOf s = (ofPlans plans).occurrencesOf s ∧
      (∀ now, (ofPlans (front ++ q :: p :: back)).lastTransition s now = (ofPlans plans).lastTransition s now) ∧
      (ofPlans (front ++ q :: p :: back)).utilization s = (ofPlans plans).utilization s) ∧
    ∀ p : Plan, p.disabled = false → plans.filter (·.service = p.service) = [p] →
      p.utilization = (ofPlans plans).utilization p.service := by
  refine ⟨fun s => (occurrencesOf_ofPlans_filter plans s).symm, fun others s hsame => ?_,
    fun front p q back hplans hne s => ?_, fun p hdis honly => ?_⟩
  · have hoccurrences := occurrencesOf_ofPlans_congr hsame
    exact ⟨hoccurrences, lastTransition_congr hoccurrences, runningMinutes_congr hoccurrences,
      utilization_congr hoccurrences⟩
  · have hoccurrences := occurrencesOf_ofPlans_congr (filter_service_swap hne front back s)
    rw [← hplans] at hoccurrences
    exact ⟨hoccurrences, lastTransition_congr hoccurrences, utilization_congr hoccurrences⟩
  · have hown : p.utilization = (ofPlans [p]).utilization p.service := by
      rw [Plan.utilization, hdis, if_neg Bool.false_ne_true]
      rfl
    rw [hown]
    exact utilization_congr (occurrencesOf_ofPlans_alone honly)

/-- A shop has two plans for one service and one for another, all with transitions at eight on Monday. The service has
there what its own two plans ask for, whichever place the third one has among them. -/
theorem ofPlans_perService_shop :
    let api : Service := ⟨"shop/api"⟩
    let web : Service := ⟨"shop/web"⟩
    let plan (s : Service) (schedule : String) : Plan := Plan.validated { service := s, configured := schedule }
    let p := plan web "running=0 8 1. count=7. stopped=0 8 1."
    let q := plan api "stopped=0 8 1. running=0 8 1. count=2."
    let r := plan api "running=0 8 1. count=3. running=30 7 1. count=1."
    let plans := [p, q, r]
    let others := [q, r, p]
    others.filter (·.service = api) = plans.filter (·.service = api) ∧
      ((ofPlans others).occurrencesOf api).map (fun o => (o.minuteOfWeek, o.state, o.count)) =
        [(1890, .running, 1), (1920, .stopped, 0), (1920, .running, 2)] ∧
      (ofPlans others).occurrencesOf api = (ofPlans plans).occurrencesOf api ∧
      (∀ now, (ofPlans others).lastTransition api now = (ofPlans plans).lastTransition api now) ∧
      (ofPlans [q, p, r]).occurrencesOf web = (ofPlans plans).occurrencesOf web ∧
      p.utilization = (ofPlans plans).utilization p.service := by
  intro api web plan p q r plans others
  have hsame : others.filter (·.service = api) = plans.filter (·.service = api) := by decide +kernel
  have hother : ((ofPlans others).occurrencesOf api).map (fun o => (o.minuteOfWeek, o.state, o.count)) =
      [(1890, .running, 1), (1920, .stopped, 0), (1920, .running, 2)] := by decide +kernel
  have hne : p.service ≠ q.service := by decide +kernel
  have honly : plans.filter (·.service = p.service) = [p] := by decide +kernel
  have hdis : p.disabled = false := by decide +kernel
  obtain ⟨-, hkeep, hswap, halone⟩ := ofPlans_perService plans
  exact ⟨hsame, hother, (hkeep others api hsame).1, (hkeep others api hsame).2.1,
    (hswap [] p q [r] rfl hne web).1, halone p hdis honly⟩

end Week

end ServiceHours
