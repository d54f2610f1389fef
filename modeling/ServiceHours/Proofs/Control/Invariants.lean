import ServiceHours.Proofs.Control.Agreement

/-!
# Invariants of runs

What every call to a manager keeps, whatever is built from these calls keeps: visiting a plan, a pass, and a change by
hand. The calls that count are those on the services that are dealt with.

* `Run.Keeps` says that a computation does not leave a set of states; `Manager.KeepsOn` says it of the calls that deal
  with one service.
* A run that keeps an invariant agrees with itself on the states that have it (`Run.keeps_iff_agree`). So what is known
  of runs that agree gives `Agenda.keeps_visit`, `Agenda.keeps_pass` and `Agenda.keeps_override`.
-/

namespace ServiceHours

variable {σ α : Type} {P : σ → Prop}

/-- The computation leads from states in `P` to states in `P`. -/
def Run.Keeps (P : σ → Prop) (x : Run σ α) : Prop :=
  ∀ s, P s → P (x s).value.2

/-- An invariant relates the states that have it, each to itself. -/
theorem Run.keeps_iff_agree {x : Run σ α} : Keeps P x ↔ Agree (fun s t => s = t ∧ P s) x x := by
  constructor
  · rintro h s t ⟨rfl, hs⟩
    exact ⟨rfl, rfl, h s hs⟩
  · intro h s hs
    exact (h s s ⟨rfl, hs⟩).2.2

/-- The calls of a manager that deal with the service `s` do not leave `P`. -/
structure Manager.KeepsOn (P : σ → Prop) (m : Manager σ) (s : Service) : Prop where
  describe : Run.Keeps P (m.describe s)
  setDesiredCount : ∀ count, Run.Keeps P (m.setDesiredCount s count)
  runningTasks : Run.Keeps P (m.runningTasks s)
  stopTask : ∀ task, Run.Keeps P (m.stopTask s task)

variable {m : Manager σ} {s : Service}

private theorem Manager.KeepsOn.agreeOn (h : m.KeepsOn P s) : m.AgreeOn (fun x y => x = y ∧ P x) m s where
  describe := Run.keeps_iff_agree.mp h.describe
  setDesiredCount count := Run.keeps_iff_agree.mp (h.setDesiredCount count)
  runningTasks := Run.keeps_iff_agree.mp h.runningTasks
  stopTask task := Run.keeps_iff_agree.mp (h.stopTask task)

namespace Agenda

theorem keeps_visit (a : Agenda) (now : Timestamp) (dryRun : Bool) {p : Plan} (h : m.KeepsOn P p.service) :
    Run.Keeps P (a.visit m now dryRun p) :=
  Run.keeps_iff_agree.mpr (agree_visit rfl now dryRun h.agreeOn)

theorem keeps_visitAll (a : Agenda) (now : Timestamp) (dryRun : Bool) {plans : List Plan}
    (h : ∀ p ∈ plans, m.KeepsOn P p.service) : Run.Keeps P (a.visitAll m now dryRun plans) :=
  Run.keeps_iff_agree.mpr (agree_visitAll fun p hp => agree_visit rfl now dryRun (h p hp).agreeOn)

theorem keeps_pass (a : Agenda) (now : Timestamp) (dryRun : Bool) (h : ∀ p ∈ a.plans, m.KeepsOn P p.service) :
    Run.Keeps P (a.pass m now dryRun) :=
  Run.keeps_iff_agree.mpr (agree_pass fun p hp => agree_visit rfl now dryRun (h p hp).agreeOn)

theorem keeps_override (a : Agenda) (mode service : String) {actions : Service → List Action}
    (h : m.KeepsOn P ⟨Text.trimmed service⟩) (hs : ∀ s, ∀ b ∈ actions s, b.service = s) :
    Run.Keeps P (a.override m mode service actions) :=
  Run.keeps_iff_agree.mpr (a.agree_override mode service h.agreeOn hs)

theorem keeps_start (a : Agenda) {service : String} (h : m.KeepsOn P ⟨Text.trimmed service⟩) :
    Run.Keeps P (a.start m service) :=
  a.keeps_override "start" service h fun _ _ => Decision.service_of_mem_actions

theorem keeps_stop (a : Agenda) {service : String} (h : m.KeepsOn P ⟨Text.trimmed service⟩) :
    Run.Keeps P (a.stop m service) :=
  a.keeps_override "stop" service h fun _ _ => Decision.service_of_mem_actions

theorem keeps_rescale (a : Agenda) {service : String} (count : Nat) (h : m.KeepsOn P ⟨Text.trimmed service⟩) :
    Run.Keeps P (a.rescale m service count) :=
  a.keeps_override "rescale" service h fun s b hb => by
    rw [List.mem_singleton] at hb
    rw [hb]
    rfl

end Agenda

end ServiceHours
