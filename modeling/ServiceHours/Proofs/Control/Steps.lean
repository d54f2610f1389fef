import ServiceHours.Control.Agenda

/-!
# The steps of a pass

What each part of a pass comes to, as an equation: the result and the state after it, whatever the manager is. The
journal is left out.

* `Manager.executeAll_cons_value` carries out the first of several actions;
* `Agenda.visit_value` lays out all ways through a visit;
* `Agenda.visitAll_cons_value` and `Agenda.pass_value` put the visits one after another; each plan has its outcome in
  its place (`Agenda.getElem?_visitAll`);
* changes by hand carry out a decision (`Agenda.override_value`, `Agenda.start_eq_override`).
-/

namespace ServiceHours

variable {σ : Type}

namespace Manager

theorem perform_value_of_isEmpty (m : Manager σ) {a : Action} (h : a.service.isEmpty = true) (x : σ) :
    (m.perform a x).value = (.error .missingService, x) := by
  unfold Manager.perform
  rw [if_pos h]
  rfl

theorem perform_setDesiredCount_value (m : Manager σ) {s : Service} (h : s.isEmpty = false) (count : Nat) (x : σ) :
    (m.perform (.setDesiredCount s count) x).value =
      ((m.setDesiredCount s count x).value.1.mapError .remote, (m.setDesiredCount s count x).value.2) := by
  have hname : ¬(Action.setDesiredCount s count).service.isEmpty = true := Bool.eq_false_iff.mp h
  unfold Manager.perform
  rw [if_neg hname]
  rfl

theorem perform_stopRunningTasks_value (m : Manager σ) {s : Service} (h : s.isEmpty = false) (x : σ) :
    (m.perform (.stopRunningTasks s) x).value =
      ((m.stopRunningTasks s x).value.1.mapError .remote, (m.stopRunningTasks s x).value.2) := by
  have hname : ¬(Action.stopRunningTasks s).service.isEmpty = true := Bool.eq_false_iff.mp h
  unfold Manager.perform
  rw [if_neg hname]
  rfl

/-- Actions after the first are carried out only if the first succeeds. -/
theorem executeAll_cons_value (m : Manager σ) (a : Action) (rest : List Action) (x : σ) :
    (m.executeAll (a :: rest) x).value =
      match (m.perform a x).value with
      | (.ok _, y) => (m.executeAll rest y).value
      | (.error e, y) => (.error e, y) := by
  have hexecute : (m.execute a x).value = (m.perform a x).value := rfl
  rw [executeAll, Run.bind_apply, hexecute]
  rcases (m.perform a x).value with ⟨_ | _, y⟩ <;> rfl

end Manager

namespace Agenda

theorem carryOut_value (m : Manager σ) (s : Service) (d : Decision) (x : σ) :
    (carryOut m s d x).value =
      match (m.executeAll (d.actions s) x).value with
      | (.ok _, y) => ({ service := s, decision := d, applied := true }, y)
      | (.error e, y) => ({ service := s, decision := d, error := some e.message }, y) := by
  rw [carryOut, Run.bind_apply]
  rcases (m.executeAll (d.actions s) x).value with ⟨_ | _, y⟩ <;> rfl

theorem carryOut_value_snd (m : Manager σ) (s : Service) (d : Decision) (x : σ) :
    (carryOut m s d x).value.2 = (m.executeAll (d.actions s) x).value.2 := by
  rw [carryOut_value]
  rcases (m.executeAll (d.actions s) x).value with ⟨_ | _, y⟩ <;> rfl

/-- The ways through a visit. -/
theorem visit_value (a : Agenda) (m : Manager σ) (now : Timestamp) (dryRun : Bool) (p : Plan) (x : σ) :
    (a.visit m now dryRun p x).value =
      if p.disabled then (skipped p .disabled, x)
      else match a.week.lastTransition p.service now with
        | none => (skipped p .unscheduled, x)
        | some t => match (m.describe p.service x).value with
          | (.error e, y) => (skipped p (.describeFailed e.message), y)
          | (.ok status, y) =>
            let d := Decision.ofStatus status t.state t.count (a.week.known p.service)
            if d.isChange && !dryRun then (carryOut m p.service d y).value
            else ({ service := p.service, decision := d }, y) := by
  unfold visit
  split
  · rfl
  · rcases a.week.lastTransition p.service now with - | t
    · rfl
    · dsimp only
      rw [Run.bind_apply]
      rcases (m.describe p.service x).value with ⟨_ | status, y⟩
      · rfl
      · dsimp only
        rw [Run.bind_apply]
        split <;> rfl

theorem service_visit (a : Agenda) (m : Manager σ) (now : Timestamp) (dryRun : Bool) (p : Plan) (x : σ) :
    (a.visit m now dryRun p x).value.1.service = p.service := by
  rw [visit_value]
  split
  · rfl
  · cases a.week.lastTransition p.service now with
    | none => rfl
    | some t =>
      dsimp only
      rcases (m.describe p.service x).value with ⟨e | status, y⟩
      · rfl
      · dsimp only
        split
        · rw [carryOut_value]
          rcases (m.executeAll _ y).value with ⟨_ | _, z⟩ <;> rfl
        · rfl

theorem visitAll_cons_value (a : Agenda) (m : Manager σ) (now : Timestamp) (dryRun : Bool) (p : Plan)
    (rest : List Plan) (x : σ) :
    (a.visitAll m now dryRun (p :: rest) x).value =
      ((a.visit m now dryRun p x).value.1 ::
          (a.visitAll m now dryRun rest (a.visit m now dryRun p x).value.2).value.1,
        (a.visitAll m now dryRun rest (a.visit m now dryRun p x).value.2).value.2) := rfl

/-- Each plan has its outcome, in the same place. -/
theorem map_service_visitAll (a : Agenda) (m : Manager σ) (now : Timestamp) (dryRun : Bool) (plans : List Plan)
    (x : σ) : (a.visitAll m now dryRun plans x).value.1.map (·.service) = plans.map (·.service) := by
  induction plans generalizing x with
  | nil => rfl
  | cons p rest ih => rw [visitAll_cons_value, List.map_cons, List.map_cons, a.service_visit, ih]

/-- The outcome of a plan is that of its visit after the visits before. -/
theorem getElem?_visitAll (a : Agenda) (m : Manager σ) (now : Timestamp) (dryRun : Bool) (before : List Plan)
    (p : Plan) (after : List Plan) (x : σ) :
    (a.visitAll m now dryRun (before ++ p :: after) x).value.1[before.length]? =
      some (a.visit m now dryRun p (a.visitAll m now dryRun before x).value.2).value.1 := by
  induction before generalizing x with
  | nil => rfl
  | cons q before ih =>
    rw [List.cons_append, visitAll_cons_value, visitAll_cons_value, List.length_cons, List.getElem?_cons_succ, ih]

theorem pass_value (a : Agenda) (m : Manager σ) (now : Timestamp) (dryRun : Bool) (x : σ) :
    (a.pass m now dryRun x).value = (a.visitAll m now dryRun a.plans x).value := rfl

/-- A change by hand needs a service to change. -/
theorem override_value (a : Agenda) (m : Manager σ) (mode service : String) (actions : Service → List Action) (x : σ) :
    (a.override m mode service actions x).value =
      if (⟨Text.trimmed service⟩ : Service).isEmpty then (.error .missingService, x)
      else (m.executeAll (actions ⟨Text.trimmed service⟩) x).value := by
  rw [override, Run.within_apply]
  dsimp only
  split <;> rfl

theorem start_eq_override (a : Agenda) (m : Manager σ) (service : String) :
    a.start m service = a.override m "start" service fun s => (Decision.start 1).actions s := rfl

theorem stop_eq_override (a : Agenda) (m : Manager σ) (service : String) :
    a.stop m service = a.override m "stop" service fun s => Decision.stop.actions s := rfl

/-- Rescaling by hand does what the decision to rescale does, whatever the count was before. -/
theorem rescale_eq_override (a : Agenda) (m : Manager σ) (service : String) (count : Nat) :
    a.rescale m service count = a.override m "rescale" service fun s => (Decision.rescale 0 count).actions s := rfl

end Agenda

end ServiceHours
