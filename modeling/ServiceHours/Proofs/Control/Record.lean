import ServiceHours.Proofs.Control.CallLog

/-!
# What the record of calls decides

A fleet records the calls it gets, and that is all it does with the record.

* Fleets that differ in nothing else (`Fleet.Alike`) answer every call alike and stay alike (`Fleet.agree_listServices`,
  `Fleet.agreeOn_alike`). Looking at a fleet leads to such a fleet (`Fleet.OnlyLooked.alike`).
* So they stay alike in every turn of a run (`Agenda.Turn.alike`, `Agenda.alike_turns`), and a pass has the same
  outcomes on both (`Agenda.pass_of_alike`).
-/

namespace ServiceHours

namespace Fleet

/-- The fleets differ in nothing but the record of calls. -/
def Alike (f g : Fleet) : Prop :=
  ∃ calls, g = { f with calls }

variable {f g : Fleet}

theorem OnlyLooked.alike (h : f.OnlyLooked g) : f.Alike g := by
  obtain ⟨calls, rfl, hcalls⟩ := h
  exact ⟨f.calls ++ calls, f.afterCalls_of_looking hcalls⟩

theorem agree_listServices (tag : Option String) :
    Run.Agree Alike (manager.listServices tag) (manager.listServices tag) := by
  rintro f _ ⟨calls, rfl⟩
  simp only [manager, Run.silent_apply, listServices]
  split <;> exact ⟨rfl, _, rfl⟩

/-- Calls on a service are answered alike by fleets that are alike. -/
theorem agreeOn_alike (s : Service) : manager.AgreeOn Alike manager s := by
  have hfind (f : Fleet) (calls : List Call) : ({ f with calls } : Fleet).find? s = f.find? s := rfl
  refine ⟨?_, fun count => ?_, ?_, fun task => ?_⟩
  all_goals rintro f _ ⟨calls, rfl⟩
  · simp only [manager, Run.silent_apply, describe, hfind]
    split
    · exact ⟨rfl, _, rfl⟩
    · split <;> exact ⟨rfl, _, rfl⟩
  · simp only [manager, Run.silent_apply, setDesiredCount, hfind]
    split
    · exact ⟨rfl, _, rfl⟩
    · split <;> exact ⟨rfl, _, rfl⟩
  · simp only [manager, Run.silent_apply, runningTasks, hfind]
    split <;> exact ⟨rfl, _, rfl⟩
  · simp only [manager, Run.silent_apply, stopTask, hfind]
    split
    · exact ⟨rfl, _, rfl⟩
    · split <;> exact ⟨rfl, _, rfl⟩

/-- What a fleet is told to show does not depend on the record. -/
private theorem Alike.after_of_quiet (h : f.Alike g) {move : Move} (hquiet : ∀ c, move ≠ .call c) :
    (f.after move).Alike (g.after move) := by
  obtain ⟨calls, rfl⟩ := h
  cases move with
  | call c => exact absurd rfl (hquiet c)
  | clearCalls => exact ⟨[], rfl⟩
  | _ => exact ⟨calls, rfl⟩

end Fleet

namespace Agenda

variable {f g : Fleet}

/-- A pass decides alike on fleets that are alike. -/
theorem pass_of_alike (a : Agenda) (h : f.Alike g) (now : Timestamp) (dryRun : Bool) :
    (a.pass Fleet.manager now dryRun f).value.1 = (a.pass Fleet.manager now dryRun g).value.1 ∧
      (a.pass Fleet.manager now dryRun f).value.2.Alike (a.pass Fleet.manager now dryRun g).value.2 :=
  agree_pass (fun p _ => agree_visit rfl now dryRun (Fleet.agreeOn_alike p.service)) f g h

/-- Each turn leads from fleets that are alike to such fleets. -/
theorem Turn.alike (a : Agenda) (h : f.Alike g) (turn : Turn) : (turn.after a f).Alike (turn.after a g) := by
  have hcalls := Fleet.agreeOn_alike
  cases turn with
  | plan now => exact (a.pass_of_alike h now true).2
  | apply now => exact (a.pass_of_alike h now false).2
  | start service =>
    exact (a.agree_override "start" service (hcalls _) (fun _ _ => Decision.service_of_mem_actions) f g h).2
  | stop service =>
    exact (a.agree_override "stop" service (hcalls _) (fun _ _ => Decision.service_of_mem_actions) f g h).2
  | rescale service count =>
    rw [after, after, rescale_eq_override]
    exact (a.agree_override "rescale" service (hcalls _) (fun _ _ => Decision.service_of_mem_actions) f g h).2
  | status now => exact (a.agree_status now (fun p _ => (hcalls p.service).describe) f g h).2
  | report now => exact (a.agree_report now (Fleet.agree_listServices none) f g h).2
  | script move quiet => exact h.after_of_quiet quiet

theorem alike_turns (a : Agenda) (h : f.Alike g) (turns : List Turn) :
    (turns.foldl (Turn.after a) f).Alike (turns.foldl (Turn.after a) g) := by
  induction turns generalizing f g with
  | nil => exact h
  | cons turn turns ih => exact ih (turn.alike a h)

end Agenda

end ServiceHours
