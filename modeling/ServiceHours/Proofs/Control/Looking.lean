import ServiceHours.Proofs.Control.Invariants
import ServiceHours.Proofs.Remote.CallSequence
import ServiceHours.View.Status

/-!
# Looking only

Dry runs and views describe services and list them, and make no other call.

* Managers that agree on these calls agree on them (`Agenda.agree_plan`, `Agenda.agree_status`,
  `Agenda.agree_report`), and what these calls keep, they keep.
* So on a fleet they only look (`Fleet.OnlyLooked`): no call is made to change anything.
-/

namespace ServiceHours

namespace Agenda

section Agree

variable {σ τ : Type} {R : σ → τ → Prop} {m : Manager σ} {m' : Manager τ} {plans : List Plan}

theorem agree_plan (a : Agenda) (now : Timestamp)
    (h : ∀ p ∈ a.plans, Run.Agree R (m.describe p.service) (m'.describe p.service)) :
    Run.Agree R (a.plan m now) (a.plan m' now) :=
  agree_pass fun p hp => agree_visit_of rfl now (h p hp) nofun

private theorem agree_observe {s : Service} (h : Run.Agree R (m.describe s) (m'.describe s)) :
    Run.Agree R (observe m s) (observe m' s) := by
  refine h.bind fun described => ?_
  cases described with
  | ok status => exact Run.agree_pure _
  | error e => exact (Run.agree_pure _).after_tell _ _

private theorem agree_statusRows (now : Timestamp)
    (h : ∀ p ∈ plans, Run.Agree R (m.describe p.service) (m'.describe p.service)) :
    Run.Agree R (statusRows m now plans) (statusRows m' now plans) := by
  induction plans with
  | nil => exact Run.agree_pure _
  | cons p rest ih =>
    refine (agree_observe (h p List.mem_cons_self)).bind fun _ => Run.Agree.after_tell ?_ _ _
    exact (ih fun q hq => h q (List.mem_cons_of_mem p hq)).bind fun _ => Run.agree_pure _

theorem agree_status (a : Agenda) (now : Timestamp)
    (h : ∀ p ∈ a.plans, Run.Agree R (m.describe p.service) (m'.describe p.service)) :
    Run.Agree R (a.status m now) (a.status m' now) :=
  Run.Agree.within ((agree_statusRows now h).bind fun _ => (Run.agree_pure _).after_tell _ _) _ _

theorem agree_report (a : Agenda) (now : Timestamp) (h : Run.Agree R (m.listServices none) (m'.listServices none)) :
    Run.Agree R (a.report m now) (a.report m' now) := by
  refine Run.Agree.within (h.bind fun listed => ?_) _ _
  cases listed with
  | error e => exact Run.agree_pure _
  | ok services => exact ((Run.agree_pure _).after_tell _ _).after_tell _ _

end Agree

variable {σ : Type} {P : σ → Prop} {m : Manager σ}

private theorem keeps_plan (a : Agenda) (now : Timestamp) (h : ∀ p ∈ a.plans, Run.Keeps P (m.describe p.service)) :
    Run.Keeps P (a.plan m now) :=
  Run.keeps_iff_agree.mpr (a.agree_plan now fun p hp => Run.keeps_iff_agree.mp (h p hp))

private theorem keeps_status (a : Agenda) (now : Timestamp) (h : ∀ p ∈ a.plans, Run.Keeps P (m.describe p.service)) :
    Run.Keeps P (a.status m now) :=
  Run.keeps_iff_agree.mpr (a.agree_status now fun p hp => Run.keeps_iff_agree.mp (h p hp))

private theorem keeps_report (a : Agenda) (now : Timestamp) (h : Run.Keeps P (m.listServices none)) :
    Run.Keeps P (a.report m now) :=
  Run.keeps_iff_agree.mpr (a.agree_report now (Run.keeps_iff_agree.mp h))

end Agenda

/-! ### Fleets -/

namespace Fleet

/-- From `f` to `g` calls were made, but none to change anything. -/
def OnlyLooked (f g : Fleet) : Prop :=
  ∃ calls, g = f.afterCalls calls ∧ ∀ c ∈ calls, c.isMutation = false

theorem OnlyLooked.refl (f : Fleet) : f.OnlyLooked f :=
  ⟨[], rfl, fun _ hc => absurd hc List.not_mem_nil⟩

private theorem OnlyLooked.afterCall {f g : Fleet} (h : f.OnlyLooked g) {c : Call} (hc : c.isMutation = false) :
    f.OnlyLooked (g.afterCall c) := by
  obtain ⟨calls, rfl, hcalls⟩ := h
  refine ⟨calls ++ [c], (f.afterCalls_append calls [c]).symm, fun d hd => ?_⟩
  rcases List.mem_append.mp hd with hd | hd
  · exact hcalls d hd
  · rw [List.mem_singleton.mp hd]
    exact hc

theorem OnlyLooked.trans {f g h : Fleet} (hfg : f.OnlyLooked g) (hgh : g.OnlyLooked h) : f.OnlyLooked h := by
  obtain ⟨first, rfl, hfirst⟩ := hfg
  obtain ⟨second, rfl, hsecond⟩ := hgh
  refine ⟨first ++ second, (f.afterCalls_append first second).symm, fun c hc => ?_⟩
  rcases List.mem_append.mp hc with hc | hc
  · exact hfirst c hc
  · exact hsecond c hc

/-- Calls that are not made to change anything leave a fleet as it is, but for the record of calls. -/
theorem afterCalls_of_looking (f : Fleet) {calls : List Call} (h : ∀ c ∈ calls, c.isMutation = false) :
    f.afterCalls calls = { f with calls := f.calls ++ calls } := by
  induction calls generalizing f with
  | nil => simp [afterCalls]
  | cons c calls ih =>
    show (f.afterCall c).afterCalls calls = _
    rw [f.afterCall_of_looking (h c List.mem_cons_self), ih _ fun d hd => h d (List.mem_cons_of_mem c hd)]
    simp [record]

theorem OnlyLooked.keeps_describe (f : Fleet) (s : Service) : Run.Keeps f.OnlyLooked (manager.describe s) :=
  fun _ h => h.afterCall (c := .describe s) rfl

private theorem OnlyLooked.keeps_listServices (f : Fleet) (tag : Option String) :
    Run.Keeps f.OnlyLooked (manager.listServices tag) :=
  fun _ h => h.afterCall (c := .listServices tag) rfl

theorem onlyLooked_plan (f : Fleet) (a : Agenda) (now : Timestamp) :
    f.OnlyLooked (a.plan manager now f).value.2 :=
  a.keeps_plan now (fun p _ => OnlyLooked.keeps_describe f p.service) f (OnlyLooked.refl f)

theorem onlyLooked_status (f : Fleet) (a : Agenda) (now : Timestamp) :
    f.OnlyLooked (a.status manager now f).value.2 :=
  a.keeps_status now (fun p _ => OnlyLooked.keeps_describe f p.service) f (OnlyLooked.refl f)

theorem onlyLooked_report (f : Fleet) (a : Agenda) (now : Timestamp) :
    f.OnlyLooked (a.report manager now f).value.2 :=
  a.keeps_report now (OnlyLooked.keeps_listServices f none) f (OnlyLooked.refl f)

end Fleet

end ServiceHours
