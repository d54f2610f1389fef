import ServiceHours.Control.Agenda

/-!
# Runs that agree

Two runs of the same computation, on states that are related and through managers whose calls keep them related, have
the same result and end in related states.

* `Run.Agree` says this of two computations; `Manager.AgreeOn` says it of the calls of two managers that deal with one
  service.
* `Manager.AgreeOn.executeAll` lifts it to actions, `Agenda.agree_visit` to the visits of two agendas that have the same
  transitions of the service, `Agenda.agree_pass` and `Agenda.agree_override` to passes and to changes by hand.
-/

namespace ServiceHours

variable {σ τ α β : Type} {R : σ → τ → Prop}

/-- From related states the computations have the same result, and they end in related states. -/
def Run.Agree (R : σ → τ → Prop) (x : Run σ α) (y : Run τ α) : Prop :=
  ∀ s t, R s t → (x s).value.1 = (y t).value.1 ∧ R (x s).value.2 (y t).value.2

namespace Run

theorem agree_pure (a : α) : Agree R (pure a) (pure a) :=
  fun _ _ h => ⟨rfl, h⟩

private theorem agree_tell (events events' : List Event) : Agree R (tell events) (tell events') :=
  fun _ _ h => ⟨rfl, h⟩

theorem Agree.bind {x : Run σ α} {y : Run τ α} {f : α → Run σ β} {g : α → Run τ β} (hx : Agree R x y)
    (hf : ∀ a, Agree R (f a) (g a)) : Agree R (x >>= f) (y >>= g) := by
  intro s t hst
  obtain ⟨hvalue, hstate⟩ := hx s t hst
  rw [bind_apply, bind_apply, hvalue]
  exact hf _ _ _ hstate

private theorem Agree.map {x : Run σ α} {y : Run τ α} (hx : Agree R x y) (f : α → β) : Agree R (f <$> x) (f <$> y) := by
  intro s t hst
  obtain ⟨hvalue, hstate⟩ := hx s t hst
  rw [map_apply, map_apply, hvalue]
  exact ⟨rfl, hstate⟩

theorem Agree.within {x : Run σ α} {y : Run τ α} (hx : Agree R x y) (span span' : Span) :
    Agree R (within span x) (within span' y) :=
  fun s t hst => hx s t hst

/-- What is written to the journal first does not matter. -/
theorem Agree.after_tell {x : Run σ α} {y : Run τ α} (hx : Agree R x y) (events events' : List Event) :
    Agree R (tell events >>= fun _ => x) (tell events' >>= fun _ => y) :=
  (agree_tell events events').bind fun _ => hx

end Run

namespace Manager

/-- The calls of two managers that deal with the service `s` agree. -/
structure AgreeOn (R : σ → τ → Prop) (m : Manager σ) (m' : Manager τ) (s : Service) : Prop where
  describe : Run.Agree R (m.describe s) (m'.describe s)
  setDesiredCount : ∀ count, Run.Agree R (m.setDesiredCount s count) (m'.setDesiredCount s count)
  runningTasks : Run.Agree R (m.runningTasks s) (m'.runningTasks s)
  stopTask : ∀ task, Run.Agree R (m.stopTask s task) (m'.stopTask s task)

variable {m : Manager σ} {m' : Manager τ} {s : Service}

private theorem AgreeOn.stopTasks (h : m.AgreeOn R m' s) (tasks : List String) :
    Run.Agree R (m.stopTasks s tasks) (m'.stopTasks s tasks) := by
  induction tasks with
  | nil => exact Run.agree_pure _
  | cons task tasks ih =>
    refine Run.Agree.after_tell ((h.stopTask task).bind fun answer => ?_) _ _
    cases answer with
    | ok _ => exact ih
    | error e => exact Run.agree_pure _

private theorem AgreeOn.stopRunningTasks (h : m.AgreeOn R m' s) :
    Run.Agree R (m.stopRunningTasks s) (m'.stopRunningTasks s) := by
  refine h.runningTasks.bind fun listed => ?_
  cases listed with
  | error e => exact Run.agree_pure _
  | ok tasks =>
    refine (h.stopTasks tasks).bind fun stopped => ?_
    cases stopped with
    | error e => exact Run.agree_pure _
    | ok _ => exact (Run.agree_pure _).after_tell _ _

private theorem AgreeOn.perform {a : Action} (h : m.AgreeOn R m' a.service) :
    Run.Agree R (m.perform a) (m'.perform a) := by
  unfold Manager.perform
  split
  · exact Run.agree_pure _
  · cases a with
    | setDesiredCount s count => exact (h.setDesiredCount count).map _
    | stopRunningTasks s => exact h.stopRunningTasks.map _

private theorem AgreeOn.execute {a : Action} (h : m.AgreeOn R m' a.service) :
    Run.Agree R (m.execute a) (m'.execute a) :=
  (h.perform.bind fun _ => (Run.agree_pure _).after_tell _ _).after_tell _ _

theorem AgreeOn.executeAll (h : m.AgreeOn R m' s) {actions : List Action} (hs : ∀ a ∈ actions, a.service = s) :
    Run.Agree R (m.executeAll actions) (m'.executeAll actions) := by
  induction actions with
  | nil => exact Run.agree_pure _
  | cons a rest ih =>
    have ha : m.AgreeOn R m' a.service := by
      rw [hs a List.mem_cons_self]
      exact h
    refine ha.execute.bind fun result => ?_
    cases result with
    | ok _ => exact ih fun b hb => hs b (List.mem_cons_of_mem a hb)
    | error e => exact Run.agree_pure _

end Manager

/-- The actions of a decision on a service deal with that service. -/
theorem Decision.service_of_mem_actions {d : Decision} {s : Service} {a : Action} (ha : a ∈ d.actions s) :
    a.service = s := by
  cases d <;> simp only [actions, List.not_mem_nil, List.mem_cons, or_false] at ha
  case stop => rcases ha with rfl | rfl <;> rfl
  case start => rw [ha]; rfl
  case rescale => rw [ha]; rfl

namespace Agenda

variable {m : Manager σ} {m' : Manager τ} {s : Service}

private theorem agree_carryOut (h : m.AgreeOn R m' s) (d : Decision) :
    Run.Agree R (carryOut m s d) (carryOut m' s d) := by
  refine (h.executeAll fun _ => Decision.service_of_mem_actions).bind fun result => ?_
  cases result with
  | ok _ => exact Run.agree_pure _
  | error e => exact (Run.agree_pure _).after_tell _ _

/-- All that a visit reads from the agenda is what the table has for the service. It carries something out only if it
is not a dry run. -/
theorem agree_visit_of {a a' : Agenda} {p : Plan}
    (hweek : a.week.occurrencesOf p.service = a'.week.occurrencesOf p.service) (now : Timestamp) {dryRun : Bool}
    (hdescribe : Run.Agree R (m.describe p.service) (m'.describe p.service))
    (hcarry : dryRun = false → ∀ d, Run.Agree R (carryOut m p.service d) (carryOut m' p.service d)) :
    Run.Agree R (a.visit m now dryRun p) (a'.visit m' now dryRun p) := by
  have htransition : a.week.lastTransition p.service now = a'.week.lastTransition p.service now := by
    simp only [Week.lastTransition, hweek]
  have hknown : a.week.known p.service = a'.week.known p.service := by
    simp only [Week.known, hweek]
  unfold visit
  rw [htransition, hknown]
  split
  · exact (Run.agree_pure _).after_tell _ _
  · split
    · exact (Run.agree_pure _).after_tell _ _
    · refine hdescribe.bind fun described => ?_
      cases described with
      | error e => exact (Run.agree_pure _).after_tell _ _
      | ok status =>
        refine Run.Agree.after_tell ?_ _ _
        split
        · rename_i hchange
          rw [Bool.and_eq_true, Bool.not_eq_true'] at hchange
          exact hcarry hchange.2 _
        · exact Run.agree_pure _

theorem agree_visit {a a' : Agenda} {p : Plan}
    (hweek : a.week.occurrencesOf p.service = a'.week.occurrencesOf p.service) (now : Timestamp) (dryRun : Bool)
    (h : m.AgreeOn R m' p.service) : Run.Agree R (a.visit m now dryRun p) (a'.visit m' now dryRun p) :=
  agree_visit_of hweek now h.describe fun _ d => agree_carryOut h d

theorem agree_visitAll {a a' : Agenda} {now : Timestamp} {dryRun : Bool} {plans : List Plan}
    (h : ∀ p ∈ plans, Run.Agree R (a.visit m now dryRun p) (a'.visit m' now dryRun p)) :
    Run.Agree R (a.visitAll m now dryRun plans) (a'.visitAll m' now dryRun plans) := by
  induction plans with
  | nil => exact Run.agree_pure _
  | cons p rest ih =>
    refine (h p List.mem_cons_self).bind fun _ => ?_
    exact (ih fun q hq => h q (List.mem_cons_of_mem p hq)).bind fun _ => Run.agree_pure _

theorem agree_pass {a : Agenda} {now : Timestamp} {dryRun : Bool}
    (h : ∀ p ∈ a.plans, Run.Agree R (a.visit m now dryRun p) (a.visit m' now dryRun p)) :
    Run.Agree R (a.pass m now dryRun) (a.pass m' now dryRun) := by
  refine Run.Agree.within (Run.Agree.after_tell ?_ _ _) _ _
  exact (agree_visitAll h).bind fun _ => (Run.agree_pure _).after_tell _ _

/-- A change by hand deals with the service whose path is given, without the blanks around it. -/
theorem agree_override (a : Agenda) (mode service : String) {actions : Service → List Action}
    (h : m.AgreeOn R m' ⟨Text.trimmed service⟩) (hs : ∀ s, ∀ b ∈ actions s, b.service = s) :
    Run.Agree R (a.override m mode service actions) (a.override m' mode service actions) := by
  refine Run.Agree.within ?_ _ _
  dsimp only
  split
  · exact Run.agree_pure _
  · exact (h.executeAll (hs _)).after_tell _ _

end Agenda

end ServiceHours
