import ServiceHours.Proofs.Control.Steps
import ServiceHours.Remote.Deadline
import ServiceHours.Remote.Fleet

/-!
# Accounts of a pass

Every plan of a pass has one outcome, which says what became of its actions, and the summary of the pass counts every
outcome once.

* Actions are carried out to the end (`Manager.Completes`), or break off at the first that fails
  (`Manager.BreaksOff`); `Manager.executeAll_eq_ok_iff` and `Manager.executeAll_eq_error_iff` say that there is nothing
  else.
* `Outcome.Accounts` says what an outcome has to tell, and every visit tells it, through whatever manager
  (`Agenda.accounts_visit`).
* A count that goes up by one for some of the outcomes is the number of these outcomes (`Summary.count_ofOutcomes`).
  Since a failure is told apart before the decision is looked at, the counts of a summary share the outcomes out among
  them.
-/

namespace ServiceHours

variable {σ : Type}

/-! ### Actions in a row -/

namespace Manager

/-- The actions are carried out one after the other, each to its end. -/
inductive Completes (m : Manager σ) : List Action → σ → σ → Prop
  | nil (x : σ) : Completes m [] x x
  | cons {a : Action} {rest : List Action} {x y z : σ} (hfirst : (m.execute a x).value = (.ok (), y))
    (hrest : Completes m rest y z) : Completes m (a :: rest) x z

/-- Of the actions one fails with `e`; those before it are carried out, and none behind it is begun. -/
inductive BreaksOff (m : Manager σ) (e : ExecutionError) : List Action → σ → σ → Prop
  | here {a : Action} {rest : List Action} {x y : σ} (hfirst : (m.execute a x).value = (.error e, y)) :
    BreaksOff m e (a :: rest) x y
  | later {a : Action} {rest : List Action} {x y z : σ} (hfirst : (m.execute a x).value = (.ok (), y))
    (hrest : BreaksOff m e rest y z) : BreaksOff m e (a :: rest) x z

variable {m : Manager σ} {actions : List Action} {x y : σ}

theorem executeAll_eq_ok_iff : (m.executeAll actions x).value = (.ok (), y) ↔ m.Completes actions x y := by
  induction actions generalizing x with
  | nil =>
    constructor
    · intro h
      cases h
      exact .nil _
    · rintro ⟨⟩
      rfl
  | cons a rest ih =>
    have hexecute : (m.execute a x).value = (m.perform a x).value := rfl
    rw [executeAll_cons_value]
    constructor
    · intro h
      split at h
      · rename_i z hfirst
        exact .cons (hexecute.trans hfirst) (ih.mp h)
      · cases h
    · rintro (_ | ⟨hfirst, hrest⟩)
      rw [← hexecute, hfirst]
      exact ih.mpr hrest

theorem executeAll_eq_error_iff {e : ExecutionError} :
    (m.executeAll actions x).value = (.error e, y) ↔ m.BreaksOff e actions x y := by
  induction actions generalizing x with
  | nil => exact ⟨nofun, nofun⟩
  | cons a rest ih =>
    have hexecute : (m.execute a x).value = (m.perform a x).value := rfl
    rw [executeAll_cons_value]
    constructor
    · intro h
      split at h
      · rename_i z hfirst
        exact .later (hexecute.trans hfirst) (ih.mp h)
      · rename_i hfirst
        cases h
        exact .here (hexecute.trans hfirst)
    · rintro (hfirst | ⟨hfirst, hrest⟩)
      · rw [← hexecute, hfirst]
      · rw [← hexecute, hfirst]
        exact ih.mpr hrest

end Manager

/-! ### What an outcome tells -/

/-- What an outcome tells of its actions, if these were due in the state `x`: that nothing was carried out, in a dry run
or where nothing was to be changed; else that all of them were carried out, or how the first that failed did so. -/
structure Outcome.Accounts (o : Outcome) (m : Manager σ) (dryRun : Bool) (x : σ) : Prop where
  untouched : dryRun = true ∨ o.decision.isChange = false → o.applied = false ∧ o.error = none
  applied_iff : dryRun = false → o.decision.isChange = true → (o.applied = true ↔ ∃ y, m.Completes o.actions x y)
  error_iff : dryRun = false → o.decision.isChange = true →
    ∀ text, o.error = some text ↔ ∃ e y, m.BreaksOff e o.actions x y ∧ text = e.message
  either : dryRun = false → o.decision.isChange = true → (o.applied = true ↔ o.error = none)

namespace Agenda

private theorem accounts_of_rest (m : Manager σ) {dryRun : Bool} (s : Service) {d : Decision}
    (h : (d.isChange && !dryRun) = false) (x : σ) : Outcome.Accounts { service := s, decision := d } m dryRun x := by
  have hrest (hreal : dryRun = false) (hchange : d.isChange = true) : False := by
    rw [hreal, hchange] at h
    cases h
  exact ⟨fun _ => ⟨rfl, rfl⟩, fun hreal hchange => (hrest hreal hchange).elim,
    fun hreal hchange => (hrest hreal hchange).elim, fun hreal hchange => (hrest hreal hchange).elim⟩

private theorem accounts_carryOut (m : Manager σ) (s : Service) {d : Decision} (h : d.isChange = true) (x : σ) :
    (carryOut m s d x).value.1.Accounts m false x := by
  have hdue {P : Prop} (hrest : false = true ∨ d.isChange = false) : P := by
    rcases hrest with hdry | hrest
    · cases hdry
    · cases h.symm.trans hrest
  rw [carryOut_value]
  cases hend : (m.executeAll (d.actions s) x).value with
  | mk result y =>
    cases result with
    | ok _ =>
      have hall : m.Completes (d.actions s) x y := Manager.executeAll_eq_ok_iff.mp hend
      refine ⟨hdue, fun _ _ => iff_of_true rfl ⟨y, hall⟩, fun _ _ text => iff_of_false nofun ?_,
        fun _ _ => iff_of_true rfl rfl⟩
      rintro ⟨e, z, hbreak, -⟩
      cases hend.symm.trans (Manager.executeAll_eq_error_iff.mpr hbreak)
    | error e =>
      have hbreak : m.BreaksOff e (d.actions s) x y := Manager.executeAll_eq_error_iff.mp hend
      refine ⟨hdue, fun _ _ => iff_of_false nofun ?_, fun _ _ text => ?_, fun _ _ => iff_of_false nofun nofun⟩
      · rintro ⟨z, hall⟩
        cases hend.symm.trans (Manager.executeAll_eq_ok_iff.mpr hall)
      · constructor
        · intro htext
          exact ⟨e, y, hbreak, (Option.some.inj htext).symm⟩
        · rintro ⟨e', z, hbreak', rfl⟩
          cases hend.symm.trans (Manager.executeAll_eq_error_iff.mpr hbreak')
          rfl

/-- The outcome of a visit tells what became of its actions, which are due once the service was described. -/
theorem accounts_visit (a : Agenda) (m : Manager σ) (now : Timestamp) (dryRun : Bool) (p : Plan) (x : σ) :
    (a.visit m now dryRun p x).value.1.Accounts m dryRun (m.describe p.service x).value.2 := by
  rw [visit_value]
  split
  · exact accounts_of_rest m p.service rfl _
  · cases a.week.lastTransition p.service now with
    | none => exact accounts_of_rest m p.service rfl _
    | some t =>
      dsimp only
      cases (m.describe p.service x).value with
      | mk described y =>
        cases described with
        | error e => exact accounts_of_rest m p.service rfl y
        | ok status =>
          dsimp only
          split
          · rename_i hdue
            obtain ⟨hchange, hreal⟩ := Bool.and_eq_true_iff.mp hdue
            rw [Bool.not_eq_true'] at hreal
            rw [hreal]
            exact accounts_carryOut m p.service hchange y
          · rename_i hrest
            exact accounts_of_rest m p.service (Bool.eq_false_iff.mpr hrest) y

/-- What every visit tells, every outcome of a pass tells. -/
private theorem forall_mem_visitAll {a : Agenda} {m : Manager σ} {now : Timestamp} {dryRun : Bool} {P : Outcome → Prop}
    (h : ∀ p x, P (a.visit m now dryRun p x).value.1) (plans : List Plan) (x : σ) :
    ∀ o ∈ (a.visitAll m now dryRun plans x).value.1, P o := by
  induction plans generalizing x with
  | nil => exact fun o ho => absurd ho List.not_mem_nil
  | cons p rest ih =>
    rw [visitAll_cons_value]
    exact List.forall_mem_cons.mpr ⟨h p x, ih _⟩

end Agenda

/-! ### Counts -/

namespace Summary

/-- A count of a summary that goes up by one for certain outcomes is their number. -/
theorem count_ofOutcomes (count : Summary → Nat) {counted : Outcome → Bool} (hempty : count {} = 0)
    (hadd : ∀ s o, count (s.add o) = count s + if counted o then 1 else 0) (outcomes : List Outcome) :
    count (ofOutcomes outcomes) = outcomes.countP counted := by
  -- The counts so far are general, and those of the empty summary are the first.
  have go : ∀ s, count (outcomes.foldl add s) = count s + outcomes.countP counted := by
    induction outcomes with
    | nil => exact fun s => rfl
    | cons o outcomes ih =>
      intro s
      rw [List.foldl_cons, ih, hadd, List.countP_cons]
      omega
  rw [ofOutcomes, go, hempty, Nat.zero_add]

private theorem failed_ofOutcomes (outcomes : List Outcome) :
    (ofOutcomes outcomes).failed = outcomes.countP (·.error.isSome) := by
  refine count_ofOutcomes failed rfl (fun s o => ?_) outcomes
  unfold add
  split
  · rfl
  · cases o.decision <;> rfl

/-- Every outcome is in one of the counts. -/
private theorem total_ofOutcomes (outcomes : List Outcome) :
    let s := ofOutcomes outcomes
    s.started + s.stopped + s.rescaled + s.unchanged + s.skipped + s.failed = outcomes.length := by
  rw [← List.countP_true]
  refine count_ofOutcomes (fun s => s.started + s.stopped + s.rescaled + s.unchanged + s.skipped + s.failed)
    rfl (fun s o => ?_) outcomes
  rw [if_pos rfl]
  unfold add
  split
  · dsimp only
    omega
  · cases o.decision <;> dsimp only <;> omega

private theorem changed_ofOutcomes (outcomes : List Outcome) :
    let s := ofOutcomes outcomes
    s.started + s.stopped + s.rescaled = outcomes.countP fun o => !o.error.isSome && o.decision.isChange := by
  refine count_ofOutcomes (fun s => s.started + s.stopped + s.rescaled) rfl (fun s o => ?_) outcomes
  unfold add
  split
  · rename_i hfailed
    simp [hfailed]
  · rename_i hfine
    cases o.decision <;> simp [hfine, Decision.isChange] <;> omega

end Summary

namespace Agenda

/-- A pass has one outcome for each plan, in the order of the plans, with the actions of its decision for the service of
the plan. A dry run carries nothing out. In a real pass an outcome that changes something says that all its actions were
carried out, or gives the text of the first that failed, and never both; any other outcome says neither. The summary of
the pass counts the failures as the outcomes with an error, its counts add up to the number of plans, and in a real pass
those of changes add up to the number of outcomes that were carried out. -/
theorem pass_accounts (a : Agenda) (m : Manager σ) (now : Timestamp) (dryRun : Bool) (x : σ) :
    let outcomes := (a.pass m now dryRun x).value.1
    let summary := Summary.ofOutcomes outcomes
    outcomes.length = a.plans.length ∧
      (∀ before p after, a.plans = before ++ p :: after →
        let y := (a.visitAll m now dryRun before x).value.2
        ∃ o, outcomes[before.length]? = some o ∧ o.service = p.service ∧ o.actions = o.decision.actions p.service ∧
          o.Accounts m dryRun (m.describe p.service y).value.2) ∧
      summary.failed = outcomes.countP (·.error.isSome) ∧
      summary.started + summary.stopped + summary.rescaled + summary.unchanged + summary.skipped + summary.failed =
        a.plans.length ∧
      (dryRun = false → summary.started + summary.stopped + summary.rescaled = outcomes.countP (·.applied)) := by
  intro outcomes summary
  have hlength : outcomes.length = a.plans.length := by
    have hservices := congrArg List.length (a.map_service_visitAll m now dryRun a.plans x)
    rwa [List.length_map, List.length_map] at hservices
  refine ⟨hlength, fun before p after hplans => ?_, Summary.failed_ofOutcomes outcomes,
    (Summary.total_ofOutcomes outcomes).trans hlength, fun hreal => ?_⟩
  · intro y
    have hservice := a.service_visit m now dryRun p y
    refine ⟨(a.visit m now dryRun p y).value.1, ?_, hservice, ?_, a.accounts_visit m now dryRun p y⟩
    · show (a.visitAll m now dryRun a.plans x).value.1[before.length]? = _
      rw [hplans, getElem?_visitAll]
    · rw [Outcome.actions, hservice]
  · have haccounts : ∀ o ∈ outcomes, ∃ y, o.Accounts m dryRun y :=
      forall_mem_visitAll (fun p y => ⟨_, a.accounts_visit m now dryRun p y⟩) a.plans x
    refine (Summary.changed_ofOutcomes outcomes).trans (List.countP_congr fun o ho => ?_)
    obtain ⟨y, haccount⟩ := haccounts o ho
    cases hchange : o.decision.isChange with
    | true => simpa [hreal] using (haccount.either hreal hchange).symm
    | false => simp [haccount.untouched (Or.inr hchange)]

/-- The second action of a stop comes too late to be answered, a start is carried out, and one service is as it should
be: one failure, one change of two that were decided on, and one outcome with nothing to tell. -/
theorem pass_accounts_unstopped :
    let web : Service := ⟨"shop/web"⟩
    let plans := [{ service := web, configured := "stopped=0 8 1." },
      { service := ⟨"shop/api"⟩, configured := "running=0 8 1. count=2." },
      { service := ⟨"shop/db"⟩, configured := "running=0 8 1." }].map Plan.validated
    let a := Agenda.ofPlans "default" plans
    let f := (((((Fleet.addService {} web).addService ⟨"shop/api"⟩).addService ⟨"shop/db"⟩).setRunning web 2).setRunning
      ⟨"shop/db"⟩ 1).keepTasks
    let m := Fleet.manager.bounded (some 500) (fun c => decide (c.operation = .stopTask))
    let outcomes := (a.pass m ⟨1704099600, 0, 0⟩ false f).value.1
    let summary := Summary.ofOutcomes outcomes
    outcomes.map (fun o => (o.decision, o.applied, o.error)) =
        [(.stop, false, some "resource manager error: stop_task timed out after 500ms"), (.start 2, true, none),
          (.noOp, false, none)] ∧
      (∃ e x y, m.BreaksOff e [.setDesiredCount web 0, .stopRunningTasks web] x y ∧
        e.message = "resource manager error: stop_task timed out after 500ms") ∧
      summary.failed = 1 ∧ summary.started + summary.stopped + summary.rescaled = 1 := by
  intro web plans a f m outcomes summary
  have houtcomes : outcomes.map (fun o => (o.decision, o.applied, o.error)) =
      [(.stop, false, some "resource manager error: stop_task timed out after 500ms"), (.start 2, true, none),
        (.noOp, false, none)] := by
    decide +kernel
  obtain ⟨-, houtcome, hfailed, -, hchanged⟩ := pass_accounts a m ⟨1704099600, 0, 0⟩ false f
  obtain ⟨o, ho, -, hactions, haccount⟩ := houtcome [] (plans.head nofun) plans.tail rfl
  have hfirst : outcomes[0]? = some
      { service := web
        decision := .stop
        error := some "resource manager error: stop_task timed out after 500ms" } := by
    decide +kernel
  cases hfirst.symm.trans ho
  refine ⟨houtcomes, ?_, hfailed.trans ?_, (hchanged rfl).trans ?_⟩
  · obtain ⟨e, y, hbreak, hmessage⟩ := (haccount.error_iff rfl rfl _).mp rfl
    exact ⟨e, _, y, hbreak, hmessage.symm⟩
  · decide +kernel
  · decide +kernel

end Agenda

end ServiceHours
