import ServiceHours.Proofs.Control.Preview
import ServiceHours.Proofs.Week.Latest

/-!
# The decision table

What a pass decides on each plan, as a table whose rows exclude each other.

* `Decision.Row` has the rows for a service with a known state; the decision on a status is that of its row
  (`Decision.Row.ofStatus_eq`).
* `Agenda.Due` has all rows for a plan. Whether a service exists remotely is a question to the inventory here; a visit
  reads the answer off the marks in the table (`Agenda.known_ofSurvey`).
* There is a row for every plan (`Agenda.exists_due`), and a visit decides as the row says (`Agenda.decision_eq_iff`).
* Until its own visit comes a service is described as it was before the pass, if no change was carried out on it
  (`Agenda.describe_after`). `Agenda.pass_decisions` puts this together for whole passes.
-/

namespace ServiceHours

/-- The state to go by; a service of unknown state counts as stopped. -/
def ObservedState.assumed : ObservedState → ObservedState
  | running => running
  | stopped => stopped
  | unknown => stopped

namespace Decision

/-- The rows of the table for `r` running tasks where `w` are wanted: a state, the state that is asked for, and the
decision. -/
inductive Row (r w : Nat) : ObservedState → DesiredState → Decision → Prop
  | stop : Row r w .running .stopped .stop
  | settled (h : r = w) : Row r w .running .running .noOp
  | rescale (h : r ≠ w) : Row r w .running .running (.rescale r w)
  | start : Row r w .stopped .running (.start w)
  | rest : Row r w .stopped .stopped .noOp

private theorem exists_row (r w : Nat) (observed : ObservedState) (asked : DesiredState) :
    ∃ d, Row r w observed.assumed asked d := by
  cases observed <;> cases asked
  case running.running =>
    by_cases h : r = w
    · exact ⟨_, .settled h⟩
    · exact ⟨_, .rescale h⟩
  case running.stopped => exact ⟨_, .stop⟩
  case stopped.running => exact ⟨_, .start⟩
  case stopped.stopped => exact ⟨_, .rest⟩
  case unknown.running => exact ⟨_, .start⟩
  case unknown.stopped => exact ⟨_, .rest⟩

variable {status : Status} {asked : DesiredState} {count : Nat} {known : Bool} {d : Decision}

theorem Row.ofStatus_eq (h : Row status.runningCount (max 1 count) status.state.assumed asked d)
    (hfound : status.state = .unknown → known = true) : ofStatus status asked count known = d := by
  obtain ⟨observed, running, desired⟩ := status
  cases observed
  case running =>
    cases h with
    | stop => rfl
    | settled hrunning => exact if_pos hrunning
    | rescale hrunning => exact if_neg hrunning
  case stopped => cases h <;> rfl
  case unknown =>
    rw [hfound rfl]
    cases h <;> rfl

private theorem ofStatus_of_missing (hunknown : status.state = .unknown) (hmissing : known = false) :
    ofStatus status asked count known = .skip .missing := by
  unfold ofStatus
  rw [hunknown, hmissing]
  rfl

end Decision

namespace Agenda

variable {σ : Type} {a : Agenda} {inventory : List Service} {now : Timestamp} {dryRun : Bool} {p : Plan}
  {d : Decision}

/-- What is due for a plan by the table, its service being described as it is. The rows stand in the order of their
precedence. -/
inductive Due (a : Agenda) (inventory : List Service) (now : Timestamp) (p : Plan) :
    Except RemoteError Status → Decision → Prop
  | disabled {described : Except RemoteError Status} (hdisabled : p.disabled = true) :
    Due a inventory now p described (.skip .disabled)
  | unscheduled {described : Except RemoteError Status} (henabled : p.disabled = false)
    (hnone : a.week.occurrencesOf p.service = []) : Due a inventory now p described (.skip .unscheduled)
  | describeFailed {e : RemoteError} (henabled : p.disabled = false) (hsome : a.week.occurrencesOf p.service ≠ []) :
    Due a inventory now p (.error e) (.skip (.describeFailed e.message))
  | missing {status : Status} (henabled : p.disabled = false) (hsome : a.week.occurrencesOf p.service ≠ [])
    (hunknown : status.state = .unknown) (hmissing : p.service ∉ inventory) :
    Due a inventory now p (.ok status) (.skip .missing)
  | compared {status : Status} {t : Transition} {d : Decision} (henabled : p.disabled = false)
    (hsome : a.week.occurrencesOf p.service ≠ []) (ht : a.week.lastTransition p.service now = some t)
    (hfound : status.state = .unknown → p.service ∈ inventory)
    (hrow : Decision.Row status.runningCount (max 1 t.count) status.state.assumed t.state d) :
    Due a inventory now p (.ok status) d

theorem exists_due (a : Agenda) (inventory : List Service) (now : Timestamp) (p : Plan)
    (described : Except RemoteError Status) : ∃ d, a.Due inventory now p described d := by
  by_cases hdisabled : p.disabled = true
  · exact ⟨_, .disabled hdisabled⟩
  rw [Bool.not_eq_true] at hdisabled
  by_cases hsome : a.week.occurrencesOf p.service = []
  · exact ⟨_, .unscheduled hdisabled hsome⟩
  cases described with
  | error e => exact ⟨_, .describeFailed hdisabled hsome⟩
  | ok status =>
    by_cases hmissing : status.state = .unknown ∧ p.service ∉ inventory
    · exact ⟨_, .missing hdisabled hsome hmissing.1 hmissing.2⟩
    · rw [not_and_not_right] at hmissing
      obtain ⟨t, ht⟩ := Week.exists_lastTransition hsome now
      obtain ⟨d, hrow⟩ := Decision.exists_row status.runningCount (max 1 t.count) status.state t.state
      exact ⟨d, .compared hdisabled hsome ht hmissing hrow⟩

/-! ### Visits -/

private theorem decision_carryOut (m : Manager σ) (s : Service) (d : Decision) (x : σ) :
    (carryOut m s d x).value.1.decision = d :=
  congrArg Outcome.decision (preview_carryOut m s d x)

/-- The decision of a visit, whatever comes of carrying it out. -/
private theorem decision_visit (a : Agenda) (m : Manager σ) (now : Timestamp) (dryRun : Bool) (p : Plan) (x : σ) :
    (a.visit m now dryRun p x).value.1.decision =
      if p.disabled then .skip .disabled
      else match a.week.lastTransition p.service now with
        | none => .skip .unscheduled
        | some t => match (m.describe p.service x).value.1 with
          | .error e => .skip (.describeFailed e.message)
          | .ok status => .ofStatus status t.state t.count (a.week.known p.service) := by
  rw [visit_value]
  split
  · rfl
  · cases a.week.lastTransition p.service now with
    | none => rfl
    | some t =>
      dsimp only
      rcases (m.describe p.service x).value with ⟨e | status, y⟩
      · rfl
      · dsimp only
        split
        · exact decision_carryOut m p.service _ y
        · rfl

/-- The marks in the table say which of its services are in the inventory. -/
theorem known_ofSurvey (profile : String) (v : Survey) {s : Service}
    (hsome : (ofSurvey profile v).week.occurrencesOf s ≠ []) :
    (ofSurvey profile v).week.known s = true ↔ s ∈ v.inventory := by
  have hplans : (Week.ofPlans v.plans).occurrencesOf s ≠ [] := fun hnone => hsome (by
    rw [ofSurvey, Week.occurrencesOf_markKnown, hnone, List.map_nil])
  rw [ofSurvey, Week.known_markKnown hplans, Survey.knows, List.contains_iff_mem]

private theorem Due.decision_eq {m : Manager σ} {x : σ}
    (hknown : a.week.occurrencesOf p.service ≠ [] → (a.week.known p.service = true ↔ p.service ∈ inventory))
    (h : a.Due inventory now p (m.describe p.service x).value.1 d) :
    (a.visit m now dryRun p x).value.1.decision = d := by
  rw [decision_visit]
  -- The rows tell an error from a status, so the answer is set free of the call first.
  revert h
  generalize (m.describe p.service x).value.1 = described
  intro h
  cases h with
  | disabled hdisabled => rw [if_pos hdisabled]
  | unscheduled henabled hnone =>
    rw [if_neg (Bool.eq_false_iff.mp henabled), (a.week.lastTransition_eq_none_iff p.service now).mpr hnone]
  | describeFailed henabled hsome =>
    obtain ⟨t, ht⟩ := Week.exists_lastTransition hsome now
    rw [if_neg (Bool.eq_false_iff.mp henabled), ht]
  | missing henabled hsome hunknown hmissing =>
    obtain ⟨t, ht⟩ := Week.exists_lastTransition hsome now
    have hmark : a.week.known p.service = false := by
      rw [← Bool.not_eq_true, hknown hsome]
      exact hmissing
    rw [if_neg (Bool.eq_false_iff.mp henabled), ht]
    exact Decision.ofStatus_of_missing hunknown hmark
  | compared henabled hsome ht hfound hrow =>
    rw [if_neg (Bool.eq_false_iff.mp henabled), ht]
    exact hrow.ofStatus_eq fun hunknown => (hknown hsome).mpr (hfound hunknown)

/-- A visit decides what is due, and nothing else is. -/
theorem decision_eq_iff {m : Manager σ} {x : σ}
    (hknown : a.week.occurrencesOf p.service ≠ [] → (a.week.known p.service = true ↔ p.service ∈ inventory)) :
    (a.visit m now dryRun p x).value.1.decision = d ↔ a.Due inventory now p (m.describe p.service x).value.1 d := by
  refine ⟨?_, fun h => h.decision_eq hknown⟩
  rintro rfl
  obtain ⟨d, hdue⟩ := a.exists_due inventory now p (m.describe p.service x).value.1
  rwa [hdue.decision_eq hknown]

/-! ### Passes -/

/-- What a service is described as after some visits of a pass, if they were no real ones or dealt with other
services. -/
theorem describe_after (a : Agenda) (now : Timestamp) {before : List Plan} {s : Service}
    (h : dryRun = true ∨ ∀ q ∈ before, q.service ≠ s) (f : Fleet) :
    (Fleet.describe s (a.visitAll Fleet.manager now dryRun before f).value.2).1 = (Fleet.describe s f).1 := by
  have hsame : f.SameFor s (a.visitAll Fleet.manager now dryRun before f).value.2 := by
    rcases h with rfl | hothers
    · have hlooked : Run.Keeps f.OnlyLooked (a.visitAll Fleet.manager now true before) :=
        Run.keeps_iff_agree.mpr (agree_visitAll fun q _ => agree_visit_of rfl now
          (Run.keeps_iff_agree.mp (Fleet.OnlyLooked.keeps_describe f q.service)) nofun)
      exact (hlooked f (Fleet.OnlyLooked.refl f)).sameFor s
    · exact a.keeps_visitAll now dryRun (fun q hq => Fleet.SameFor.keepsOn (hothers q hq) f) f (Fleet.SameFor.refl s f)
  exact ((Fleet.agreeOn_manager s).describe f _ hsame).1.symm

/-- Every pass over the plans of a survey reports a decision on each of them, in their order, and it is what is due by
the table for the service as it is described when its turn comes. In a dry run, and where no plan before has the same
service, that is as it was before the pass. -/
theorem pass_decisions (profile : String) (v : Survey) (now : Timestamp) (dryRun : Bool) (f : Fleet) :
    let a := ofSurvey profile v
    let outcomes := (a.pass Fleet.manager now dryRun f).value.1
    outcomes.map (·.service) = v.plans.map (·.service) ∧
      ∀ before p after, v.plans = before ++ p :: after →
        let g := (a.visitAll Fleet.manager now dryRun before f).value.2
        ∃ o, outcomes[before.length]? = some o ∧
          (∀ d, o.decision = d ↔ a.Due v.inventory now p (Fleet.describe p.service g).1 d) ∧
          ((dryRun = true ∨ ∀ q ∈ before, q.service ≠ p.service) →
            (Fleet.describe p.service g).1 = (Fleet.describe p.service f).1) := by
  intro a outcomes
  refine ⟨a.map_service_visitAll Fleet.manager now dryRun v.plans f, fun before p after hplans => ?_⟩
  intro g
  refine ⟨(a.visit Fleet.manager now dryRun p g).value.1, ?_, fun d => ?_, fun h => a.describe_after now h f⟩
  · show (a.visitAll Fleet.manager now dryRun v.plans f).value.1[before.length]? = _
    rw [hplans, getElem?_visitAll]
  · exact decision_eq_iff (known_ofSurvey profile v)

/-- One service is stopped; the next is in the inventory but of unknown state and is started; the last is of unknown
state, too, and missing there. -/
theorem pass_decisions_unknown :
    let web : Service := ⟨"shop/web"⟩
    let api : Service := ⟨"shop/api"⟩
    let db : Service := ⟨"shop/db"⟩
    let plan (s : Service) (configured : String) := Plan.validated { service := s, configured }
    let p := plan api "running=0 8 1. count=2."
    let before := [plan web "stopped=0 8 1."]
    let v : Survey := { plans := before ++ p :: [plan db "running=0 8 1."], inventory := [api, web] }
    let hosting := ((Fleet.addService {} api).addService web).addService db
    let f := ((hosting.setRunning web 3).setUnknown api).setUnknown db
    let now : Timestamp := ⟨1704099600, 0, 0⟩
    let a := ofSurvey "default" v
    let outcomes := (a.pass Fleet.manager now false f).value.1
    outcomes.map (·.decision) = [.stop, .start 2, .skip .missing] ∧ (∀ q ∈ before, q.service ≠ p.service) ∧
      a.Due v.inventory now p (Fleet.describe p.service f).1 (.start 2) := by
  intro web api db plan p before v hosting f now a outcomes
  have hdecisions : outcomes.map (·.decision) = [.stop, .start 2, .skip .missing] := by decide +kernel
  have hothers : ∀ q ∈ before, q.service ≠ p.service := by decide +kernel
  refine ⟨hdecisions, hothers, ?_⟩
  obtain ⟨-, hdecided⟩ := pass_decisions "default" v now false f
  obtain ⟨o, ho, hdue, hsame⟩ := hdecided before p _ rfl
  have hsecond : outcomes[1]? = some o := ho
  have hstart : o.decision = .start 2 := by
    have hlisted := congrArg (·[1]?) hdecisions
    rw [List.getElem?_map, hsecond] at hlisted
    exact Option.some.inj hlisted
  rw [← hsame (Or.inr hothers)]
  exact (hdue _).mp hstart

end Agenda

end ServiceHours
