import ServiceHours.Control.Setup
import ServiceHours.Proofs.Control.Independence
import ServiceHours.Proofs.Remote.Hanging
import ServiceHours.View.Status

/-!
# Runs with a deadline

A deadline changes nothing while all calls are answered, and it keeps a call that hangs from holding up a pass.

* `Request` lists what the engine can be asked for; requests are served alike with a deadline and without
  (`Request.serveAll_bounded`).
* `Agenda.visitCalls` are the calls of a visit. If one of them hangs, the visit ends there with the outcome
  `Outcome.timedOut`; otherwise it is as ever (`Agenda.visit_overdue`).
* In a pass every plan is visited, whatever hangs in the visits before (`Agenda.getElem?_visitAll`), and after visits of
  other services it is visited as if nothing had hung there (`Agenda.getElem?_visitAll_of_quiet`).
* `Agenda.deadlines_confine` puts these together.
-/

namespace ServiceHours

variable {σ : Type}

/-! ### Requests -/

/-- What the engine can be asked for. -/
inductive Request
  | collect (tag : String) (filed : List Plan)
  | prepare (settings : Settings) (file : Option FoundFile)
  | pass (a : Agenda) (now : Timestamp) (dryRun : Bool)
  | start (a : Agenda) (service : String)
  | stop (a : Agenda) (service : String)
  | rescale (a : Agenda) (service : String) (count : Nat)
  | execute (actions : List Action)
  | schedule (a : Agenda) (now : Timestamp)
  | report (a : Agenda) (now : Timestamp)
  | status (a : Agenda) (now : Timestamp)

/-- What it answers. -/
inductive Response
  | survey (result : Except RemoteError Survey)
  | agenda (result : Except SetupError Agenda)
  | outcomes (outcomes : List Outcome)
  | executed (result : Except ExecutionError Unit)
  | schedule (view : ScheduleView)
  | report (result : Except RemoteError ScheduleView)
  | status (view : StatusView)

namespace Request

def serve (m : Manager σ) : Request → Run σ Response
  | collect tag filed => .survey <$> Survey.collect m tag filed
  | prepare settings file => .agenda <$> Agenda.prepare m settings file
  | pass a now dryRun => .outcomes <$> a.pass m now dryRun
  | start a service => .executed <$> a.start m service
  | stop a service => .executed <$> a.stop m service
  | rescale a service count => .executed <$> a.rescale m service count
  | execute actions => .executed <$> m.executeAll actions
  | schedule a now => .schedule <$> a.schedule now
  | report a now => .report <$> a.report m now
  | status a now => .status <$> a.status m now

/-- Serves requests in turn. -/
def serveAll (m : Manager σ) : List Request → Run σ (List Response)
  | [] => pure []
  | r :: rest => do
    let response ← r.serve m
    return response :: (← serveAll m rest)

/-- With a deadline and without, requests have the same responses, calls and fleet in the end, if every call is
answered. -/
theorem serveAll_bounded (m : Manager σ) (deadline : Option Nat) (requests : List Request) (x : σ) :
    serveAll (m.bounded deadline fun _ => false) requests x = serveAll m requests x := by
  rw [Manager.bounded_of_answers]

end Request

/-! ### Visits -/

/-- What becomes of an outcome if a call hangs before it is reached. A service that could not be described is skipped;
otherwise the decision stands, and it was not carried out. -/
def Outcome.timedOut (deadline : Nat) (operation : Operation) (o : Outcome) : Outcome :=
  if operation = .describe then
    { service := o.service
      decision := .skip (.describeFailed ("describe timed out after " ++ Text.decimal deadline ++ "ms")) }
  else
    { o with
      applied := false
      error := some ("resource manager error: " ++
        (operation.text ++ " timed out after " ++ Text.decimal deadline ++ "ms")) }

private theorem Fleet.operation_of_mem_decisionCalls {f : Fleet} {s : Service} {d : Decision} {c : Call}
    (hc : c ∈ f.decisionCalls s d) : c.operation ≠ .describe := by
  intro hdescribe
  unfold decisionCalls at hc
  split at hc
  · cases hc
  · cases d with
    | skip reason => cases hc
    | noOp => cases hc
    | start count =>
      obtain rfl := List.mem_singleton.mp hc
      cases hdescribe
    | rescale current wanted =>
      obtain rfl := List.mem_singleton.mp hc
      cases hdescribe
    | stop =>
      have hstop := (isPrefix_attempted _ _).subset hc
      simp only [stopCalls, endCalls, List.mem_cons, List.mem_map] at hstop
      rcases hstop with rfl | rfl | ⟨task, -, rfl⟩ <;> cases hdescribe

namespace Agenda

variable {a : Agenda} {now : Timestamp} {dryRun : Bool} {deadline : Nat} {hangs : Nat → Call → Bool}

/-- The calls of a visit to a fleet that answers all of them. -/
def visitCalls (a : Agenda) (now : Timestamp) (dryRun : Bool) (p : Plan) (f : Fleet) : List Call :=
  if p.disabled then []
  else match a.week.lastTransition p.service now with
    | none => []
    | some t => .describe p.service :: match Fleet.describe p.service f with
      | (.error _, _) => []
      | (.ok status, g) =>
        let d := Decision.ofStatus status t.state t.count (a.week.known p.service)
        if d.isChange && !dryRun then g.decisionCalls p.service d else []

private theorem calls_visit (a : Agenda) (now : Timestamp) (dryRun : Bool) (p : Plan) (f : Fleet) :
    (a.visit Fleet.manager now dryRun p f).value.2.calls = f.calls ++ a.visitCalls now dryRun p f := by
  have hdescribe : (Fleet.manager.describe p.service f).value = Fleet.describe p.service f := rfl
  have hcalls := f.calls_afterCall (.describe p.service)
  rw [visit_value, visitCalls, hdescribe]
  split
  · exact (List.append_nil _).symm
  · cases a.week.lastTransition p.service now with
    | none => exact (List.append_nil _).symm
    | some t =>
      dsimp only
      rcases hanswer : Fleet.describe p.service f with ⟨e | status, g⟩
      all_goals
        have hafter : f.afterCall (.describe p.service) = g := congrArg Prod.snd hanswer
        rw [hafter] at hcalls
      · exact hcalls
      · dsimp only
        split
        · rw [carryOut_value_snd, Fleet.executeAll_eq_afterCalls, Fleet.calls_afterCalls, hcalls, List.append_assoc,
            List.singleton_append]
        · exact hcalls

/-- A decision that is carried out while a call hangs has an outcome that names the operation. -/
private theorem carryOut_overdue (s : Service) (d : Decision) (f : Fleet) (n : Nat) :
    (carryOut (Fleet.overdue deadline hangs) s d (f, n)).value.1 =
      match Call.firstHanging hangs n (f.decisionCalls s d) with
      | none => (carryOut Fleet.manager s d f).value.1
      | some c => (carryOut Fleet.manager s d f).value.1.timedOut deadline c.operation := by
  have hfollows := Fleet.follows_executeAll deadline hangs s d f n
  rw [carryOut_value, carryOut_value]
  cases hfirst : Call.firstHanging hangs n (f.decisionCalls s d) with
  | none =>
    rw [hfirst] at hfollows
    dsimp only at hfollows ⊢
    rw [hfollows]
    rcases (Fleet.manager.executeAll (d.actions s) f).value with ⟨e | _, g⟩ <;> rfl
  | some c =>
    have hc : ¬c.operation = .describe := Fleet.operation_of_mem_decisionCalls (Call.mem_of_firstHanging hfirst)
    rw [hfirst] at hfollows
    dsimp only at hfollows ⊢
    unfold Outcome.timedOut
    rw [if_neg hc]
    rcases hvalue : ((Fleet.overdue deadline hangs).executeAll (d.actions s) (f, n)).value with ⟨r, y⟩
    rw [hvalue] at hfollows
    dsimp only at hfollows
    subst hfollows
    rcases (Fleet.manager.executeAll (d.actions s) f).value with ⟨e | _, g⟩ <;> rfl

/-- A visit is as ever unless one of its calls hangs. -/
theorem visit_overdue (p : Plan) (f : Fleet) (n : Nat) :
    (a.visit (Fleet.overdue deadline hangs) now dryRun p (f, n)).value.1 =
      match Call.firstHanging hangs n (a.visitCalls now dryRun p f) with
      | none => (a.visit Fleet.manager now dryRun p f).value.1
      | some c => (a.visit Fleet.manager now dryRun p f).value.1.timedOut deadline c.operation := by
  have hdescribed : ((Fleet.overdue deadline hangs).describe p.service (f, n)).value =
      if hangs n (.describe p.service) then (.error (.timeout .describe deadline), f, n + 1)
      else ((Fleet.describe p.service f).1, (Fleet.describe p.service f).2, n + 1) :=
    Run.value_within_numbered deadline .describe _ _ f n
  have hdescribe : (Fleet.manager.describe p.service f).value = Fleet.describe p.service f := rfl
  have hservice := a.service_visit Fleet.manager now dryRun p f
  rw [visit_value] at hservice ⊢
  rw [visit_value, visitCalls]
  by_cases hdisabled : p.disabled = true
  · rw [if_pos hdisabled, if_pos hdisabled, if_pos hdisabled]
    rfl
  rw [if_neg hdisabled] at hservice ⊢
  rw [if_neg hdisabled, if_neg hdisabled]
  cases ht : a.week.lastTransition p.service now with
  | none => rfl
  | some t =>
    rw [ht] at hservice
    dsimp only at hservice ⊢
    rw [hdescribed, Call.firstHanging]
    by_cases hfirst : hangs n (.describe p.service) = true
    · rw [if_pos hfirst, if_pos hfirst]
      have hoperation : (Call.describe p.service).operation = .describe := rfl
      dsimp only
      rw [Outcome.timedOut, if_pos hoperation, hservice]
      rfl
    · rw [if_neg hfirst, if_neg hfirst, hdescribe]
      rcases Fleet.describe p.service f with ⟨e | status, g⟩
      · rfl
      · dsimp only
        split
        · exact carryOut_overdue p.service _ g (n + 1)
        · rfl

/-! ### Passes -/

/-- After visits of other services a visit is as if nothing had hung, unless a call on its service can hang. -/
theorem getElem?_visitAll_of_quiet {before : List Plan} {p : Plan} (hothers : ∀ q ∈ before, q.service ≠ p.service)
    (hquiet : ∀ n c, c.service? = some p.service → hangs n c = false) (after : List Plan) (f : Fleet) (n : Nat) :
    (a.visitAll (Fleet.overdue deadline hangs) now dryRun (before ++ p :: after) (f, n)).value.1[before.length]? =
      (a.visitAll Fleet.manager now dryRun (before ++ p :: after) f).value.1[before.length]? := by
  have hsame : ∀ q ∈ before, Fleet.manager.KeepsOn (f.SameFor p.service) q.service := fun q hq =>
    Fleet.SameFor.keepsOn (hothers q hq) f
  have hfree := a.keeps_visitAll now dryRun hsame f (Fleet.SameFor.refl p.service f)
  have hoverdue := a.keeps_visitAll now dryRun
    (fun q hq => Fleet.overdue_keepsOn deadline hangs q.service (hsame q hq)) (f, n) (Fleet.SameFor.refl p.service f)
  have hagree := Fleet.agreeOn_manager p.service
  rw [getElem?_visitAll, getElem?_visitAll]
  -- Both visits find for the service what a visit to `f` would find.
  rw [← (agree_visit rfl now dryRun (Fleet.overdue_agreeOn deadline hangs p.service hagree hquiet) f _ hoverdue).1,
    (agree_visit rfl now dryRun hagree f _ hfree).1]

/-- With a deadline and without, all that the engine is asked for has the same responses, calls and fleet in the end,
as long as every call is answered. If calls hang, whichever they are, a pass still has an outcome for each plan, in the
order of the plans: that of a visit to the fleet as it is then, cut short where one of its calls hangs. For plans of
different services, one whose service has no hanging call has the outcome of a pass in which nothing hangs. -/
theorem deadlines_confine (deadline : Option Nat) (ms : Nat) (hangs : Nat → Call → Bool) (a : Agenda) (now : Timestamp)
    (dryRun : Bool) (f : Fleet) :
    (∀ requests, Request.serveAll (Fleet.manager.bounded deadline fun _ => false) requests f =
      Request.serveAll Fleet.manager requests f) ∧
    let m := (Fleet.manager.hanging hangs).within ms
    let outcomes := (a.pass m now dryRun (f, 0)).value.1
    outcomes.map (·.service) = a.plans.map (·.service) ∧
      (∀ before p after, a.plans = before ++ p :: after →
        let start := (a.visitAll m now dryRun before (f, 0)).value.2
        let free := (a.visit Fleet.manager now dryRun p start.1).value
        ∃ calls, free.2.calls = start.1.calls ++ calls ∧
          outcomes[before.length]? = some (match Call.firstHanging hangs start.2 calls with
            | none => free.1
            | some c => free.1.timedOut ms c.operation)) ∧
      (∀ silent, (∀ n c, hangs n c = silent c) →
        (a.pass (Fleet.manager.bounded (some ms) silent) now dryRun f).value.1 = outcomes) ∧
      ((a.plans.Pairwise fun p q => p.service ≠ q.service) →
        ∀ before p after, a.plans = before ++ p :: after →
          (∀ n c, c.service? = some p.service → hangs n c = false) →
            outcomes[before.length]? = (a.pass Fleet.manager now dryRun f).value.1[before.length]?) := by
  refine ⟨fun requests => Request.serveAll_bounded Fleet.manager deadline requests f, ?_⟩
  intro m outcomes
  refine ⟨a.map_service_visitAll m now dryRun a.plans (f, 0), fun before p after hplans => ?_, fun silent hsilent => ?_,
    fun hdistinct before p after hplans hquiet => ?_⟩
  · intro start free
    refine ⟨a.visitCalls now dryRun p start.1, a.calls_visit now dryRun p start.1, ?_⟩
    show (a.visitAll m now dryRun a.plans (f, 0)).value.1[before.length]? = _
    rw [hplans, getElem?_visitAll]
    exact congrArg some (visit_overdue p start.1 start.2)
  · obtain rfl : hangs = fun _ => silent := funext fun n => funext (hsilent n)
    have hagree := agree_pass fun p _ => agree_visit (a := a) rfl now dryRun
      (Fleet.manager.agreeOn_bounded ms silent p.service)
    exact (hagree f (f, 0) rfl).1
  · show (a.visitAll m now dryRun a.plans (f, 0)).value.1[before.length]? =
      (a.visitAll Fleet.manager now dryRun a.plans f).value.1[before.length]?
    rw [hplans] at hdistinct ⊢
    have hothers : ∀ q ∈ before, q.service ≠ p.service := fun q hq =>
      (List.pairwise_append.mp hdistinct).2.2 q hq p List.mem_cons_self
    exact getElem?_visitAll_of_quiet hothers hquiet after f 0

/-- One service cannot be described in time, and of another the second task cannot be ended; the third is started. -/
theorem deadlines_confine_between :
    let api : Service := ⟨"shop/api"⟩
    let web : Service := ⟨"shop/web"⟩
    let db : Service := ⟨"shop/db"⟩
    let plans := [{ service := api, configured := "running=0 8 1." },
      { service := web, configured := "stopped=0 8 1." },
      { service := db, configured := "running=0 8 1. count=2." }].map Plan.validated
    let a := Agenda.ofPlans "default" plans
    let f := ((((Fleet.addService {} api).addService web).addService db).setRunning web 2).keepTasks
    let now : Timestamp := ⟨1704099600, 0, 0⟩
    let hangs (n : Nat) (c : Call) : Bool := decide (c = .describe api) || n == 5 && decide (c.service? = some web)
    let outcomes := (a.pass ((Fleet.manager.hanging hangs).within 20) now false (f, 0)).value.1
    (plans.Pairwise fun p q => p.service ≠ q.service) ∧
      outcomes.map (fun o => (o.decision, o.applied, o.error)) =
        [(.skip (.describeFailed "describe timed out after 20ms"), false, none),
          (.stop, false, some "resource manager error: stop_task timed out after 20ms"), (.start 2, true, none)] ∧
      outcomes[2]? = (a.pass Fleet.manager now false f).value.1[2]? := by
  intro api web db plans a f now hangs outcomes
  have hdistinct : plans.Pairwise fun p q => p.service ≠ q.service := by decide +kernel
  have houtcomes : outcomes.map (fun o => (o.decision, o.applied, o.error)) =
      [(.skip (.describeFailed "describe timed out after 20ms"), false, none),
        (.stop, false, some "resource manager error: stop_task timed out after 20ms"), (.start 2, true, none)] := by
    decide +kernel
  obtain ⟨-, -, -, -, hconfined⟩ := deadlines_confine none 20 hangs a now false f
  refine ⟨hdistinct, houtcomes, hconfined hdistinct (plans.take 2) (plans.getLast nofun) [] rfl ?_⟩
  intro n c hc
  have hdescribe : c ≠ .describe api := by
    rintro rfl
    exact absurd hc (by decide)
  have hweb : c.service? ≠ some web := by
    rw [hc]
    decide
  simp only [hangs, hdescribe, hweb, decide_false, Bool.and_false, Bool.or_false]

end Agenda

end ServiceHours
