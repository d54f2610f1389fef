import ServiceHours.Proofs.Control.Looking
import ServiceHours.Proofs.Remote.CallSequence
import ServiceHours.Proofs.Week.Latest

/-!
# The calls of a run

What a fleet records while plans are carried out, shown, and overridden by hand.

* `Agenda.Segment` says which calls a visit can make; a pass makes one segment after another (`Agenda.Segments`,
  `Agenda.exists_segments`).
* `Agenda.history` is all that happens to a fleet in a run of any turns, among them changes of what it is told to show.
* `Fleet.StopsInBlocks` says that tasks are ended only right after their service was scaled to zero and its tasks were
  listed. Sequences with this property can be joined (`Fleet.StopsInBlocks.append`), so it is enough that each turn has
  it (`Agenda.Turn.moves_spec`).
* `Agenda.history_shape` puts these together.
-/

namespace ServiceHours

/-! ### Segments -/

/-- A service that is started or rescaled comes to the wanted count. -/
private theorem Decision.ofStatus_shape (status : Status) (state : DesiredState) (count : Nat) (known : Bool) :
    (∃ reason, ofStatus status state count known = skip reason) ∨
    ofStatus status state count known = noOp ∨
    ofStatus status state count known = stop ∨
    ofStatus status state count known = start (wantedCount count) ∨
    ofStatus status state count known = rescale status.runningCount (wantedCount count) := by
  rcases hstate : status.state <;> rcases state <;> simp only [ofStatus, hstate]
  case running.running =>
    unfold ofCounts
    split <;> simp
  case unknown.running => cases known <;> simp
  case unknown.stopped => cases known <;> simp
  all_goals simp

namespace Agenda

variable {a : Agenda} {p : Plan} {f : Fleet}

/-- The plan is not disabled, and the table has transitions of its service. -/
def Scheduled (a : Agenda) (p : Plan) : Prop :=
  p.disabled = false ∧ a.week.occurrencesOf p.service ≠ []

/-- The calls of a visit to the fleet `f`. -/
inductive Segment (a : Agenda) (p : Plan) (f : Fleet) : List Call → Prop
  | none (h : ¬a.Scheduled p) : a.Segment p f []
  | look (h : a.Scheduled p) : a.Segment p f [.describe p.service]
  | scale (h : a.Scheduled p) {count : Nat} (hcount : 1 ≤ count) :
    a.Segment p f [.describe p.service, .setDesiredCount p.service count]
  | stop (h : a.Scheduled p) {g : Fleet} (hg : g = f.afterCall (.describe p.service)) :
    a.Segment p f (.describe p.service :: g.attempted (g.stopCalls p.service))

/-- The calls of visits in turn, each to the fleet that the ones before have left. -/
inductive Segments (a : Agenda) : Fleet → List Plan → List (List Call) → Prop
  | nil {f : Fleet} : a.Segments f [] []
  | cons {f : Fleet} {p : Plan} {plans : List Plan} {calls : List Call} {later : List (List Call)}
    (h : a.Segment p f calls) (hlater : a.Segments (f.afterCalls calls) plans later) :
    a.Segments f (p :: plans) (calls :: later)

private theorem Segment.service_of_mem {calls : List Call} (h : a.Segment p f calls) :
    ∀ c ∈ calls, c.service? = some p.service := by
  intro c hc
  cases h with
  | none _ => cases hc
  | look _ =>
    rw [List.mem_singleton.mp hc]
    rfl
  | scale _ _ =>
    rcases List.mem_cons.mp hc with rfl | hc
    · rfl
    · rw [List.mem_singleton.mp hc]
      rfl
  | stop _ hg =>
    rcases List.mem_cons.mp hc with rfl | hc
    · rfl
    · have hstop := (Fleet.isPrefix_attempted _ _).subset hc
      simp only [Fleet.stopCalls, Fleet.endCalls, List.mem_cons, List.mem_map] at hstop
      rcases hstop with rfl | rfl | ⟨task, -, rfl⟩ <;> rfl

/-- A decision on a service that was described is carried out by a segment. -/
private theorem segment_decisionCalls (h : a.Scheduled p) {g : Fleet} (hg : g = f.afterCall (.describe p.service))
    (status : Status) (state : DesiredState) (count : Nat) (known : Bool) :
    a.Segment p f
      (.describe p.service :: g.decisionCalls p.service (Decision.ofStatus status state count known)) := by
  have hwanted : 1 ≤ wantedCount count := Nat.le_max_left 1 count
  unfold Fleet.decisionCalls
  split
  · exact .look h
  · rcases Decision.ofStatus_shape status state count known with ⟨reason, he⟩ | he | he | he | he <;> rw [he]
    · exact .look h
    · exact .look h
    · exact .stop h hg
    · exact .scale h hwanted
    · exact .scale h hwanted

private theorem exists_segment (a : Agenda) (now : Timestamp) (p : Plan) (f : Fleet) :
    ∃ calls, a.Segment p f calls ∧ (a.visit Fleet.manager now false p f).value.2 = f.afterCalls calls := by
  have hdescribe : (Fleet.manager.describe p.service f).value = Fleet.describe p.service f := rfl
  have hafter : f.afterCalls [.describe p.service] = (Fleet.describe p.service f).2 := rfl
  simp only [visit_value, hdescribe, Bool.not_false, Bool.and_true]
  split
  · rename_i hdisabled
    exact ⟨[], .none fun h => Bool.eq_false_iff.mp h.1 hdisabled, rfl⟩
  · rename_i henabled
    split
    · rename_i hnone
      exact ⟨[], .none fun h => h.2 ((a.week.lastTransition_eq_none_iff _ now).mp hnone), rfl⟩
    · rename_i t ht
      have hscheduled : a.Scheduled p := by
        refine ⟨Bool.eq_false_iff.mpr henabled, fun hnil => ?_⟩
        rw [(a.week.lastTransition_eq_none_iff _ now).mpr hnil] at ht
        cases ht
      split
      · rename_i e g he
        refine ⟨_, .look hscheduled, ?_⟩
        rw [hafter, he]
      · rename_i status g hg
        have hlook : g = f.afterCall (.describe p.service) := (congrArg Prod.snd hg).symm
        refine ⟨_, segment_decisionCalls hscheduled hlook status t.state t.count (a.week.known p.service), ?_⟩
        show _ = (f.afterCall (.describe p.service)).afterCalls _
        rw [← hlook]
        split
        · rw [carryOut_value_snd, Fleet.executeAll_eq_afterCalls]
        · rename_i hrest
          rw [Fleet.decisionCalls_of_rest g p.service (Bool.eq_false_iff.mpr hrest)]
          rfl

theorem exists_segments (a : Agenda) (now : Timestamp) (plans : List Plan) (f : Fleet) :
    ∃ segments, a.Segments f plans segments ∧
      (a.visitAll Fleet.manager now false plans f).value.2 = f.afterCalls segments.flatten := by
  induction plans generalizing f with
  | nil => exact ⟨[], .nil, rfl⟩
  | cons p rest ih =>
    obtain ⟨calls, hcalls, hvisit⟩ := a.exists_segment now p f
    obtain ⟨later, hlater, hrest⟩ := ih (f.afterCalls calls)
    refine ⟨calls :: later, .cons hcalls hlater, ?_⟩
    rw [visitAll_cons_value, hvisit, List.flatten_cons, Fleet.afterCalls_append]
    exact hrest

end Agenda

/-! ### Blocks -/

namespace Fleet

/-- Whenever a task is ended, its service was scaled to zero with success; then its tasks were listed, and since then
nothing was done but to end those that were listed before this one. -/
def StopsInBlocks (f : Fleet) (moves : List Move) : Prop :=
  ∀ before after s task, moves = before ++ .call (.stopTask s task) :: after →
    ∃ front earlier listed,
      before = front ++ .call (.setDesiredCount s 0) :: .call (.runningTasks s) ::
          earlier.map (fun t => Move.call (.stopTask s t)) ∧
        (setDesiredCount s 0 (front.foldl Fleet.after f)).1 = .ok () ∧
        (runningTasks s (setDesiredCount s 0 (front.foldl Fleet.after f)).2).1 = .ok listed ∧
        earlier ++ [task] <+: listed

variable {f : Fleet} {s : Service}

private theorem stopsInBlocks_of_forall_ne {moves : List Move} (h : ∀ s task, .call (.stopTask s task) ∉ moves) :
    f.StopsInBlocks moves := by
  rintro before after s task rfl
  exact absurd (List.mem_append_right before List.mem_cons_self) (h s task)

theorem StopsInBlocks.append {first second : List Move} (hfirst : f.StopsInBlocks first)
    (hsecond : (first.foldl Fleet.after f).StopsInBlocks second) : f.StopsInBlocks (first ++ second) := by
  intro before after s task hmoves
  rcases List.append_eq_append_iff.mp hmoves with ⟨middle, hbefore, hsplit⟩ | ⟨middle, hsplit, hafter⟩
  · -- The task is ended in the second part; what comes before it there follows the whole first part.
    obtain ⟨front, earlier, listed, rfl, hscaled, hlisted, hprefix⟩ := hsecond middle after s task hsplit
    refine ⟨first ++ front, earlier, listed, ?_, ?_, ?_, hprefix⟩
    · rw [hbefore, List.append_assoc]
    · rw [List.foldl_append]
      exact hscaled
    · rw [List.foldl_append]
      exact hlisted
  · cases middle with
    | nil =>
      rw [List.append_nil] at hsplit
      subst hsplit
      obtain ⟨front, earlier, listed, hnil, hscaled, hlisted, hprefix⟩ := hsecond [] after s task hafter.symm
      simp at hnil
    | cons move middle =>
      obtain ⟨rfl, rfl⟩ := List.cons.inj hafter
      exact hfirst before middle s task hsplit

/-- Calls are moves like others. -/
private theorem foldl_after_calls (f : Fleet) (calls : List Call) :
    (calls.map Move.call).foldl Fleet.after f = f.afterCalls calls := by
  rw [List.foldl_map]
  rfl

private theorem stopsInBlocks_block {listed ended : List String} (hscaled : (setDesiredCount s 0 f).1 = .ok ())
    (hlisted : (runningTasks s (setDesiredCount s 0 f).2).1 = .ok listed) (hended : ended <+: listed) :
    f.StopsInBlocks (.call (.setDesiredCount s 0) :: .call (.runningTasks s) ::
      ended.map (fun t => Move.call (.stopTask s t))) := by
  intro before after s' task hmoves
  rcases before with - | ⟨first, before⟩
  · cases hmoves
  obtain ⟨hfirst, hmoves⟩ := List.cons.inj hmoves
  rcases before with - | ⟨second, before⟩
  · cases hmoves
  obtain ⟨hsecond, hmoves⟩ := List.cons.inj hmoves
  obtain ⟨earlier, rest, rfl, hbefore, hrest⟩ := List.map_eq_append_iff.mp hmoves
  obtain ⟨t, later, rfl, ht, -⟩ := List.map_eq_cons_iff.mp hrest
  cases ht
  refine ⟨[], earlier, listed, ?_, hscaled, hlisted, List.IsPrefix.trans ?_ hended⟩
  · rw [← hfirst, ← hsecond, ← hbefore]
    rfl
  · exact ⟨later, by rw [List.append_assoc, List.singleton_append]⟩

private theorem stopsInBlocks_stopCalls (f : Fleet) (s : Service) :
    f.StopsInBlocks ((f.attempted (f.stopCalls s)).map Move.call) := by
  rcases f.attempted_stopCalls_cases s with he | he | ⟨listed, ended, hscaled, hlisted, hended, he⟩ <;> rw [he]
  · exact stopsInBlocks_of_forall_ne (by simp)
  · exact stopsInBlocks_of_forall_ne (by simp)
  · rw [List.map_cons, List.map_cons, List.map_map]
    exact stopsInBlocks_block hscaled hlisted hended

private theorem stopsInBlocks_decisionCalls (f : Fleet) (s : Service) (d : Decision) :
    f.StopsInBlocks ((f.decisionCalls s d).map Move.call) := by
  unfold decisionCalls
  split
  · exact stopsInBlocks_of_forall_ne (by simp)
  · cases d with
    | skip reason => exact stopsInBlocks_of_forall_ne (by simp)
    | noOp => exact stopsInBlocks_of_forall_ne (by simp)
    | stop => exact f.stopsInBlocks_stopCalls s
    | start count => exact stopsInBlocks_of_forall_ne (by simp)
    | rescale running wanted => exact stopsInBlocks_of_forall_ne (by simp)

/-- From `f` to `g` calls were made that end tasks in blocks. -/
def CallsInBlocks (f g : Fleet) : Prop :=
  ∃ calls, g = f.afterCalls calls ∧ f.StopsInBlocks (calls.map Move.call)

private theorem OnlyLooked.callsInBlocks {g : Fleet} (h : f.OnlyLooked g) : f.CallsInBlocks g := by
  obtain ⟨calls, hg, hcalls⟩ := h
  refine ⟨calls, hg, stopsInBlocks_of_forall_ne fun s task hmem => ?_⟩
  obtain ⟨c, hc, he⟩ := List.mem_map.mp hmem
  cases he
  cases hcalls _ hc

private theorem callsInBlocks_executeAll (f : Fleet) (s : Service) (d : Decision) :
    f.CallsInBlocks (manager.executeAll (d.actions s) f).value.2 :=
  ⟨_, f.executeAll_eq_afterCalls s d, f.stopsInBlocks_decisionCalls s d⟩

/-- The calls are those by which the record grew. -/
private theorem CallsInBlocks.of_recorded {g : Fleet} (h : f.CallsInBlocks g) :
    ((g.calls.drop f.calls.length).map Move.call).foldl Fleet.after f = g ∧
      f.StopsInBlocks ((g.calls.drop f.calls.length).map Move.call) := by
  obtain ⟨calls, rfl, hblocks⟩ := h
  rw [calls_afterCalls, List.drop_left, foldl_after_calls]
  exact ⟨rfl, hblocks⟩

end Fleet

namespace Agenda

variable {a : Agenda} {p : Plan} {f : Fleet}

private theorem Segment.stopsInBlocks {calls : List Call} (h : a.Segment p f calls) :
    f.StopsInBlocks (calls.map Fleet.Move.call) := by
  cases h with
  | none _ => exact Fleet.stopsInBlocks_of_forall_ne (by simp)
  | look _ => exact Fleet.stopsInBlocks_of_forall_ne (by simp)
  | scale _ _ => exact Fleet.stopsInBlocks_of_forall_ne (by simp)
  | stop _ hg =>
    -- The block begins after the service was described.
    have hlook : f.StopsInBlocks [.call (.describe p.service)] := Fleet.stopsInBlocks_of_forall_ne (by simp)
    subst hg
    exact hlook.append (Fleet.stopsInBlocks_stopCalls _ p.service)

private theorem Segments.stopsInBlocks {plans : List Plan} {segments : List (List Call)}
    (h : a.Segments f plans segments) :
    f.StopsInBlocks (segments.flatten.map Fleet.Move.call) := by
  induction h with
  | nil => exact Fleet.stopsInBlocks_of_forall_ne (by simp)
  | cons hcalls _ ih =>
    rw [List.flatten_cons, List.map_append]
    refine hcalls.stopsInBlocks.append ?_
    rw [Fleet.foldl_after_calls]
    exact ih

private theorem callsInBlocks_apply (a : Agenda) (f : Fleet) (now : Timestamp) :
    f.CallsInBlocks (a.apply Fleet.manager now f).value.2 := by
  obtain ⟨segments, hsegments, hafter⟩ := a.exists_segments now a.plans f
  exact ⟨segments.flatten, hafter, hsegments.stopsInBlocks⟩

/-- Changes by hand carry out a decision, whether or not there is a service to carry it out on. -/
private theorem callsInBlocks_override (a : Agenda) (f : Fleet) (mode service : String) (d : Decision) :
    f.CallsInBlocks (a.override Fleet.manager mode service (fun s => d.actions s) f).value.2 := by
  rw [override_value]
  split
  · exact (Fleet.OnlyLooked.refl f).callsInBlocks
  · exact f.callsInBlocks_executeAll _ d

/-! ### Runs -/

/-- What can happen in a run: the operations of an agenda, and between them any change of the fleet that is not a
call. -/
inductive Turn
  | plan (now : Timestamp)
  | apply (now : Timestamp)
  | start (service : String)
  | stop (service : String)
  | rescale (service : String) (count : Nat)
  | status (now : Timestamp)
  | report (now : Timestamp)
  | script (move : Fleet.Move) (quiet : ∀ c, move ≠ .call c)

namespace Turn

/-- The fleet after a turn. -/
def after (a : Agenda) (f : Fleet) : Turn → Fleet
  | plan now => (a.plan Fleet.manager now f).value.2
  | apply now => (a.apply Fleet.manager now f).value.2
  | start service => (a.start Fleet.manager service f).value.2
  | stop service => (a.stop Fleet.manager service f).value.2
  | rescale service count => (a.rescale Fleet.manager service count f).value.2
  | status now => (a.status Fleet.manager now f).value.2
  | report now => (a.report Fleet.manager now f).value.2
  | script move _ => f.after move

/-- The calls that the fleet records in a turn. -/
def calls (a : Agenda) (f : Fleet) (turn : Turn) : List Call :=
  (turn.after a f).calls.drop f.calls.length

/-- What happens to the fleet in a turn: the change that was asked for, or the calls that are recorded. -/
def moves (a : Agenda) (f : Fleet) (turn : Turn) : List Fleet.Move :=
  match turn with
  | script move _ => [move]
  | turn => (turn.calls a f).map .call

/-- The moves of a turn lead to the fleet after it, and they end tasks in blocks. -/
theorem moves_spec (a : Agenda) (f : Fleet) (turn : Turn) :
    (turn.moves a f).foldl Fleet.after f = turn.after a f ∧ f.StopsInBlocks (turn.moves a f) := by
  cases turn <;> simp only [moves, calls, after]
  case plan now => exact (f.onlyLooked_plan a now).callsInBlocks.of_recorded
  case apply now => exact (a.callsInBlocks_apply f now).of_recorded
  case start service =>
    rw [start_eq_override]
    exact (a.callsInBlocks_override f "start" service (.start 1)).of_recorded
  case stop service =>
    rw [stop_eq_override]
    exact (a.callsInBlocks_override f "stop" service .stop).of_recorded
  case rescale service count =>
    rw [rescale_eq_override]
    exact (a.callsInBlocks_override f "rescale" service (.rescale 0 count)).of_recorded
  case status now => exact (f.onlyLooked_status a now).callsInBlocks.of_recorded
  case report now => exact (f.onlyLooked_report a now).callsInBlocks.of_recorded
  case script move quiet =>
    refine ⟨rfl, Fleet.stopsInBlocks_of_forall_ne fun s task hmem => ?_⟩
    exact quiet (.stopTask s task) (List.mem_singleton.mp hmem).symm

end Turn

/-- All that happens to the fleet in a run. -/
def history (a : Agenda) (f : Fleet) : List Turn → List Fleet.Move
  | [] => []
  | turn :: turns => turn.moves a f ++ a.history (turn.after a f) turns

private theorem foldl_history (a : Agenda) (f : Fleet) (turns : List Turn) :
    (a.history f turns).foldl Fleet.after f = turns.foldl (fun g turn => turn.after a g) f := by
  induction turns generalizing f with
  | nil => rfl
  | cons turn turns ih => rw [history, List.foldl_append, (turn.moves_spec a f).1, ih, List.foldl_cons]

private theorem stopsInBlocks_history (a : Agenda) (f : Fleet) (turns : List Turn) :
    f.StopsInBlocks (a.history f turns) := by
  induction turns generalizing f with
  | nil => exact Fleet.stopsInBlocks_of_forall_ne fun _ _ hmem => absurd hmem List.not_mem_nil
  | cons turn turns ih =>
    obtain ⟨hafter, hblocks⟩ := turn.moves_spec a f
    refine hblocks.append ?_
    rw [hafter]
    exact ih _

/-- The history of a run leads to its last fleet, and in it no task is ended before its service was scaled to zero:
tasks are ended in blocks, those that were listed and in that order. The calls of a pass that carries its decisions out
are one segment for each plan, in the order of the plans, and each is about the service of its plan. -/
theorem history_shape (a : Agenda) (f : Fleet) (turns : List Turn) :
    (a.history f turns).foldl Fleet.after f = turns.foldl (fun g turn => turn.after a g) f ∧
      f.StopsInBlocks (a.history f turns) ∧
      (∀ now g, ∃ segments, a.Segments g a.plans segments ∧ (Turn.apply now).calls a g = segments.flatten) ∧
      ∀ p g calls, a.Segment p g calls → ∀ c ∈ calls, c.service? = some p.service := by
  refine ⟨a.foldl_history f turns, a.stopsInBlocks_history f turns, fun now g => ?_, fun p g calls h =>
    h.service_of_mem⟩
  obtain ⟨segments, hsegments, hafter⟩ := a.exists_segments now a.plans g
  refine ⟨segments, hsegments, ?_⟩
  show (a.apply Fleet.manager now g).value.2.calls.drop g.calls.length = _
  rw [apply, pass_value, hafter, Fleet.calls_afterCalls, List.drop_left]

/-- Tasks that survive the scaling are ended one by one. -/
example :
    let web : Service := ⟨"shop/web"⟩
    let f := ((Fleet.addService {} web).setRunning web 2).keepTasks
    (Turn.stop " shop/web ").calls (.ofPlans "default" []) f =
      [.setDesiredCount web 0, .runningTasks web, .stopTask web "web/task-1", .stopTask web "web/task-2"] := by
  decide +kernel

end Agenda

end ServiceHours
