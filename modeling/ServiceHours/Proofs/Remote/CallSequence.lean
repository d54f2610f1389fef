import ServiceHours.Proofs.Control.Steps
import ServiceHours.Proofs.Remote.Reachable

/-!
# Sequences of calls

Runs on a fleet as the sequences of calls they make.

* `Fleet.afterCalls` makes calls one after another; each is recorded (`Fleet.calls_afterCalls`).
* `Fleet.attempted` cuts a sequence right after the first call that fails.
* Ending the tasks of a service is such a sequence (`Fleet.stopRunningTasks_eq_afterCalls`), and so is carrying out a
  decision (`Fleet.executeAll_eq_afterCalls`): to stop a service, it is scaled to zero, its tasks are listed, and those
  listed are stopped in turn (`Fleet.stopCalls`).
-/

namespace ServiceHours

namespace Fleet

/-- Whether a call is answered without an error. -/
def accepts (f : Fleet) : Call → Bool
  | .listServices tag => (listServices tag f).1.isOk
  | .tagValue s tag => (tagValue s tag f).1.isOk
  | .describe s => (describe s f).1.isOk
  | .setDesiredCount s count => (setDesiredCount s count f).1.isOk
  | .runningTasks s => (runningTasks s f).1.isOk
  | .stopTask s task => (stopTask s task f).1.isOk

def afterCalls (f : Fleet) (calls : List Call) : Fleet :=
  calls.foldl afterCall f

/-- The calls of a sequence up to and with the first one that fails. -/
def attempted (f : Fleet) : List Call → List Call
  | [] => []
  | c :: rest => c :: if f.accepts c then (f.afterCall c).attempted rest else []

/-- The tasks that the fleet lists for a service; none where it fails to. -/
def listed (f : Fleet) (s : Service) : List String :=
  match (runningTasks s f).1 with
  | .ok tasks => tasks
  | .error _ => []

/-- The calls that list the tasks of a service and end each of them. -/
def endCalls (f : Fleet) (s : Service) : List Call :=
  .runningTasks s :: (f.listed s).map (.stopTask s)

/-- The calls that stop a service: after scaling it to zero, the tasks that are left are ended. -/
def stopCalls (f : Fleet) (s : Service) : List Call :=
  .setDesiredCount s 0 :: (f.afterCall (.setDesiredCount s 0)).endCalls s

/-- The calls that carry out a decision; a service without a path gets none. -/
def decisionCalls (f : Fleet) (s : Service) (d : Decision) : List Call :=
  if s.isEmpty then []
  else match d with
    | .skip _ | .noOp => []
    | .stop => f.attempted (f.stopCalls s)
    | .start count => [.setDesiredCount s count]
    | .rescale _ wanted => [.setDesiredCount s wanted]

variable {f : Fleet} {s : Service}

/-- A decision that changes nothing needs no calls. -/
theorem decisionCalls_of_rest (f : Fleet) (s : Service) {d : Decision} (h : d.isChange = false) :
    f.decisionCalls s d = [] := by
  unfold decisionCalls
  cases d with
  | skip reason => exact ite_self []
  | noOp => exact ite_self []
  | stop => cases h
  | start count => cases h
  | rescale current wanted => cases h

/-! ### Recorded calls -/

theorem calls_afterCall (f : Fleet) (c : Call) : (f.afterCall c).calls = f.calls ++ [c] := by
  rcases f.afterCall_cases c with he | ⟨_, _, -, he, -⟩
  · rw [he]
    rfl
  · rw [he]
    rfl

theorem calls_afterCalls (f : Fleet) (calls : List Call) : (f.afterCalls calls).calls = f.calls ++ calls := by
  induction calls generalizing f with
  | nil => exact (List.append_nil f.calls).symm
  | cons c calls ih =>
    show ((f.afterCall c).afterCalls calls).calls = _
    rw [ih, calls_afterCall, List.append_assoc, List.singleton_append]

theorem listed_of_ok (f : Fleet) {tasks : List String} (h : (runningTasks s f).1 = .ok tasks) : f.listed s = tasks := by
  rw [listed, h]

theorem afterCalls_append (f : Fleet) (first second : List Call) :
    f.afterCalls (first ++ second) = (f.afterCalls first).afterCalls second :=
  List.foldl_append

/-! ### Attempted calls -/

section Attempted

variable {c : Call} (rest : List Call)

theorem attempted_cons_of_ok (h : f.accepts c = true) :
    f.attempted (c :: rest) = c :: (f.afterCall c).attempted rest := by
  rw [attempted, if_pos h]

theorem attempted_cons_of_error (h : f.accepts c = false) : f.attempted (c :: rest) = [c] := by
  rw [attempted, if_neg (Bool.eq_false_iff.mp h)]

end Attempted

theorem isPrefix_attempted (f : Fleet) (calls : List Call) : f.attempted calls <+: calls := by
  induction calls generalizing f with
  | nil => exact List.prefix_rfl
  | cons c rest ih =>
    unfold attempted
    split
    · exact (List.prefix_cons_inj c).mpr (ih _)
    · exact (List.prefix_cons_inj c).mpr List.nil_prefix

/-- Stopping a service fails to scale it, fails to list its tasks, or ends some of those listed, in their order. -/
theorem attempted_stopCalls_cases (f : Fleet) (s : Service) :
    f.attempted (f.stopCalls s) = [.setDesiredCount s 0] ∨
    f.attempted (f.stopCalls s) = [.setDesiredCount s 0, .runningTasks s] ∨
    ∃ tasks ended, (setDesiredCount s 0 f).1 = .ok () ∧ (runningTasks s (setDesiredCount s 0 f).2).1 = .ok tasks ∧
      ended <+: tasks ∧
      f.attempted (f.stopCalls s) = .setDesiredCount s 0 :: .runningTasks s :: ended.map (.stopTask s) := by
  have hafter : f.afterCall (.setDesiredCount s 0) = (setDesiredCount s 0 f).2 := rfl
  rw [stopCalls]
  cases hscaled : (setDesiredCount s 0 f).1 with
  | error e =>
    have hfails : f.accepts (.setDesiredCount s 0) = false := congrArg Except.isOk hscaled
    exact Or.inl (attempted_cons_of_error _ hfails)
  | ok _ =>
    have haccepts : f.accepts (.setDesiredCount s 0) = true := congrArg Except.isOk hscaled
    rw [attempted_cons_of_ok _ haccepts, endCalls, hafter]
    generalize (setDesiredCount s 0 f).2 = g
    cases hlisted : (runningTasks s g).1 with
    | error e =>
      have hfails : g.accepts (.runningTasks s) = false := congrArg Except.isOk hlisted
      rw [attempted_cons_of_error _ hfails]
      exact Or.inr (Or.inl rfl)
    | ok tasks =>
      have haccepts' : g.accepts (.runningTasks s) = true := congrArg Except.isOk hlisted
      have hprefix := (g.afterCall (.runningTasks s)).isPrefix_attempted (tasks.map (.stopTask s))
      obtain ⟨ended, hended, he⟩ := List.prefix_map_iff.mp hprefix
      rw [attempted_cons_of_ok _ haccepts', g.listed_of_ok hlisted, he]
      exact Or.inr (Or.inr ⟨tasks, ended, rfl, rfl, hended, rfl⟩)

/-! ### Carrying out -/

/-- Ending tasks one by one stops at the first that cannot be ended. -/
private theorem stopTasks_eq_afterCalls (f : Fleet) (s : Service) (tasks : List String) :
    (manager.stopTasks s tasks f).value.2 = f.afterCalls (f.attempted (tasks.map (.stopTask s))) := by
  induction tasks generalizing f with
  | nil => rfl
  | cons task tasks ih =>
    have hcall : (manager.stopTask s task f).value = stopTask s task f := rfl
    rw [Manager.stopTasks, Run.bind_apply, Run.tell_apply, Run.bind_apply, hcall, List.map_cons]
    dsimp only
    cases hanswer : (stopTask s task f).1 with
    | error e =>
      have hfails : f.accepts (.stopTask s task) = false := congrArg Except.isOk hanswer
      rw [attempted_cons_of_error _ hfails]
      rfl
    | ok _ =>
      have haccepts : f.accepts (.stopTask s task) = true := congrArg Except.isOk hanswer
      rw [attempted_cons_of_ok _ haccepts]
      exact ih (f.afterCall (.stopTask s task))

theorem stopRunningTasks_eq_afterCalls (f : Fleet) (s : Service) :
    (manager.stopRunningTasks s f).value.2 = f.afterCalls (f.attempted (f.endCalls s)) := by
  have hcall : (manager.runningTasks s f).value = runningTasks s f := rfl
  rw [Manager.stopRunningTasks, Run.bind_apply, hcall, endCalls]
  dsimp only
  cases hanswer : (runningTasks s f).1 with
  | error e =>
    have hfails : f.accepts (.runningTasks s) = false := congrArg Except.isOk hanswer
    rw [attempted_cons_of_error _ hfails]
    rfl
  | ok tasks =>
    have haccepts : f.accepts (.runningTasks s) = true := congrArg Except.isOk hanswer
    have hended := (f.afterCall (.runningTasks s)).stopTasks_eq_afterCalls s tasks
    rw [attempted_cons_of_ok _ haccepts, f.listed_of_ok hanswer]
    dsimp only
    rw [Run.bind_apply]
    -- Whether or not all tasks could be ended, nothing follows.
    cases (manager.stopTasks s tasks (runningTasks s f).2).value.1 <;> exact hended

/-- Without a path there is nothing to call on. -/
private theorem executeAll_of_isEmpty (f : Fleet) (hname : s.isEmpty = true) {actions : List Action}
    (hs : ∀ a ∈ actions, a.service = s) : (manager.executeAll actions f).value.2 = f := by
  cases actions with
  | nil => rfl
  | cons a rest =>
    have ha : a.service.isEmpty = true := by rw [hs a List.mem_cons_self, hname]
    rw [Manager.executeAll_cons_value, Manager.perform_value_of_isEmpty manager ha]

private theorem executeAll_setDesiredCount (f : Fleet) (hname : s.isEmpty = false) (count : Nat) :
    (manager.executeAll [.setDesiredCount s count] f).value.2 = f.afterCalls [.setDesiredCount s count] := by
  rw [Manager.executeAll_cons_value, Manager.perform_setDesiredCount_value manager hname]
  cases (manager.setDesiredCount s count f).value.1 <;> rfl

private theorem executeAll_stop (f : Fleet) (hname : s.isEmpty = false) :
    (manager.executeAll [.setDesiredCount s 0, .stopRunningTasks s] f).value.2 =
      f.afterCalls (f.attempted (f.stopCalls s)) := by
  have hcall : (manager.setDesiredCount s 0 f).value = setDesiredCount s 0 f := rfl
  rw [Manager.executeAll_cons_value, Manager.perform_setDesiredCount_value manager hname, hcall, stopCalls]
  cases hanswer : (setDesiredCount s 0 f).1 with
  | error e =>
    have hfails : f.accepts (.setDesiredCount s 0) = false := congrArg Except.isOk hanswer
    rw [attempted_cons_of_error _ hfails]
    rfl
  | ok _ =>
    have haccepts : f.accepts (.setDesiredCount s 0) = true := congrArg Except.isOk hanswer
    have hended := (f.afterCall (.setDesiredCount s 0)).stopRunningTasks_eq_afterCalls s
    rw [attempted_cons_of_ok _ haccepts]
    show (manager.executeAll [.stopRunningTasks s] (setDesiredCount s 0 f).2).value.2 = _
    rw [Manager.executeAll_cons_value, Manager.perform_stopRunningTasks_value manager hname]
    cases (manager.stopRunningTasks s (setDesiredCount s 0 f).2).value.1 <;> exact hended

/-- The state after the actions of a decision is that after its calls. -/
theorem executeAll_eq_afterCalls (f : Fleet) (s : Service) (d : Decision) :
    (manager.executeAll (d.actions s) f).value.2 = f.afterCalls (f.decisionCalls s d) := by
  unfold decisionCalls
  cases hname : s.isEmpty with
  | true => exact f.executeAll_of_isEmpty hname fun _ => Decision.service_of_mem_actions
  | false =>
    cases d with
    | skip reason => rfl
    | noOp => rfl
    | stop => exact f.executeAll_stop hname
    | start count => exact f.executeAll_setDesiredCount hname count
    | rescale current wanted => exact f.executeAll_setDesiredCount hname wanted

end Fleet

end ServiceHours
