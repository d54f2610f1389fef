import ServiceHours.Proofs.Remote.CallSequence

/-!
# Stopping a service

The decision to stop a service, carried out on a fleet that hosts it.

* The tasks are ended one by one while the list of those to be ended stays what it was at first. After the last of them
  the service is stopped and has none, in whatever state it was seen before (`Hosted.foldl_endTask`).
* `Fleet.Obeys` is kept by each of the calls, with what becomes of the service; so all of them are made
  (`Fleet.Obeys.stopTasks_value`, `Fleet.Obeys.executeAll_stop_value`), and no other service changes
  (`Fleet.localTo_afterCalls`).
-/

namespace ServiceHours

namespace Hosted

variable {s : Service} {h : Hosted}

/-- Ending tasks one by one, with all that the service has among them, leaves it stopped and without tasks. -/
theorem foldl_endTask {tasks : List String} (hne : tasks ≠ []) (hsubset : h.tasks ⊆ tasks) :
    tasks.foldl endTask h = { h with state := .stopped, tasks := [] } := by
  induction tasks generalizing h with
  | nil => exact absurd rfl hne
  | cons task rest ih =>
    -- What is left after the first is among the others, and only the last needs to see that nothing is left.
    have hleft : (h.endTask task).tasks ⊆ rest := by
      intro t ht
      obtain ⟨hmem, hother⟩ := List.mem_filter.mp ht
      exact (List.mem_cons.mp (hsubset hmem)).resolve_left (of_decide_eq_true hother)
    rw [List.foldl_cons]
    cases rest with
    | nil =>
      have hnone : h.tasks.filter (· ≠ task) = [] := List.eq_nil_of_subset_nil hleft
      simp only [List.foldl_nil, endTask, hnone, List.isEmpty_nil, if_true]
    | cons next rest => exact ih (List.cons_ne_nil next rest) hleft

/-- Scaling a service to zero drops all tasks, unless they are kept. -/
private theorem tasks_scale_zero (h : Hosted) (s : Service) (keep : Bool) :
    (h.scale s 0 keep).tasks = if keep then h.tasks else [] := by
  cases keep <;> rfl

/-- Once the tasks that are left have been ended, a service that was scaled to zero is stopped. -/
private theorem foldl_endTask_scale (h : Hosted) (s : Service) (keep : Bool) :
    (h.scale s 0 keep).tasks.foldl endTask (h.scale s 0 keep) =
      { h with state := .stopped, desiredCount := 0, tasks := [] } := by
  by_cases hnil : (h.scale s 0 keep).tasks = []
  · -- There is no task to end, and scaling has already seen to the state.
    rw [hnil, List.foldl_nil]
    cases keep with
    | false => rfl
    | true =>
      rw [tasks_scale_zero, if_pos rfl] at hnil
      simp [scale, hnil]
  · rw [foldl_endTask hnil (List.Subset.refl _)]
    cases keep <;> rfl

end Hosted

namespace Fleet

variable {f : Fleet} {s : Service} {h : Hosted}

/-! ### A service that can be changed -/

/-- The fleet hosts the service, with `h` known of it, and was not told to fail on changing it. -/
structure Obeys (f : Fleet) (s : Service) (h : Hosted) : Prop where
  hosted : f.find? s = some h
  works : s ∉ f.failingUpdate

private theorem Obeys.update (ho : f.Obeys s h) (change : Hosted → Hosted) :
    (f.update s change).Obeys s (change h) where
  hosted := by rw [find?_update_self, ho.hosted, Option.map_some]
  works := ho.works

private theorem Obeys.record (ho : f.Obeys s h) (c : Call) : (f.record c).Obeys s h :=
  ⟨ho.hosted, ho.works⟩

/-- Scaling succeeds. -/
private theorem Obeys.setDesiredCount (ho : f.Obeys s h) (count : Nat) :
    setDesiredCount s count f = (.ok (), f.afterCall (.setDesiredCount s count)) ∧
      (f.afterCall (.setDesiredCount s count)).Obeys s (h.scale s count f.keepsTasks) := by
  have he : Fleet.setDesiredCount s count f =
      (.ok (), (f.record (.setDesiredCount s count)).update s fun h => h.scale s count f.keepsTasks) := by
    simp [Fleet.setDesiredCount, ho.hosted, ho.works]
  have hafter : f.afterCall (.setDesiredCount s count) = _ := congrArg Prod.snd he
  rw [hafter]
  exact ⟨he, (ho.record _).update fun h => h.scale s count f.keepsTasks⟩

/-- Looking for the tasks shows them and changes nothing. -/
private theorem Obeys.runningTasks (ho : f.Obeys s h) :
    runningTasks s f = (.ok h.tasks, f.afterCall (.runningTasks s)) ∧ (f.afterCall (.runningTasks s)).Obeys s h := by
  have he : Fleet.runningTasks s f = (.ok h.tasks, f.record (.runningTasks s)) := by
    simp [Fleet.runningTasks, ho.hosted]
  have hafter : f.afterCall (.runningTasks s) = _ := congrArg Prod.snd he
  rw [hafter]
  exact ⟨he, ho.record _⟩

/-- Ending a task succeeds, also where there is none of this name. -/
private theorem Obeys.stopTask (ho : f.Obeys s h) (task : String) :
    stopTask s task f = (.ok (), f.afterCall (.stopTask s task)) ∧
      (f.afterCall (.stopTask s task)).Obeys s (h.endTask task) := by
  have he : Fleet.stopTask s task f =
      (.ok (), (f.record (.stopTask s task)).update s fun h => h.endTask task) := by
    simp [Fleet.stopTask, ho.hosted, ho.works]
  have hafter : f.afterCall (.stopTask s task) = _ := congrArg Prod.snd he
  rw [hafter]
  exact ⟨he, (ho.record _).update fun h => h.endTask task⟩

/-! ### All calls -/

/-- Each task of a list is ended in its turn, whatever is left of the service in the meantime. -/
theorem Obeys.stopTasks_value (ho : f.Obeys s h) (tasks : List String) :
    (manager.stopTasks s tasks f).value = (.ok (), f.afterCalls (tasks.map (.stopTask s))) ∧
      (f.afterCalls (tasks.map (.stopTask s))).Obeys s (tasks.foldl Hosted.endTask h) := by
  induction tasks generalizing f h with
  | nil => exact ⟨rfl, ho⟩
  | cons task tasks ih =>
    obtain ⟨hanswer, hafter⟩ := ho.stopTask task
    have hcall : (manager.stopTask s task f).value = (.ok (), f.afterCall (.stopTask s task)) := hanswer
    obtain ⟨hvalue, hend⟩ := ih hafter
    refine ⟨?_, hend⟩
    rw [Manager.stopTasks, Run.bind_apply, Run.tell_apply, Run.bind_apply, hcall]
    exact hvalue

private theorem Obeys.endCalls_eq (ho : f.Obeys s h) : f.endCalls s = .runningTasks s :: h.tasks.map (.stopTask s) := by
  rw [endCalls, f.listed_of_ok (congrArg Prod.fst ho.runningTasks.1)]

/-- The tasks that are listed are all ended. -/
private theorem Obeys.stopRunningTasks_value (ho : f.Obeys s h) :
    (manager.stopRunningTasks s f).value = (.ok (), f.afterCalls (f.endCalls s)) ∧
      (f.afterCalls (f.endCalls s)).Obeys s (h.tasks.foldl Hosted.endTask h) := by
  obtain ⟨hanswer, hafter⟩ := ho.runningTasks
  have hcall : (manager.runningTasks s f).value = (.ok h.tasks, f.afterCall (.runningTasks s)) := hanswer
  obtain ⟨hvalue, hend⟩ := hafter.stopTasks_value h.tasks
  rw [ho.endCalls_eq]
  refine ⟨?_, hend⟩
  rw [Manager.stopRunningTasks, Run.bind_apply, hcall]
  dsimp only
  rw [Run.bind_apply, hvalue]
  rfl

/-- The decision to stop is carried out to its end, and leaves the service stopped and without tasks. -/
theorem Obeys.executeAll_stop_value (ho : f.Obeys s h) (hname : s.isEmpty = false) :
    (manager.executeAll (Decision.stop.actions s) f).value = (.ok (), f.afterCalls (f.stopCalls s)) ∧
      (f.afterCalls (f.stopCalls s)).Obeys s { h with state := .stopped, desiredCount := 0, tasks := [] } := by
  obtain ⟨hanswer, hafter⟩ := ho.setDesiredCount 0
  have hcall : (manager.setDesiredCount s 0 f).value = (.ok (), f.afterCall (.setDesiredCount s 0)) := hanswer
  obtain ⟨hvalue, hend⟩ := hafter.stopRunningTasks_value
  rw [Hosted.foldl_endTask_scale] at hend
  refine ⟨?_, hend⟩
  rw [Decision.actions, Manager.executeAll_cons_value, Manager.perform_setDesiredCount_value manager hname, hcall]
  dsimp only [Except.mapError]
  rw [Manager.executeAll_cons_value, Manager.perform_stopRunningTasks_value manager hname, hvalue]
  rfl

private theorem Obeys.stopCalls_eq (ho : f.Obeys s h) : f.stopCalls s =
    .setDesiredCount s 0 :: .runningTasks s :: (if f.keepsTasks then h.tasks else []).map (.stopTask s) := by
  rw [stopCalls, (ho.setDesiredCount 0).2.endCalls_eq, Hosted.tasks_scale_zero]

theorem localTo_afterCalls (f : Fleet) {calls : List Call} (h : ∀ c ∈ calls, c.service? = some s) :
    f.LocalTo s (f.afterCalls calls) := by
  induction calls generalizing f with
  | nil => exact .refl s f
  | cons c calls ih =>
    obtain ⟨hc, hcalls⟩ := List.forall_mem_cons.mp h
    exact (localTo_afterCall f hc).trans (ih (f.afterCall c) hcalls)

/-- To stop a service of a reachable fleet succeeds, and leaves it stopped, with a desired count of zero and without
tasks, in whatever state it was seen and however many tasks it had. It is scaled to zero once, the tasks that this left
are each ended once, nothing else is changed, and all that is known of other services stays. -/
theorem stop_leaves_nothing (hf : f.Reachable) (hs : f.find? s = some h) (hname : s.isEmpty = false)
    (hworks : s ∉ f.failingUpdate) :
    let left := if f.keepsTasks then h.tasks else []
    ∃ g, (manager.executeAll (Decision.stop.actions s) f).value = (.ok (), g) ∧
      g.find? s = some { h with state := .stopped, desiredCount := 0, tasks := [] } ∧
      (Fleet.runningTasks s (Fleet.setDesiredCount s 0 f).2).1 = .ok left ∧ left.Nodup ∧
      g.calls = f.calls ++ .setDesiredCount s 0 :: .runningTasks s :: left.map (.stopTask s) ∧
      g.mutations = f.mutations ++ .setDesiredCount s 0 :: left.map (.stopTask s) ∧
      ∀ t, t ≠ s → g.find? t = f.find? t := by
  intro left
  have ho : f.Obeys s h := ⟨hs, hworks⟩
  have hcalls : f.stopCalls s = .setDesiredCount s 0 :: .runningTasks s :: left.map (.stopTask s) := ho.stopCalls_eq
  obtain ⟨hvalue, hend⟩ := ho.executeAll_stop_value hname
  have hlisted := congrArg Prod.fst (ho.setDesiredCount 0).2.runningTasks.1
  rw [Hosted.tasks_scale_zero] at hlisted
  have hnodup : left.Nodup := by
    show (if f.keepsTasks then h.tasks else []).Nodup
    split
    · exact hf.nodup_tasks hs
    · exact List.nodup_nil
  have hmade : ∀ c ∈ f.stopCalls s, c.service? = some s := by
    rw [hcalls]
    simp [Call.service?]
  have hends : (left.map (.stopTask s)).filter Call.isMutation = left.map (.stopTask s) :=
    List.filter_eq_self.mpr (List.forall_mem_map.mpr fun _ _ => rfl)
  have hmutations : (f.stopCalls s).filter Call.isMutation = .setDesiredCount s 0 :: left.map (.stopTask s) := by
    rw [hcalls, List.filter_cons_of_pos rfl, List.filter_cons_of_neg Bool.false_ne_true, hends]
  refine ⟨f.afterCalls (f.stopCalls s), hvalue, hend.hosted, hlisted, hnodup, ?_, ?_,
    (f.localTo_afterCalls hmade).find?_of_ne⟩
  · rw [calls_afterCalls, hcalls]
  · rw [mutations, calls_afterCalls, List.filter_append, hmutations]
    rfl

/-- A service with tasks that were kept and one that was ended before, whose state is hidden. -/
theorem stop_leaves_nothing_kept :
    let api : Service := ⟨"shop/api"⟩
    let web : Service := ⟨"shop/web"⟩
    let f := (((((Fleet.addService {} web).setRunning web 1).addService api).setRunning api 3).keepTasks.afterCall
      (.stopTask api "api/task-2")).setUnknown api
    f.Reachable ∧ f.status? api = some ⟨.unknown, 2, 3⟩ ∧
      ∃ g, (manager.executeAll (Decision.stop.actions api) f).value = (.ok (), g) ∧
        g.status? api = some ⟨.stopped, 0, 0⟩ ∧ g.find? web = f.find? web ∧
        g.mutations = [.stopTask api "api/task-2", .setDesiredCount api 0, .stopTask api "api/task-1",
          .stopTask api "api/task-3"] := by
  intro api web f
  have hf : f.Reachable :=
    ((((((Reachable.initial.step (.addService web)).step (.setRunning web 1)).step (.addService api)).step
      (.setRunning api 3)).step .keepTasks).step (.call (.stopTask api "api/task-2"))).step (.setUnknown api)
  have hs : f.find? api =
      some { state := .unknown, desiredCount := 3, tasks := ["api/task-1", "api/task-3"], lastTask := 3 } := by
    decide +kernel
  obtain ⟨g, hvalue, hstopped, -, -, -, hmutations, hothers⟩ :=
    stop_leaves_nothing hf hs (by decide +kernel) (by decide +kernel)
  refine ⟨hf, by decide +kernel, g, hvalue, ?_, hothers web (by decide), ?_⟩
  · rw [status?, hstopped]
    rfl
  · rw [hmutations]
    decide +kernel

end Fleet

end ServiceHours
