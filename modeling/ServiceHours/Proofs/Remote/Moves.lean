import ServiceHours.Proofs.Remote.CallSequence

/-!
# Sequences of moves

What holds of a fleet after any sequence of moves, and what a further call does to it.

* A call that fails is recorded and changes nothing else (`Fleet.afterCall_of_error`).
* Scaling keeps the tasks that were started first (`Hosted.take_tasks_isPrefix_scale`).
* Tasks are numbered by a counter for each service. It is not above the number of tasks that were started for the
  service (`Fleet.lastTask_foldl_le`), so 32 bits hold it while fewer than 2^32 were started.
* With this and what lasts through all moves, state, tasks and counter of every service agree
  (`Fleet.moves_consistent`).
-/

namespace ServiceHours

namespace Hosted

variable (h : Hosted) (s : Service) (count : Nat) (keep : Bool)

private theorem tags_scale : (h.scale s count keep).tags = h.tags := by
  unfold scale
  dsimp only
  split
  · rfl
  · cases keep <;> rfl

/-- Scaling starts a task for each that is missing. -/
private theorem lastTask_scale : (h.scale s count keep).lastTask = h.lastTask + (count - h.tasks.length) := by
  unfold scale
  dsimp only
  split
  · rfl
  · rw [Nat.sub_eq_zero_of_le (by omega), Nat.add_zero]
    cases keep <;> rfl

/-- Scaling keeps as many of the first tasks as are left, and others come behind them. -/
theorem take_tasks_isPrefix_scale :
    h.tasks.take (h.scale s count keep).tasks.length <+: (h.scale s count keep).tasks := by
  unfold scale
  dsimp only
  split
  · refine (List.take_prefix _ _).trans ?_
    exact List.prefix_append _ _
  · cases keep with
    | true => exact List.take_prefix _ _
    | false =>
      show h.tasks.take (h.tasks.take count).length <+: h.tasks.take count
      rw [List.length_take]
      exact List.take_prefix_take_left (Nat.min_le_left _ _)

end Hosted

namespace Fleet

variable {f : Fleet} {s t : Service}

/-! ### Calls -/

private theorem afterCall_setDesiredCount (f : Fleet) (s : Service) (count : Nat) :
    f.afterCall (.setDesiredCount s count) =
      if f.accepts (.setDesiredCount s count) then
        (f.record (.setDesiredCount s count)).update s fun h => h.scale s count f.keepsTasks
      else f.record (.setDesiredCount s count) := by
  unfold afterCall accepts setDesiredCount
  dsimp only
  split
  · rfl
  · split <;> rfl

private theorem afterCall_stopTask (f : Fleet) (s : Service) (task : String) :
    f.afterCall (.stopTask s task) =
      if f.accepts (.stopTask s task) then (f.record (.stopTask s task)).update s fun h => h.endTask task
      else f.record (.stopTask s task) := by
  unfold afterCall accepts stopTask
  dsimp only
  split
  · rfl
  · split <;> rfl

/-- A call that fails is recorded and changes nothing else. -/
theorem afterCall_of_error {c : Call} (h : f.accepts c = false) : f.afterCall c = f.record c := by
  cases c with
  | listServices tag => exact f.afterCall_of_looking rfl
  | tagValue s tag => exact f.afterCall_of_looking rfl
  | describe s => exact f.afterCall_of_looking rfl
  | runningTasks s => exact f.afterCall_of_looking rfl
  | setDesiredCount s count => rw [afterCall_setDesiredCount, if_neg (Bool.eq_false_iff.mp h)]
  | stopTask s task => rw [afterCall_stopTask, if_neg (Bool.eq_false_iff.mp h)]

private theorem hosted_of_accepts {count : Nat} (h : f.accepts (.setDesiredCount s count) = true) :
    ∃ hosted, f.find? s = some hosted := by
  unfold accepts setDesiredCount at h
  dsimp only at h
  split at h
  · cases h
  · split at h
    · exact ⟨_, ‹_›⟩
    · cases h

/-! ### The counter -/

/-- The number of the last task of the service; none was started for a service that is not hosted. -/
def lastTask (f : Fleet) (s : Service) : Nat :=
  (f.find? s).elim 0 Hosted.lastTask

/-- How many tasks a move starts for a service. -/
def started (f : Fleet) (s : Service) : Move → Nat
  | .setRunning t count => if t = s then (f.find? s).elim 0 fun _ => count else 0
  | .call (.setDesiredCount t count) =>
    if t = s ∧ f.accepts (.setDesiredCount t count) = true then
      (f.find? s).elim 0 fun h => count - h.tasks.length
    else 0
  | _ => 0

/-- How many tasks a sequence of moves starts for a service. -/
def startedAlong (f : Fleet) (s : Service) : List Move → Nat
  | [] => 0
  | move :: moves => f.started s move + (f.after move).startedAlong s moves

private theorem find?_addService (f : Fleet) (s t : Service) :
    (f.addService t).find? s = if t = s then some {} else f.find? s := by
  unfold addService find?
  dsimp only
  induction f.services with
  | nil => by_cases h : t = s <;> simp [place, h]
  | cons entry rest ih =>
    unfold place
    split
    · rename_i hentry
      by_cases h : t = s <;> simp [hentry, h]
    · rename_i hentry
      split
      · by_cases h : t = s <;> simp [h]
      · rw [List.find?_cons, List.find?_cons]
        by_cases hs : entry.1 = s
        · have hne : ¬t = s := fun h => hentry (hs.trans h.symm)
          simp [hs, hne]
        · simpa [hs] using ih

private theorem lastTask_update (f : Fleet) (s t : Service) (change : Hosted → Hosted) :
    (f.update t change).lastTask s =
      if t = s then (f.find? s).elim 0 fun h => (change h).lastTask else f.lastTask s := by
  unfold lastTask
  split
  · rename_i heq
    subst heq
    rw [find?_update_self]
    cases f.find? t <;> rfl
  · rename_i hne
    rw [find?_update_of_ne (Ne.symm hne)]

private theorem lastTask_update_of_eq (f : Fleet) (s t : Service) {change : Hosted → Hosted}
    (hchange : ∀ h, (change h).lastTask = h.lastTask) : (f.update t change).lastTask s = f.lastTask s := by
  rw [lastTask_update]
  split
  · simp only [hchange, lastTask]
  · rfl

private theorem lastTask_addService_le (f : Fleet) (s t : Service) : (f.addService t).lastTask s ≤ f.lastTask s := by
  rw [lastTask, find?_addService]
  split
  · exact Nat.zero_le _
  · exact Nat.le_refl _

private theorem lastTask_afterCall_le (f : Fleet) (s : Service) (c : Call) :
    (f.afterCall c).lastTask s ≤ f.lastTask s + f.started s (.call c) := by
  by_cases hc : c.isMutation = false
  · rw [f.afterCall_of_looking hc]
    exact Nat.le_add_right (f.lastTask s) _
  · cases c with
    | listServices tag => exact absurd rfl hc
    | tagValue t tag => exact absurd rfl hc
    | describe t => exact absurd rfl hc
    | runningTasks t => exact absurd rfl hc
    | setDesiredCount t count =>
      rw [afterCall_setDesiredCount, started]
      cases f.accepts (.setDesiredCount t count) with
      | false => exact Nat.le_add_right (f.lastTask s) _
      | true =>
        rw [if_pos rfl, lastTask_update]
        by_cases heq : t = s
        · rw [if_pos heq, if_pos ⟨heq, rfl⟩]
          show (f.find? s).elim 0 _ ≤ _
          unfold lastTask
          cases f.find? s with
          | none => exact Nat.zero_le _
          | some h => exact Nat.le_of_eq (h.lastTask_scale t count f.keepsTasks)
        · rw [if_neg heq]
          exact Nat.le_add_right (f.lastTask s) _
    | stopTask t task =>
      rw [afterCall_stopTask]
      split
      · refine Nat.le_trans (Nat.le_of_eq (lastTask_update_of_eq _ s t ?_)) (Nat.le_add_right (f.lastTask s) _)
        exact fun _ => rfl
      · exact Nat.le_add_right (f.lastTask s) _

/-- The counter goes no further than by the tasks that a move starts. -/
private theorem lastTask_after_le (f : Fleet) (s : Service) (move : Move) :
    (f.after move).lastTask s ≤ f.lastTask s + f.started s move := by
  cases move with
  | addService t => exact f.lastTask_addService_le s t
  | addTagged t name value =>
    refine Nat.le_trans (Nat.le_of_eq (lastTask_update_of_eq (f.addService t) s t ?_)) (f.lastTask_addService_le s t)
    exact fun _ => rfl
  | setTag t name value => exact Nat.le_of_eq (f.lastTask_update_of_eq s t fun _ => rfl)
  | setRunning t count =>
    show (f.update t _).lastTask s ≤ f.lastTask s + f.started s (.setRunning t count)
    rw [lastTask_update, started]
    split
    · unfold lastTask
      cases f.find? s <;> simp [Hosted.spawn]
    · exact Nat.le_refl _
  | setUnknown t => exact Nat.le_of_eq (f.lastTask_update_of_eq s t fun _ => rfl)
  | failDescribe t => exact Nat.le_refl _
  | failUpdate t => exact Nat.le_refl _
  | failList => exact Nat.le_refl _
  | keepTasks => exact Nat.le_refl _
  | clearCalls => exact Nat.le_refl _
  | call c => exact f.lastTask_afterCall_le s c

theorem lastTask_foldl_le (f : Fleet) (s : Service) (moves : List Move) :
    (moves.foldl after f).lastTask s ≤ f.lastTask s + f.startedAlong s moves := by
  induction moves generalizing f with
  | nil => exact Nat.le_refl _
  | cons move moves ih =>
    have hfirst := f.lastTask_after_le s move
    have hrest := ih (f.after move)
    rw [List.foldl_cons, startedAlong]
    omega

private theorem Reachable.foldl (hf : f.Reachable) (moves : List Move) : (moves.foldl after f).Reachable := by
  induction moves generalizing f with
  | nil => exact hf
  | cons move moves ih => exact ih (hf.step move)

/-- After any moves that start fewer than 2^32 tasks for each service: a service that is seen running has tasks, one
that is seen stopped has none, no two of its tasks have one name, and 32 bits hold its counter. A call is recorded once,
and if it fails, it changes nothing else. Scaling that succeeds sets the count, keeps the tasks that were started first
in their order, and leaves as many tasks as the count says, or as many as there were if these are more and tasks are
kept. Nothing changes for other services. -/
theorem moves_consistent {moves : List Move} (hfew : ∀ s, startedAlong {} s moves ≤ Text.maxCount) :
    let f : Fleet := moves.foldl after {}
    (∀ s h, f.find? s = some h →
      (h.state = .running → h.tasks ≠ []) ∧ (h.state = .stopped → h.tasks = []) ∧ h.tasks.Nodup ∧
        h.Numbered s ∧ h.lastTask ≤ Text.maxCount) ∧
    (∀ c, (f.afterCall c).calls = f.calls ++ [c]) ∧
    (∀ c, f.accepts c = false → f.afterCall c = { f with calls := f.calls ++ [c] }) ∧
    ∀ s count, f.accepts (.setDesiredCount s count) = true →
      let g := f.afterCall (.setDesiredCount s count)
      ∃ h h', f.find? s = some h ∧ g.find? s = some h' ∧
        h'.desiredCount = count ∧
        h.tasks.take h'.tasks.length <+: h'.tasks ∧
        h'.tasks.length = (if f.keepsTasks then max h.tasks.length count else count) ∧
        h'.tags = h.tags ∧
        (∀ t, t ≠ s → g.find? t = f.find? t) ∧
        g.services.map Prod.fst = f.services.map Prod.fst ∧
        g = { f with services := g.services, calls := g.calls } := by
  intro f
  have hf : f.Reachable := Reachable.initial.foldl moves
  refine ⟨fun s h hs => ?_, f.calls_afterCall, fun c => f.afterCall_of_error, fun s count haccepts => ?_⟩
  · have hconsistent : h.Consistent := hf.consistent.of_find? hs
    have hnumbered : h.Numbered s := (hf.each Hosted.lasting_numbered).of_find? hs
    have hcounter := lastTask_foldl_le {} s moves
    rw [show (moves.foldl after {}).lastTask s = h.lastTask by rw [lastTask, hs, Option.elim],
      show lastTask {} s = 0 from rfl, Nat.zero_add] at hcounter
    exact ⟨hconsistent.running, hconsistent.stopped, hnumbered.nodup, hnumbered, Nat.le_trans hcounter (hfew s)⟩
  · intro g
    obtain ⟨h, hs⟩ := hosted_of_accepts haccepts
    have hg : g = (f.record (.setDesiredCount s count)).update s fun h => h.scale s count f.keepsTasks := by
      rw [show g = f.afterCall (.setDesiredCount s count) from rfl, afterCall_setDesiredCount, if_pos haccepts]
    have hlocal : f.LocalTo s g := localTo_afterCall f rfl
    have hs' : g.find? s = some (h.scale s count f.keepsTasks) := by
      rw [hg, find?_update_self]
      exact congrArg (Option.map _) hs
    refine ⟨h, _, hs, hs', rfl, h.take_tasks_isPrefix_scale s count f.keepsTasks,
      h.length_tasks_scale s count f.keepsTasks, h.tags_scale s count f.keepsTasks, hlocal.find?_of_ne, ?_, ?_⟩
    · rw [hg, map_fst_update]
      rfl
    · rw [hg]
      rfl

/-- Of three tasks that were kept one was ended by hand, and the state is hidden. Scaling to three starts a fourth one.
A change of the other service fails and is only recorded. -/
theorem moves_consistent_kept :
    let api : Service := ⟨"shop/api"⟩
    let web : Service := ⟨"shop/web"⟩
    let moves := [Move.addService api, .setRunning api 3, .keepTasks, .call (.setDesiredCount api 1),
      .call (.stopTask api "api/task-2"), .setUnknown api, .addService web, .failUpdate web]
    let f : Fleet := moves.foldl after {}
    (∀ s, startedAlong {} s moves ≤ Text.maxCount) ∧
      f.find? api =
        some { state := .unknown, desiredCount := 1, tasks := ["api/task-1", "api/task-3"], lastTask := 3 } ∧
      (∃ h', (f.afterCall (.setDesiredCount api 3)).find? api = some h' ∧ h'.tasks.length = 3 ∧
        h'.tasks.take 2 = ["api/task-1", "api/task-3"] ∧
        (f.afterCall (.setDesiredCount api 3)).find? web = f.find? web) ∧
      (f.afterCall (.setDesiredCount web 2)).services = f.services := by
  intro api web moves f
  have hfew : ∀ s, startedAlong {} s moves ≤ Text.maxCount := by
    intro s
    by_cases heq : api = s
    · subst heq
      decide +kernel
    · simp [moves, startedAlong, started, heq]
  have hs : f.find? api =
      some { state := .unknown, desiredCount := 1, tasks := ["api/task-1", "api/task-3"], lastTask := 3 } := by
    decide +kernel
  obtain ⟨-, -, hfails, hscaled⟩ := moves_consistent hfew
  obtain ⟨h, h', hfound, hfound', -, hprefix, hlength, -, hothers, -⟩ := hscaled api 3 (by decide +kernel)
  obtain rfl := Option.some.inj (hfound.symm.trans hs)
  have hthree : h'.tasks.length = 3 := hlength
  refine ⟨hfew, hs, ⟨h', hfound', hthree, ?_, hothers web (by decide)⟩, ?_⟩
  · rw [hthree] at hprefix
    exact (List.prefix_iff_eq_take.mp hprefix).symm
  · rw [hfails (.setDesiredCount web 2) (by decide +kernel)]

end Fleet

end ServiceHours
