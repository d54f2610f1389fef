import ServiceHours.Proofs.Remote.CallSequence
import ServiceHours.Remote.Deadline

/-!
# Calls that hang

A manager some of whose calls never come back, behind a deadline. The calls of a run are numbered, so that the same call
may hang at one time and be answered at another.

* `Manager.hanging` is such a manager. Behind a deadline each call that hangs becomes an error that names its operation
  (`Run.value_within_numbered`); where no call hangs, or the same ones always do, it is the manager of a run with a
  deadline (`Manager.agreeOn_bounded`).
* `Run.Follows` compares a computation with the one in which no call hangs. Both go the same way up to the first call
  that hangs, and there the first ends with the error (`Run.Follows.andThen`).
* Carrying out a decision follows the calls that it takes (`Fleet.follows_executeAll`).
* A service none of whose calls hang is dealt with as ever (`Fleet.overdue_agreeOn`), and one call that hangs does not
  touch other services (`Fleet.overdue_keepsOn`).
-/

namespace ServiceHours

variable {σ α β ε : Type}

/-! ### Numbered calls -/

/-- A call with a number: it hangs and does not reach the manager, or it is answered. -/
def Run.numbered (hangs : Nat → Bool) (x : Run σ (Except RemoteError α)) : Run (σ × Nat) (Reply α) :=
  fun (s, n) =>
    if hangs n then ⟨(.silence, s, n + 1), []⟩
    else ⟨(.answer (x s).value.1, (x s).value.2, n + 1), (x s).events⟩

/-- The manager with its calls numbered in the order in which they are made. Those among `hangs` never come back. -/
def Manager.hanging (hangs : Nat → Call → Bool) (m : Manager σ) : Remote (σ × Nat) where
  listServices tag := Run.numbered (hangs · (.listServices tag)) (m.listServices tag)
  tagValue s tag := Run.numbered (hangs · (.tagValue s tag)) (m.tagValue s tag)
  describe s := Run.numbered (hangs · (.describe s)) (m.describe s)
  setDesiredCount s count := Run.numbered (hangs · (.setDesiredCount s count)) (m.setDesiredCount s count)
  runningTasks s := Run.numbered (hangs · (.runningTasks s)) (m.runningTasks s)
  stopTask s task := Run.numbered (hangs · (.stopTask s task)) (m.stopTask s task)

/-- The first call of a sequence that hangs, if the sequence begins with the number `n`. -/
def Call.firstHanging (hangs : Nat → Call → Bool) : Nat → List Call → Option Call
  | _, [] => none
  | n, c :: rest => if hangs n c then some c else firstHanging hangs (n + 1) rest

private theorem Call.firstHanging_append (hangs : Nat → Call → Bool) (n : Nat) (first second : List Call) :
    firstHanging hangs n (first ++ second) =
      (firstHanging hangs n first).or (firstHanging hangs (n + first.length) second) := by
  induction first generalizing n with
  | nil => rfl
  | cons c first ih =>
    rw [List.cons_append, firstHanging, firstHanging]
    split
    · rfl
    · rw [ih, List.length_cons, Nat.add_assoc, Nat.add_comm 1]

theorem Call.mem_of_firstHanging {hangs : Nat → Call → Bool} {n : Nat} {calls : List Call} {c : Call}
    (h : firstHanging hangs n calls = some c) : c ∈ calls := by
  induction calls generalizing n with
  | nil => cases h
  | cons d rest ih =>
    unfold firstHanging at h
    split at h
    · cases h
      exact List.mem_cons_self
    · exact List.mem_cons_of_mem d (ih h)

namespace Run

/-- Behind a deadline a call that hangs is answered with an error that names its operation. -/
theorem value_within_numbered (deadline : Nat) (operation : Operation) (hangs : Nat → Bool)
    (x : Run σ (Except RemoteError α)) (s : σ) (n : Nat) :
    ((numbered hangs x >>= fun reply => reply.within deadline operation) (s, n)).value =
      if hangs n then (.error (.timeout operation deadline), s, n + 1) else ((x s).value.1, (x s).value.2, n + 1) := by
  rw [bind_apply]
  unfold numbered
  dsimp only
  split <;> rfl

end Run

/-- Calls that hang whatever their number make the manager of a run with a deadline. -/
theorem Manager.agreeOn_bounded (m : Manager σ) (deadline : Nat) (silent : Call → Bool) (s : Service) :
    (m.bounded (some deadline) silent).AgreeOn (fun x y => y.1 = x)
      ((m.hanging fun _ => silent).within deadline) s := by
  have hcall {α : Type} (c : Call) (x : Run σ (Except RemoteError α)) :
      Run.Agree (fun (x : σ) (y : σ × Nat) => y.1 = x)
        ((if silent c then pure .silence else .answer <$> x : Run σ (Reply α)) >>= fun reply =>
          reply.within deadline c.operation)
        (Run.numbered (fun _ => silent c) x >>= fun reply => reply.within deadline c.operation) := by
    rintro s ⟨t, n⟩ rfl
    rw [Run.value_within_numbered]
    split <;> exact ⟨rfl, rfl⟩
  exact ⟨hcall (.describe s) _, fun count => hcall (.setDesiredCount s count) _, hcall (.runningTasks s) _,
    fun task => hcall (.stopTask s task) _⟩

/-! ### Up to the first call that hangs -/

/-- From every fleet `y` makes the given calls and `x` does what `y` does, up to the first of these calls that hangs;
that one ends `x` with an error. -/
def Run.Follows (deadline : Nat) (hangs : Nat → Call → Bool) (wrap : RemoteError → ε) (calls : Fleet → List Call)
    (x : Run (Fleet × Nat) (Except ε α)) (y : Run Fleet (Except ε α)) : Prop :=
  ∀ f n, match Call.firstHanging hangs n (calls f) with
    | none => (x (f, n)).value = ((y f).value.1, (y f).value.2, n + (calls f).length)
    | some c => (x (f, n)).value.1 = .error (wrap (.timeout c.operation deadline))

namespace Run

variable {deadline : Nat} {hangs : Nat → Call → Bool} {wrap : RemoteError → ε} {calls : Fleet → List Call}
  {x : Run (Fleet × Nat) (Except ε α)} {y : Run Fleet (Except ε α)}

private theorem follows_pure (result : Except ε α) :
    Follows deadline hangs wrap (fun _ => []) (pure result) (pure result) :=
  fun _ _ => rfl

private theorem follows_call (c : Call) (y : Run Fleet (Except RemoteError α)) :
    Follows deadline hangs id (fun _ => [c])
    (numbered (hangs · c) y >>= fun reply => reply.within deadline c.operation) y := by
  intro f n
  rw [value_within_numbered]
  simp only [Call.firstHanging]
  cases hangs n c <;> rfl

/-- What is written to the journal first does not matter. -/
private theorem Follows.after_tell (h : Follows deadline hangs wrap calls x y) (events events' : List Event) :
    Follows deadline hangs wrap calls (tell events >>= fun _ => x) (tell events' >>= fun _ => y) :=
  h

private theorem Follows.mapError {x : Run (Fleet × Nat) (Except RemoteError α)} {y : Run Fleet (Except RemoteError α)}
    (h : Follows deadline hangs id calls x y) (wrap : RemoteError → ε) :
    Follows deadline hangs wrap calls ((·.mapError wrap) <$> x) ((·.mapError wrap) <$> y) := by
  intro f n
  have h := h f n
  rw [map_apply, map_apply]
  dsimp only
  cases hfirst : Call.firstHanging hangs n (calls f) with
  | none =>
    rw [hfirst] at h
    dsimp only at h ⊢
    rw [h]
  | some c =>
    rw [hfirst] at h
    dsimp only at h ⊢
    rw [h]
    rfl

/-- The calls that come after `y`, if it succeeds. -/
def callsAfter (y : Run Fleet (Except ε α)) (later : α → Fleet → List Call) (f : Fleet) : List Call :=
  match (y f).value with
  | (.ok a, g) => later a g
  | (.error _, _) => []

private theorem callsAfter_of_ok {y : Run Fleet (Except ε α)} (later : α → Fleet → List Call) {f g : Fleet} {a : α}
    (h : (y f).value = (.ok a, g)) : callsAfter y later f = later a g := by
  rw [callsAfter, h]

private theorem callsAfter_of_error {y : Run Fleet (Except ε α)} (later : α → Fleet → List Call) {f g : Fleet} {e : ε}
    (h : (y f).value = (.error e, g)) : callsAfter y later f = [] := by
  rw [callsAfter, h]

/-- What comes after a success is reached only if no call hung before. -/
theorem Follows.andThen (hx : Follows deadline hangs wrap calls x y) (later : α → Fleet → List Call)
    {k : Except ε α → Run (Fleet × Nat) (Except ε β)} {l : Except ε α → Run Fleet (Except ε β)}
    (hok : ∀ a, Follows deadline hangs wrap (later a) (k (.ok a)) (l (.ok a)))
    (hk : ∀ e, k (.error e) = pure (.error e)) (hl : ∀ e, l (.error e) = pure (.error e))
    {all : Fleet → List Call} (hall : ∀ f, all f = calls f ++ callsAfter y later f) :
    Follows deadline hangs wrap all (x >>= k) (y >>= l) := by
  intro f n
  have hx := hx f n
  rw [bind_apply, bind_apply, hall, Call.firstHanging_append]
  dsimp only
  cases hfirst : Call.firstHanging hangs n (calls f) with
  | some c =>
    rw [hfirst] at hx
    dsimp only at hx
    rw [Option.some_or]
    dsimp only
    rw [hx, hk]
    rfl
  | none =>
    rw [hfirst] at hx
    dsimp only at hx
    rw [Option.none_or, hx]
    rcases hy : (y f).value with ⟨e | a, g⟩
    · rw [callsAfter_of_error later hy, List.append_nil]
      dsimp only
      rw [hk, hl]
      rfl
    · rw [callsAfter_of_ok later hy, List.length_append, ← Nat.add_assoc]
      exact hok a g (n + (calls f).length)

end Run

/-! ### Carrying out a decision -/

namespace Fleet

variable (deadline : Nat) (hangs : Nat → Call → Bool) (s : Service)

/-- The manager of a fleet some of whose calls hang, behind a deadline. -/
def overdue : Manager (Fleet × Nat) :=
  (manager.hanging hangs).within deadline

/-- A sequence of calls whose first is made by `y` goes on after `y`. -/
private theorem attempted_cons_eq {y : Run Fleet (Except ε α)} {f : Fleet} {c : Call} {rest : List Call}
    {later : α → Fleet → List Call} (hok : (y f).value.1.isOk = f.accepts c) (hafter : (y f).value.2 = f.afterCall c)
    (hrest : ∀ a, (y f).value.1 = .ok a → (f.afterCall c).attempted rest = later a (f.afterCall c)) :
    f.attempted (c :: rest) = [c] ++ Run.callsAfter y later f := by
  rcases hy : (y f).value with ⟨e | a, g⟩
  · rw [hy] at hok
    rw [attempted_cons_of_error _ hok.symm, Run.callsAfter_of_error _ hy, List.append_nil]
  · rw [hy] at hok hafter hrest
    rw [attempted_cons_of_ok _ hok.symm, Run.callsAfter_of_ok _ hy, hrest a rfl, ← hafter, List.singleton_append]

private theorem follows_stopTasks (tasks : List String) :
    Run.Follows deadline hangs id (fun f => f.attempted (tasks.map (.stopTask s)))
      ((overdue deadline hangs).stopTasks s tasks) (manager.stopTasks s tasks) := by
  induction tasks with
  | nil => exact Run.follows_pure _
  | cons task tasks ih =>
    rw [Manager.stopTasks, Manager.stopTasks]
    refine Run.Follows.after_tell (Run.Follows.andThen (Run.follows_call (.stopTask s task) (manager.stopTask s task))
      (fun _ f => f.attempted (tasks.map (.stopTask s))) ?_ ?_ ?_ fun f => ?_) _ _
    · exact fun _ => ih
    · exact fun _ => rfl
    · exact fun _ => rfl
    · exact attempted_cons_eq (y := manager.stopTask s task) rfl rfl fun _ _ => rfl

private theorem follows_stopRunningTasks : Run.Follows deadline hangs id (fun f => f.attempted (f.endCalls s))
    ((overdue deadline hangs).stopRunningTasks s) (manager.stopRunningTasks s) := by
  rw [Manager.stopRunningTasks, Manager.stopRunningTasks]
  refine Run.Follows.andThen (Run.follows_call (.runningTasks s) (manager.runningTasks s))
    (fun tasks f => f.attempted (tasks.map (.stopTask s))) (fun tasks => ?_) ?_ ?_ fun f => ?_
  · refine Run.Follows.andThen (follows_stopTasks deadline hangs s tasks) (fun _ _ => []) ?_ ?_ ?_ fun f => ?_
    · exact fun _ => Run.Follows.after_tell (Run.follows_pure _) _ _
    · exact fun _ => rfl
    · exact fun _ => rfl
    · rw [Run.callsAfter]
      split <;> exact (List.append_nil _).symm
  · exact fun _ => rfl
  · exact fun _ => rfl
  · refine attempted_cons_eq (y := manager.runningTasks s) rfl rfl fun tasks hanswer => ?_
    rw [f.listed_of_ok hanswer]

/-- Actions on a service without a path are not carried out, and no call is made. -/
private theorem follows_executeAll_of_isEmpty (hname : s.isEmpty = true) {actions : List Action}
    (hs : ∀ a ∈ actions, a.service = s) : Run.Follows deadline hangs ExecutionError.remote (fun _ => [])
      ((overdue deadline hangs).executeAll actions) (manager.executeAll actions) := by
  intro f n
  cases actions with
  | nil => rfl
  | cons a rest =>
    have ha : a.service.isEmpty = true := by rw [hs a List.mem_cons_self, hname]
    dsimp only [Call.firstHanging]
    rw [Manager.executeAll_cons_value, Manager.executeAll_cons_value, Manager.perform_value_of_isEmpty _ ha,
      Manager.perform_value_of_isEmpty _ ha]
    rfl

/-- Actions after the first are carried out only if the first succeeds. -/
private theorem follows_executeAll_cons {a : Action} {rest : List Action} {calls later all : Fleet → List Call}
    (ha : Run.Follows deadline hangs ExecutionError.remote calls ((overdue deadline hangs).perform a)
      (manager.perform a))
    (hrest : Run.Follows deadline hangs ExecutionError.remote later ((overdue deadline hangs).executeAll rest)
      (manager.executeAll rest))
    (hall : ∀ f, all f = calls f ++ Run.callsAfter (manager.perform a) (fun _ => later) f) :
    Run.Follows deadline hangs ExecutionError.remote all ((overdue deadline hangs).executeAll (a :: rest))
      (manager.executeAll (a :: rest)) := by
  have hexecute : Run.Follows deadline hangs ExecutionError.remote calls ((overdue deadline hangs).execute a)
      (manager.execute a) := ha
  rw [Manager.executeAll, Manager.executeAll]
  refine Run.Follows.andThen hexecute (fun _ => later) ?_ ?_ ?_ hall
  · exact fun _ => hrest
  · exact fun _ => rfl
  · exact fun _ => rfl

private theorem follows_executeAll_singleton {a : Action} {calls : Fleet → List Call}
    (ha : Run.Follows deadline hangs ExecutionError.remote calls ((overdue deadline hangs).perform a)
      (manager.perform a)) :
    Run.Follows deadline hangs ExecutionError.remote calls ((overdue deadline hangs).executeAll [a])
      (manager.executeAll [a]) := by
  refine follows_executeAll_cons deadline hangs ha (Run.follows_pure _) fun f => ?_
  rw [Run.callsAfter]
  split <;> exact (List.append_nil _).symm

private theorem follows_setDesiredCount (hname : s.isEmpty = false) (count : Nat) :
    Run.Follows deadline hangs ExecutionError.remote (fun _ => [.setDesiredCount s count])
      ((overdue deadline hangs).perform (.setDesiredCount s count)) (manager.perform (.setDesiredCount s count)) := by
  have hpath : ¬(Action.setDesiredCount s count).service.isEmpty = true := Bool.eq_false_iff.mp hname
  unfold Manager.perform
  rw [if_neg hpath, if_neg hpath]
  exact (Run.follows_call (.setDesiredCount s count) (manager.setDesiredCount s count)).mapError _

private theorem follows_endTasks (hname : s.isEmpty = false) :
    Run.Follows deadline hangs ExecutionError.remote (fun f => f.attempted (f.endCalls s))
      ((overdue deadline hangs).perform (.stopRunningTasks s)) (manager.perform (.stopRunningTasks s)) := by
  have hpath : ¬(Action.stopRunningTasks s).service.isEmpty = true := Bool.eq_false_iff.mp hname
  unfold Manager.perform
  rw [if_neg hpath, if_neg hpath]
  exact (follows_stopRunningTasks deadline hangs s).mapError _

/-- Carrying out a decision takes the calls that it takes where none hangs, up to the first that does. -/
theorem follows_executeAll (d : Decision) :
    Run.Follows deadline hangs ExecutionError.remote (fun f => f.decisionCalls s d)
      ((overdue deadline hangs).executeAll (d.actions s)) (manager.executeAll (d.actions s)) := by
  unfold decisionCalls
  cases hname : s.isEmpty with
  | true => exact follows_executeAll_of_isEmpty deadline hangs s hname fun _ => Decision.service_of_mem_actions
  | false =>
    have hscaled := follows_setDesiredCount deadline hangs s hname
    cases d with
    | skip reason => exact Run.follows_pure _
    | noOp => exact Run.follows_pure _
    | start count => exact follows_executeAll_singleton deadline hangs (hscaled count)
    | rescale current wanted => exact follows_executeAll_singleton deadline hangs (hscaled wanted)
    | stop =>
      have hended := follows_executeAll_singleton deadline hangs (follows_endTasks deadline hangs s hname)
      refine follows_executeAll_cons deadline hangs (hscaled 0) hended fun f => ?_
      have hperform := manager.perform_setDesiredCount_value hname 0 f
      refine attempted_cons_eq ?_ (by rw [hperform]; rfl) fun _ _ => rfl
      rw [hperform]
      show Except.isOk ((setDesiredCount s 0 f).1.mapError _) = (setDesiredCount s 0 f).1.isOk
      cases (setDesiredCount s 0 f).1 <;> rfl

/-! ### Calls on one service -/

/-- What the calls on a service keep, they keep if some of them hang. -/
theorem overdue_keepsOn {P : Fleet → Prop} (h : manager.KeepsOn P s) :
    (overdue deadline hangs).KeepsOn (fun x => P x.1) s := by
  have hcall {α : Type} (c : Call) {x : Run Fleet (Except RemoteError α)} (hx : Run.Keeps P x) :
      Run.Keeps (fun x => P x.1)
        (Run.numbered (hangs · c) x >>= fun reply => reply.within deadline c.operation) := by
    rintro ⟨f, n⟩ hf
    rw [Run.value_within_numbered]
    split
    · exact hf
    · exact hx f hf
  exact ⟨hcall (.describe s) h.describe, fun count => hcall (.setDesiredCount s count) (h.setDesiredCount count),
    hcall (.runningTasks s) h.runningTasks, fun task => hcall (.stopTask s task) (h.stopTask task)⟩

/-- If none of the calls on a service hangs, they are answered as ever. -/
theorem overdue_agreeOn {R : Fleet → Fleet → Prop} (h : manager.AgreeOn R manager s)
    (hquiet : ∀ n c, c.service? = some s → hangs n c = false) :
    manager.AgreeOn (fun f x => R f x.1) (overdue deadline hangs) s := by
  have hcall {α : Type} {c : Call} (hc : c.service? = some s) {x y : Run Fleet (Except RemoteError α)}
      (hxy : Run.Agree R x y) : Run.Agree (fun f x => R f x.1) x
        (Run.numbered (hangs · c) y >>= fun reply => reply.within deadline c.operation) := by
    rintro f ⟨g, n⟩ hfg
    rw [Run.value_within_numbered, hquiet n c hc, if_neg Bool.false_ne_true]
    exact hxy f g hfg
  exact ⟨hcall (c := .describe s) rfl h.describe,
    fun count => hcall (c := .setDesiredCount s count) rfl (h.setDesiredCount count),
    hcall (c := .runningTasks s) rfl h.runningTasks, fun task => hcall (c := .stopTask s task) rfl (h.stopTask task)⟩

end Fleet

end ServiceHours
