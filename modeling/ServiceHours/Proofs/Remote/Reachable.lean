import ServiceHours.Proofs.Control.Invariants
import ServiceHours.Proofs.Text.Numeral
import ServiceHours.Remote.Fleet

/-!
# Reachable fleets

The fleets that come from the empty one by setting up and by calls, in any order, and what holds of all of them.

* `Fleet.afterCall_cases` says all that a call can do: it is recorded, and it may change the service it deals with,
  unless it is only made to look (`Fleet.afterCall_of_looking`);
* the services of a reachable fleet stand in the order of their paths, each once (`Fleet.Reachable.ordered`), so that
  every entry is the one that is found for its service (`Fleet.Ordered.find?_of_mem`);
* what holds of a new service and lasts through all that is done to it (`Hosted.Lasting`) holds of each service of a
  reachable fleet (`Fleet.Reachable.each`): a service that is seen running has tasks and one that is seen stopped has
  none (`Fleet.Reachable.consistent`), and no two tasks have one name (`Fleet.Reachable.nodup_tasks`);
* calls that deal with one service leave the others alone (`Fleet.LocalTo`, `Fleet.localTo_afterCall`);
* passes and changes by hand lead from reachable fleets to reachable fleets (`Fleet.Reachable.pass`,
  `Fleet.Reachable.byHand`).
-/

namespace ServiceHours

/-! ### One service -/

/-- A service seen running has tasks and one seen stopped has none. -/
structure Hosted.Consistent (h : Hosted) : Prop where
  running : h.state = .running → h.tasks ≠ []
  stopped : h.state = .stopped → h.tasks = []

namespace Hosted

/-- `P` holds of a new service and lasts through all that can be done to a service. -/
structure Lasting (P : Service → Hosted → Prop) : Prop where
  fresh (s : Service) : P s {}
  setTag {s : Service} {h : Hosted} (name value : String) : P s h → P s (h.setTag name value)
  setRunning {s : Service} {h : Hosted} (count : Nat) : P s h →
    P s { Hosted.spawn { h with tasks := [] } s count with
      desiredCount := count
      state := if 0 < count then .running else .stopped }
  setUnknown {s : Service} {h : Hosted} : P s h → P s { h with state := .unknown }
  scale {s : Service} {h : Hosted} (count : Nat) (keep : Bool) : P s h → P s (h.scale s count keep)
  endTask {s : Service} {h : Hosted} (task : String) : P s h → P s (h.endTask task)

private theorem consistent_of_state {h : Hosted} (hstate : h.state = if h.tasks.isEmpty then .stopped else .running) :
    h.Consistent := by
  rcases hnil : h.tasks with - | ⟨task, tasks⟩ <;> rw [hnil] at hstate
  · exact ⟨fun hrun => absurd (hrun.symm.trans hstate) nofun, fun _ => hnil⟩
  · exact ⟨fun _ => by simp [hnil], fun hstop => absurd (hstop.symm.trans hstate) nofun⟩

private theorem Consistent.endTask {h : Hosted} (hc : h.Consistent) (task : String) : (h.endTask task).Consistent := by
  unfold Hosted.endTask
  dsimp only
  split
  · rename_i hempty
    exact ⟨nofun, fun _ => List.isEmpty_iff.mp hempty⟩
  · rename_i hne
    rw [List.isEmpty_iff] at hne
    refine ⟨fun _ => hne, fun hstop => ?_⟩
    -- A service that was seen stopped had no task to end.
    dsimp only at hstop ⊢
    rw [hc.stopped hstop]
    rfl

private theorem lasting_consistent : Lasting fun _ => Consistent where
  fresh _ := ⟨nofun, fun _ => rfl⟩
  setTag _ _ hc := ⟨hc.running, hc.stopped⟩
  setRunning {s h} count _ := by
    have hlength : ((Hosted.spawn { h with tasks := [] } s count).tasks).length = count := by
      rw [length_tasks_spawn]
      exact Nat.zero_max count
    refine consistent_of_state ?_
    simp only [List.isEmpty_iff_length_eq_zero, hlength]
    cases count <;> rfl
  setUnknown _ := ⟨nofun, nofun⟩
  scale {s h} count keep _ := consistent_of_state (h.state_scale s count keep)
  endTask task hc := hc.endTask task

/-! ### The names of tasks -/

/-- The name of a task tells its number. -/
private theorem taskName_injective (s : Service) : Function.Injective (taskName s) := by
  intro m n h
  have hname : (s.name ++ "/task-").toList ++ Nat.toDigits 10 m = (s.name ++ "/task-").toList ++ Nat.toDigits 10 n := by
    simpa [taskName, Text.decimal] using congrArg String.toList h
  have hdigits := List.append_cancel_left hname
  exact Text.Numeral.unique (Text.numeral_toDigits m) (hdigits ▸ Text.numeral_toDigits n)

/-- The tasks of the service are numbered upwards, and none has a number yet to come. -/
def Numbered (s : Service) (h : Hosted) : Prop :=
  ∃ numbers : List Nat, h.tasks = numbers.map (taskName s) ∧ numbers.Pairwise (· < ·) ∧ ∀ n ∈ numbers, n ≤ h.lastTask

variable {s : Service} {h h' : Hosted}

theorem Numbered.nodup (hn : h.Numbered s) : h.tasks.Nodup := by
  obtain ⟨numbers, htasks, hup, -⟩ := hn
  rw [htasks]
  exact List.pairwise_map.mpr (hup.imp fun hlt he => Nat.ne_of_lt hlt (taskName_injective s he))

/-- Tasks may end, and numbers may be passed over. -/
private theorem Numbered.of_sublist (hn : h.Numbered s) (htasks : h'.tasks.Sublist h.tasks)
    (hlast : h.lastTask ≤ h'.lastTask) :
    h'.Numbered s := by
  obtain ⟨numbers, he, hup, hle⟩ := hn
  rw [he] at htasks
  obtain ⟨left, hleft, he'⟩ := List.sublist_map_iff.mp htasks
  exact ⟨left, he', hup.sublist hleft, fun n hmem => Nat.le_trans (hle n (hleft.subset hmem)) hlast⟩

private theorem Numbered.spawn (hn : h.Numbered s) (count : Nat) : (h.spawn s count).Numbered s := by
  obtain ⟨numbers, he, hup, hle⟩ := hn
  refine ⟨numbers ++ List.range' (h.lastTask + 1) (count - h.tasks.length), ?_, ?_, fun n hmem => ?_⟩
  · rw [List.map_append, ← he]
    rfl
  · refine List.pairwise_append.mpr ⟨hup, List.pairwise_lt_range', fun m hm n hn => ?_⟩
    have hm := hle m hm
    have hn := List.mem_range'_1.mp hn
    omega
  · dsimp only [Hosted.spawn]
    rcases List.mem_append.mp hmem with hold | hnew
    · have hold := hle n hold
      omega
    · have hnew := List.mem_range'_1.mp hnew
      omega

theorem lasting_numbered : Lasting fun s h => h.Numbered s where
  fresh _ := ⟨[], rfl, .nil, nofun⟩
  setTag _ _ hn := hn
  setRunning {s h} count hn := by
    have hnone : ({ h with tasks := [] } : Hosted).Numbered s := hn.of_sublist (List.nil_sublist _) (Nat.le_refl _)
    exact hnone.spawn count
  setUnknown hn := hn
  scale {s h} count keep hn := by
    unfold Hosted.scale
    dsimp only
    split
    · exact hn.spawn count
    · split
      · exact hn
      · exact hn.of_sublist (List.take_sublist count h.tasks) (Nat.le_refl _)
  endTask _ hn := hn.of_sublist List.filter_sublist (Nat.le_refl _)

end Hosted

namespace Fleet

/-! ### Moves -/

/-- The fleet after a call, whatever was answered. -/
def afterCall (f : Fleet) : Call → Fleet
  | .listServices tag => (listServices tag f).2
  | .tagValue s tag => (tagValue s tag f).2
  | .describe s => (describe s f).2
  | .setDesiredCount s count => (setDesiredCount s count f).2
  | .runningTasks s => (runningTasks s f).2
  | .stopTask s task => (stopTask s task f).2

/-- What can happen to a fleet. -/
inductive Move
  | addService (s : Service)
  | addTagged (s : Service) (name value : String)
  | setTag (s : Service) (name value : String)
  | setRunning (s : Service) (count : Nat)
  | setUnknown (s : Service)
  | failDescribe (s : Service)
  | failUpdate (s : Service)
  | failList
  | keepTasks
  | clearCalls
  | call (c : Call)

/-- The fleet after a move. -/
def after (f : Fleet) : Move → Fleet
  | .addService s => f.addService s
  | .addTagged s name value => f.addTagged s name value
  | .setTag s name value => f.setTag s name value
  | .setRunning s count => f.setRunning s count
  | .setUnknown s => f.setUnknown s
  | .failDescribe s => f.failDescribe s
  | .failUpdate s => f.failUpdate s
  | .failList => f.failList
  | .keepTasks => f.keepTasks
  | .clearCalls => f.clearCalls
  | .call c => f.afterCall c

/-- The fleet comes from the empty one by moves. -/
inductive Reachable : Fleet → Prop
  | initial : Reachable {}
  | step {f : Fleet} (h : f.Reachable) (move : Move) : Reachable (f.after move)

/-- A call that is not made to change anything is recorded and does nothing else. -/
theorem afterCall_of_looking (f : Fleet) {c : Call} (hc : c.isMutation = false) : f.afterCall c = f.record c := by
  cases c with
  | listServices tag =>
    unfold afterCall listServices
    dsimp only
    split <;> rfl
  | tagValue s tag =>
    unfold afterCall tagValue
    dsimp only
    split <;> rfl
  | describe s =>
    unfold afterCall describe
    dsimp only
    split
    · rfl
    · split <;> rfl
  | setDesiredCount s count => cases hc
  | runningTasks s =>
    unfold afterCall runningTasks
    dsimp only
    split <;> rfl
  | stopTask s task => cases hc

/-- All that a call can do: it is recorded, and one that is made to change a service may scale it or end tasks of it. -/
theorem afterCall_cases (f : Fleet) (c : Call) :
    f.afterCall c = f.record c ∨ ∃ s change, c.service? = some s ∧ f.afterCall c = (f.record c).update s change ∧
      ((∃ count keep, change = fun h => h.scale s count keep) ∨ ∃ task, change = fun h => h.endTask task) := by
  cases c with
  | listServices tag => exact Or.inl (f.afterCall_of_looking rfl)
  | tagValue s tag => exact Or.inl (f.afterCall_of_looking rfl)
  | describe s => exact Or.inl (f.afterCall_of_looking rfl)
  | runningTasks s => exact Or.inl (f.afterCall_of_looking rfl)
  | setDesiredCount s count =>
    unfold afterCall setDesiredCount
    dsimp only
    split
    · exact Or.inl rfl
    · split
      · exact Or.inr ⟨s, _, rfl, rfl, Or.inl ⟨count, f.keepsTasks, rfl⟩⟩
      · exact Or.inl rfl
  | stopTask s task =>
    unfold afterCall stopTask
    dsimp only
    split
    · exact Or.inl rfl
    · split
      · exact Or.inr ⟨s, _, rfl, rfl, Or.inr ⟨task, rfl⟩⟩
      · exact Or.inl rfl

/-- What every call that deals with a service keeps, the manager keeps on this service. -/
theorem keepsOn_manager {P : Fleet → Prop} {s : Service}
    (h : ∀ f c, c.service? = some s → P f → P (f.afterCall c)) : manager.KeepsOn P s where
  describe f := h f (.describe s) rfl
  setDesiredCount count f := h f (.setDesiredCount s count) rfl
  runningTasks f := h f (.runningTasks s) rfl
  stopTask task f := h f (.stopTask s task) rfl

private theorem Reachable.keepsOn (s : Service) : manager.KeepsOn Reachable s :=
  keepsOn_manager fun _ c _ h => h.step (.call c)

/-! ### Order -/

/-- The services stand in the order of their paths, so that none stands twice. -/
def Ordered (f : Fleet) : Prop :=
  f.services.Pairwise fun a b => a.1.before b.1 = true

instance (f : Fleet) : Decidable f.Ordered :=
  inferInstanceAs (Decidable (f.services.Pairwise fun a b => a.1.before b.1 = true))

private theorem mem_place {s : Service} {h : Hosted} {entry : Service × Hosted} {services : List (Service × Hosted)}
    (hentry : entry ∈ place s h services) : entry = (s, h) ∨ entry ∈ services := by
  induction services with
  | nil => exact Or.inl (List.mem_singleton.mp hentry)
  | cons first rest ih =>
    unfold place at hentry
    split at hentry
    · rcases List.mem_cons.mp hentry with heq | hmem
      · exact Or.inl heq
      · exact Or.inr (List.mem_cons_of_mem first hmem)
    · split at hentry
      · exact List.mem_cons.mp hentry
      · rcases List.mem_cons.mp hentry with heq | hmem
        · exact Or.inr (List.mem_cons.mpr (Or.inl heq))
        · exact (ih hmem).imp_right (List.mem_cons_of_mem first)

private theorem pairwise_place (s : Service) (h : Hosted) {services : List (Service × Hosted)}
    (hordered : services.Pairwise fun a b => a.1.before b.1 = true) :
    (place s h services).Pairwise fun a b => a.1.before b.1 = true := by
  induction services with
  | nil => exact List.pairwise_singleton _ _
  | cons first rest ih =>
    obtain ⟨hfirst, hrest⟩ := List.pairwise_cons.mp hordered
    unfold place
    split
    · rename_i heq
      subst heq
      exact List.pairwise_cons.mpr ⟨hfirst, hrest⟩
    · rename_i hne
      split
      · rename_i hlt
        refine List.pairwise_cons.mpr ⟨fun entry hentry => ?_, hordered⟩
        rcases List.mem_cons.mp hentry with rfl | hmem
        · exact hlt
        · exact Service.before_trans hlt (hfirst entry hmem)
      · rename_i hnot
        refine List.pairwise_cons.mpr ⟨fun entry hentry => ?_, ih hrest⟩
        rcases mem_place hentry with rfl | hmem
        · exact Service.before_of_ne hne (Bool.eq_false_iff.mpr hnot)
        · exact hfirst entry hmem

/-- A change of what is known of a service leaves the service itself where it stands. -/
theorem map_fst_update (f : Fleet) (s : Service) (change : Hosted → Hosted) :
    (f.update s change).services.map Prod.fst = f.services.map Prod.fst := by
  rw [update, List.map_map]
  refine List.map_congr_left fun entry _ => ?_
  dsimp only [Function.comp]
  split
  · rename_i heq
    exact heq.symm
  · rfl

private theorem Ordered.update {f : Fleet} (ho : f.Ordered) (s : Service) (change : Hosted → Hosted) :
    (f.update s change).Ordered := by
  have hpaths : (f.services.map Prod.fst).Pairwise fun a b => a.before b = true := List.pairwise_map.mpr ho
  rw [← map_fst_update f s change] at hpaths
  exact List.pairwise_map.mp hpaths

/-- Every move leaves the services in order. -/
private theorem Ordered.after {f : Fleet} (ho : f.Ordered) (move : Move) : (f.after move).Ordered := by
  cases move with
  | addService s => exact pairwise_place s {} ho
  | addTagged s name value => exact Ordered.update (f := f.addService s) (pairwise_place s {} ho) s _
  | setTag s name value => exact ho.update s _
  | setRunning s count => exact ho.update s _
  | setUnknown s => exact ho.update s _
  | failDescribe s => exact ho
  | failUpdate s => exact ho
  | failList => exact ho
  | keepTasks => exact ho
  | clearCalls => exact ho
  | call c =>
    show (f.afterCall c).Ordered
    rcases f.afterCall_cases c with he | ⟨s, change, -, he, -⟩
    · rw [he]
      exact ho
    · rw [he]
      exact Ordered.update (f := f.record c) ho s change

theorem Reachable.ordered {f : Fleet} (h : f.Reachable) : f.Ordered := by
  induction h with
  | initial => exact List.Pairwise.nil
  | step _ move ih => exact ih.after move

/-- Every entry of a fleet in order is the one that is found for its service. -/
theorem Ordered.find?_of_mem {f : Fleet} (ho : f.Ordered) {s : Service} {h : Hosted} (hmem : (s, h) ∈ f.services) :
    f.find? s = some h := by
  unfold Ordered at ho
  unfold find?
  generalize f.services = services at ho hmem ⊢
  induction services with
  | nil => cases hmem
  | cons first rest ih =>
    obtain ⟨hfirst, hrest⟩ := List.pairwise_cons.mp ho
    rcases List.mem_cons.mp hmem with rfl | hmem
    · rw [List.find?_cons_of_pos (by simp), Option.map_some]
    · have hne : ¬first.1 = s := by
        intro heq
        have hself := hfirst (s, h) hmem
        rw [heq, Service.before_irrefl] at hself
        cases hself
      rw [List.find?_cons_of_neg (by simpa using hne)]
      exact ih hrest hmem

/-! ### What holds of each service -/

/-- All that the fleet knows of its services satisfies `P`. -/
def Each (P : Service → Hosted → Prop) (f : Fleet) : Prop :=
  ∀ entry ∈ f.services, P entry.1 entry.2

section Each

variable {P : Service → Hosted → Prop} {f : Fleet}

theorem Each.of_find? (hf : f.Each P) {s : Service} {h : Hosted} (hs : f.find? s = some h) : P s h := by
  obtain ⟨entry, hfound, rfl⟩ := Option.map_eq_some_iff.mp hs
  have hentry : entry.1 = s := by simpa using List.find?_some hfound
  exact hentry ▸ hf entry (List.mem_of_find?_eq_some hfound)

private theorem Each.update (hf : f.Each P) (s : Service) {change : Hosted → Hosted}
    (hchange : ∀ {h}, P s h → P s (change h)) :
    (f.update s change).Each P := by
  intro entry hentry
  obtain ⟨old, hold, rfl⟩ := List.mem_map.mp hentry
  split
  · rename_i hs
    subst hs
    exact hchange (hf old hold)
  · exact hf old hold

private theorem Each.addService (hf : f.Each P) {s : Service} (hnew : P s {}) : (f.addService s).Each P := by
  intro entry hentry
  rcases mem_place hentry with rfl | hold
  · exact hnew
  · exact hf entry hold

/-- Every move leaves standing what lasts. -/
private theorem Each.after (hP : Hosted.Lasting P) (hf : f.Each P) (move : Move) : (f.after move).Each P := by
  cases move with
  | addService s => exact hf.addService (hP.fresh s)
  | addTagged s name value => exact (hf.addService (hP.fresh s)).update s (hP.setTag name value)
  | setTag s name value => exact hf.update s (hP.setTag name value)
  | setRunning s count => exact hf.update s (hP.setRunning count)
  | setUnknown s => exact hf.update s hP.setUnknown
  | failDescribe s => exact hf
  | failUpdate s => exact hf
  | failList => exact hf
  | keepTasks => exact hf
  | clearCalls => exact hf
  | call c =>
    have hrecord : (f.record c).Each P := hf
    show (f.afterCall c).Each P
    rcases f.afterCall_cases c with he | ⟨s, change, -, he, ⟨count, keep, rfl⟩ | ⟨task, rfl⟩⟩
    · rw [he]
      exact hrecord
    · rw [he]
      exact hrecord.update s (hP.scale count keep)
    · rw [he]
      exact hrecord.update s (hP.endTask task)

theorem Reachable.each (hP : Hosted.Lasting P) (h : f.Reachable) : f.Each P := by
  induction h with
  | initial => exact fun _ hentry => absurd hentry List.not_mem_nil
  | step _ move ih => exact ih.after hP move

end Each

/-- All services of the fleet are consistent. -/
def Consistent (f : Fleet) : Prop :=
  ∀ entry ∈ f.services, entry.2.Consistent

theorem Consistent.of_find? {f : Fleet} (hc : f.Consistent) {s : Service} {h : Hosted} (hs : f.find? s = some h) :
    h.Consistent :=
  Each.of_find? (P := fun _ => Hosted.Consistent) hc hs

/-- Every move leaves a consistent fleet consistent. -/
theorem Consistent.after {f : Fleet} (hc : f.Consistent) (move : Move) : (f.after move).Consistent :=
  Each.after Hosted.lasting_consistent hc move

theorem Reachable.consistent {f : Fleet} (h : f.Reachable) : f.Consistent :=
  h.each Hosted.lasting_consistent

/-- No two tasks of a service have one name. -/
theorem Reachable.nodup_tasks {f : Fleet} (hf : f.Reachable) {s : Service} {h : Hosted} (hs : f.find? s = some h) :
    h.tasks.Nodup :=
  ((hf.each Hosted.lasting_numbered).of_find? hs).nodup

/-! ### Locality -/

/-- From `f` to `g` only such calls were recorded. -/
def Called (Q : Call → Prop) (f g : Fleet) : Prop :=
  ∃ calls, g.calls = f.calls ++ calls ∧ ∀ c ∈ calls, Q c

theorem Called.none {Q : Call → Prop} {f g : Fleet} (h : g.calls = f.calls) : f.Called Q g :=
  ⟨[], by rw [h, List.append_nil], fun _ hc => absurd hc List.not_mem_nil⟩

theorem called_record {Q : Call → Prop} (f : Fleet) {c : Call} (h : Q c) : f.Called Q (f.record c) :=
  ⟨[c], rfl, fun _ hd => List.mem_singleton.mp hd ▸ h⟩

theorem Called.trans {Q : Call → Prop} {f g h : Fleet} (hfg : f.Called Q g) (hgh : g.Called Q h) : f.Called Q h := by
  obtain ⟨first, hfirst, hQ⟩ := hfg
  obtain ⟨second, hsecond, hQ'⟩ := hgh
  refine ⟨first ++ second, ?_, fun c hc => ?_⟩
  · rw [hsecond, hfirst, List.append_assoc]
  · rcases List.mem_append.mp hc with hc | hc
    · exact hQ c hc
    · exact hQ' c hc

theorem Called.mono {Q Q' : Call → Prop} {f g : Fleet} (h : f.Called Q g) (hQ : ∀ c, Q c → Q' c) : f.Called Q' g := by
  obtain ⟨calls, hcalls, hall⟩ := h
  exact ⟨calls, hcalls, fun c hc => hQ c (hall c hc)⟩

/-- From `f` to `g` only the service `s` was dealt with. -/
structure LocalTo (s : Service) (f g : Fleet) : Prop where
  failingDescribe : g.failingDescribe = f.failingDescribe
  keepsTasks : g.keepsTasks = f.keepsTasks
  find?_of_ne : ∀ t, t ≠ s → g.find? t = f.find? t
  calls : f.Called (·.service? = some s) g

theorem LocalTo.refl (s : Service) (f : Fleet) : f.LocalTo s f :=
  ⟨rfl, rfl, fun _ _ => rfl, .none rfl⟩

theorem LocalTo.trans {s : Service} {f g h : Fleet} (hfg : f.LocalTo s g) (hgh : g.LocalTo s h) : f.LocalTo s h where
  failingDescribe := hgh.failingDescribe.trans hfg.failingDescribe
  keepsTasks := hgh.keepsTasks.trans hfg.keepsTasks
  find?_of_ne t ht := (hgh.find?_of_ne t ht).trans (hfg.find?_of_ne t ht)
  calls := hfg.calls.trans hgh.calls

private theorem localTo_record {s : Service} (f : Fleet) {c : Call} (h : c.service? = some s) :
    f.LocalTo s (f.record c) :=
  ⟨rfl, rfl, fun _ _ => rfl, f.called_record h⟩

private theorem localTo_update (s : Service) (f : Fleet) (change : Hosted → Hosted) : f.LocalTo s (f.update s change) :=
  ⟨rfl, rfl, fun _ ht => find?_update_of_ne ht change, .none rfl⟩

theorem localTo_afterCall {s : Service} (f : Fleet) {c : Call} (h : c.service? = some s) :
    f.LocalTo s (f.afterCall c) := by
  rcases f.afterCall_cases c with he | ⟨t, change, ht, he, -⟩
  · rw [he]
    exact localTo_record f h
  · rw [h] at ht
    cases ht
    rw [he]
    exact (localTo_record f h).trans (localTo_update s _ change)

theorem LocalTo.keepsOn (s : Service) (f : Fleet) : manager.KeepsOn (f.LocalTo s) s :=
  keepsOn_manager fun g _ hc h => h.trans (localTo_afterCall g hc)

/-! ### Runs -/

/-- Passes lead from reachable fleets to reachable fleets. -/
theorem Reachable.pass {f : Fleet} (h : f.Reachable) (a : Agenda) (now : Timestamp) (dryRun : Bool) :
    (a.pass manager now dryRun f).value.2.Reachable :=
  a.keeps_pass now dryRun (fun p _ => Reachable.keepsOn p.service) f h

/-- Changes by hand lead from reachable fleets to reachable fleets. -/
theorem Reachable.byHand {f : Fleet} (h : f.Reachable) (a : Agenda) (service : String) (count : Nat) :
    (a.start manager service f).value.2.Reachable ∧ (a.stop manager service f).value.2.Reachable ∧
      (a.rescale manager service count f).value.2.Reachable :=
  have hkeeps : manager.KeepsOn Reachable ⟨Text.trimmed service⟩ := Reachable.keepsOn _
  ⟨a.keeps_start hkeeps f h, a.keeps_stop hkeeps f h, a.keeps_rescale count hkeeps f h⟩

end Fleet

end ServiceHours
