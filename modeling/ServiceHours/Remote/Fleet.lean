import ServiceHours.Remote.Manager

/-!
# A simulated fleet

A remote side in memory. Scaling takes effect at once: `Fleet.setDesiredCount` starts the tasks that are missing and
drops those above the count, unless the fleet keeps tasks until each is stopped. Every call is recorded, also one that
fails.

* `Hosted` is what the fleet knows of one service; scaling brings its tasks to the count (`length_tasks_scale`);
* `Fleet.update` changes one service and no other (`find?_update_self`, `find?_update_of_ne`);
* the operations are functions from a fleet to an answer and the fleet after it;
* `Fleet.manager` offers them as a manager.
-/

namespace ServiceHours

/-- What a fleet knows of one service. -/
structure Hosted where
  tags : List (String × String) := []
  state : ObservedState := .stopped
  desiredCount : Nat := 0
  tasks : List String := []
  /-- The number of the last task that was started. -/
  lastTask : Nat := 0
deriving DecidableEq, Repr, Inhabited

namespace Hosted

def status (h : Hosted) : Status :=
  ⟨h.state, h.tasks.length, h.desiredCount⟩

def tag? (h : Hosted) (name : String) : Option String :=
  (h.tags.find? (·.1 = name)).map (·.2)

def setTag (h : Hosted) (name value : String) : Hosted :=
  { h with tags := (name, value) :: h.tags.filter (·.1 ≠ name) }

def taskName (s : Service) (number : Nat) : String :=
  s.name ++ "/task-" ++ Text.decimal number

/-- Starts tasks until there are `count` of them. -/
def spawn (h : Hosted) (s : Service) (count : Nat) : Hosted :=
  let missing := count - h.tasks.length
  { h with
    tasks := h.tasks ++ (List.range' (h.lastTask + 1) missing).map (taskName s)
    lastTask := h.lastTask + missing }

/-- Brings the tasks to `count`; with `keep` no task is dropped. -/
def scale (h : Hosted) (s : Service) (count : Nat) (keep : Bool) : Hosted :=
  let scaled :=
    if h.tasks.length < count then h.spawn s count
    else if keep then h
    else { h with tasks := h.tasks.take count }
  { scaled with
    desiredCount := count
    state := if scaled.tasks.isEmpty then .stopped else .running }

theorem length_tasks_spawn (h : Hosted) (s : Service) (count : Nat) :
    (h.spawn s count).tasks.length = max h.tasks.length count := by
  simp only [spawn, List.length_append, List.length_map, List.length_range']
  omega

/-- Scaling leaves exactly the count, or more when tasks are kept. -/
theorem length_tasks_scale (h : Hosted) (s : Service) (count : Nat) (keep : Bool) :
    (h.scale s count keep).tasks.length = if keep then max h.tasks.length count else count := by
  unfold scale
  split
  · rw [length_tasks_spawn]
    split <;> omega
  · cases keep <;> simp <;> omega

theorem state_scale (h : Hosted) (s : Service) (count : Nat) (keep : Bool) :
    (h.scale s count keep).state = if (h.scale s count keep).tasks.isEmpty then .stopped else .running := rfl

/-- Ends the tasks with a name. A service without tasks is stopped. -/
def endTask (h : Hosted) (task : String) : Hosted :=
  let tasks := h.tasks.filter (· ≠ task)
  { h with tasks, state := if tasks.isEmpty then .stopped else h.state }

end Hosted

/-- A fleet: its services in the order of their paths, the calls it got, and the failures it was told to show. -/
structure Fleet where
  services : List (Service × Hosted) := []
  calls : List Call := []
  failingDescribe : List Service := []
  failingUpdate : List Service := []
  failingList : Bool := false
  /-- Scaling down leaves tasks running until they are stopped one by one. -/
  keepsTasks : Bool := false
deriving DecidableEq, Repr, Inhabited

namespace Fleet

def find? (f : Fleet) (s : Service) : Option Hosted :=
  (f.services.find? (·.1 = s)).map (·.2)

/-- Changes what the fleet knows of a service, if it hosts it. -/
def update (f : Fleet) (s : Service) (change : Hosted → Hosted) : Fleet :=
  { f with services := f.services.map fun entry => if entry.1 = s then (s, change entry.2) else entry }

/-- Puts a service in its place in the order of paths, in place of what was known of it. -/
def place (s : Service) (h : Hosted) : List (Service × Hosted) → List (Service × Hosted)
  | [] => [(s, h)]
  | entry :: rest =>
    if entry.1 = s then (s, h) :: rest
    else if s.before entry.1 then (s, h) :: entry :: rest
    else entry :: place s h rest

theorem find?_update_self (f : Fleet) (s : Service) (change : Hosted → Hosted) :
    (f.update s change).find? s = (f.find? s).map change := by
  unfold update find?
  induction f.services with
  | nil => rfl
  | cons entry rest ih =>
    simp only [List.map_cons, List.find?_cons]
    by_cases h : entry.1 = s
    · simp [h]
    · simpa [h] using ih

/-- A change of one service leaves what is known of the others. -/
theorem find?_update_of_ne {f : Fleet} {s t : Service} (h : t ≠ s) (change : Hosted → Hosted) :
    (f.update s change).find? t = f.find? t := by
  unfold update find?
  induction f.services with
  | nil => rfl
  | cons entry rest ih =>
    simp only [List.map_cons, List.find?_cons]
    by_cases hs : entry.1 = s
    · have hne : ¬s = t := fun e => h e.symm
      simpa [hs, hne] using ih
    · by_cases ht : entry.1 = t
      · simp [ht, h]
      · simpa [hs, ht] using ih

/-! ## Setting up -/

/-- Hosts a stopped service without tags; a service that was hosted before starts afresh. -/
def addService (f : Fleet) (s : Service) : Fleet :=
  { f with services := place s {} f.services }

def setTag (f : Fleet) (s : Service) (name value : String) : Fleet :=
  f.update s (·.setTag name value)

def addTagged (f : Fleet) (s : Service) (name value : String) : Fleet :=
  (f.addService s).setTag s name value

/-- Gives a service a number of new tasks. -/
def setRunning (f : Fleet) (s : Service) (count : Nat) : Fleet :=
  f.update s fun h =>
    { Hosted.spawn { h with tasks := [] } s count with
      desiredCount := count
      state := if 0 < count then .running else .stopped }

/-- Hides the state of a service. -/
def setUnknown (f : Fleet) (s : Service) : Fleet :=
  f.update s fun h => { h with state := .unknown }

def failDescribe (f : Fleet) (s : Service) : Fleet :=
  { f with failingDescribe := s :: f.failingDescribe }

def failUpdate (f : Fleet) (s : Service) : Fleet :=
  { f with failingUpdate := s :: f.failingUpdate }

def failList (f : Fleet) : Fleet :=
  { f with failingList := true }

/-- Keeps tasks running when a service is scaled down. -/
def keepTasks (f : Fleet) : Fleet :=
  { f with keepsTasks := true }

def clearCalls (f : Fleet) : Fleet :=
  { f with calls := [] }

/-! ## Looking -/

/-- The status of a service, without a call. -/
def status? (f : Fleet) (s : Service) : Option Status :=
  (f.find? s).map Hosted.status

/-- The recorded calls that were made to change something. -/
def mutations (f : Fleet) : List Call :=
  f.calls.filter Call.isMutation

/-! ## Calls -/

/-- The reason that failures give which the fleet was told to show. -/
def scriptedFailure : String := "scripted failure"

def record (f : Fleet) (call : Call) : Fleet :=
  { f with calls := f.calls ++ [call] }

def listServices (tag : Option String) (f : Fleet) : Except RemoteError (List Service) × Fleet :=
  let after := f.record (.listServices tag)
  if f.failingList then (.error (.list scriptedFailure), after)
  else
    let listed := f.services.filter fun entry =>
      match tag with
      | some name => (entry.2.tag? name).isSome
      | none => true
    (.ok (listed.map (·.1)), after)

def tagValue (s : Service) (tag : String) (f : Fleet) : Except RemoteError (Option String) × Fleet :=
  let after := f.record (.tagValue s tag)
  match f.find? s with
  | some h => (.ok (h.tag? tag), after)
  | none => (.error (.notFound s), after)

def describe (s : Service) (f : Fleet) : Except RemoteError Status × Fleet :=
  let after := f.record (.describe s)
  if f.failingDescribe.contains s then (.error (.describe s scriptedFailure), after)
  else match f.find? s with
    | some h => (.ok h.status, after)
    | none => (.error (.notFound s), after)

def setDesiredCount (s : Service) (count : Nat) (f : Fleet) : Except RemoteError Unit × Fleet :=
  let after := f.record (.setDesiredCount s count)
  if f.failingUpdate.contains s then (.error (.update s scriptedFailure), after)
  else match f.find? s with
    | some _ => (.ok (), after.update s fun h => h.scale s count f.keepsTasks)
    | none => (.error (.notFound s), after)

def runningTasks (s : Service) (f : Fleet) : Except RemoteError (List String) × Fleet :=
  let after := f.record (.runningTasks s)
  match f.find? s with
  | some h => (.ok h.tasks, after)
  | none => (.error (.notFound s), after)

def stopTask (s : Service) (task : String) (f : Fleet) : Except RemoteError Unit × Fleet :=
  let after := f.record (.stopTask s task)
  if f.failingUpdate.contains s then (.error (.update s scriptedFailure), after)
  else match f.find? s with
    | some _ => (.ok (), after.update s fun h => h.endTask task)
    | none => (.error (.notFound s), after)

def manager : Manager Fleet where
  listServices tag := Run.silent (listServices tag)
  tagValue s tag := Run.silent (tagValue s tag)
  describe s := Run.silent (describe s)
  setDesiredCount s count := Run.silent (setDesiredCount s count)
  runningTasks s := Run.silent (runningTasks s)
  stopTask s task := Run.silent (stopTask s task)

end Fleet

end ServiceHours
