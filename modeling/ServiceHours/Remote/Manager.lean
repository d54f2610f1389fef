import ServiceHours.Journal
import ServiceHours.Service
import ServiceHours.State
import ServiceHours.Text.Numeral

/-!
# The remote manager

The collaborator that runs the services. It is reached through six operations, each of which may change the state `σ`
of the remote side.

* `Run` is a computation that changes such a state and writes to the journal; what each of its parts does to a state
  is said by the lemmas `bind_apply`, `tell_apply` and so on;
* `Interface σ ρ` holds the six operations; `ρ α` is what comes back from a call that should yield an `α`;
* `Manager` always answers, `Remote` may stay silent;
* `Interface.transform` changes what comes back, call by call.
-/

namespace ServiceHours

inductive Operation
  | listServices
  | tagValue
  | describe
  | setDesiredCount
  | runningTasks
  | stopTask
deriving DecidableEq, Repr

def Operation.text : Operation → String
  | listServices => "list_services"
  | tagValue => "tag_value"
  | describe => "describe"
  | setDesiredCount => "set_desired_count"
  | runningTasks => "running_tasks"
  | stopTask => "stop_task"

inductive Call
  | listServices (tag : Option String)
  | tagValue (service : Service) (tag : String)
  | describe (service : Service)
  | setDesiredCount (service : Service) (count : Nat)
  | runningTasks (service : Service)
  | stopTask (service : Service) (task : String)
deriving DecidableEq, Repr

namespace Call

def operation : Call → Operation
  | listServices _ => .listServices
  | tagValue _ _ => .tagValue
  | describe _ => .describe
  | setDesiredCount _ _ => .setDesiredCount
  | runningTasks _ => .runningTasks
  | stopTask _ _ => .stopTask

/-- The service the call is about, if it is about one. -/
def service? : Call → Option Service
  | listServices _ => none
  | tagValue s _ => some s
  | describe s => some s
  | setDesiredCount s _ => some s
  | runningTasks s => some s
  | stopTask s _ => some s

/-- Whether the call is made to change the remote side. -/
def isMutation : Call → Bool
  | setDesiredCount _ _ => true
  | stopTask _ _ => true
  | _ => false

end Call

inductive RemoteError
  | notFound (service : Service)
  | list (reason : String)
  | describe (service : Service) (reason : String)
  | update (service : Service) (reason : String)
  | timeout (operation : Operation) (milliseconds : Nat)
deriving DecidableEq, Repr

def RemoteError.message : RemoteError → String
  | notFound s => "service not found: " ++ s.path
  | list reason => "failed to list services: " ++ reason
  | describe s reason => "failed to describe " ++ s.path ++ ": " ++ reason
  | update s reason => "failed to update " ++ s.path ++ ": " ++ reason
  | timeout operation ms => operation.text ++ " timed out after " ++ Text.decimal ms ++ "ms"

/-- A computation on a remote side with state `σ` that also writes to the journal. -/
abbrev Run (σ : Type) := StateT σ Logged

namespace Run

def tell (events : List Event) : Run σ Unit :=
  fun s => ⟨((), s), events⟩

/-- A step on the state that writes nothing. -/
def silent (step : σ → α × σ) : Run σ α :=
  fun s => ⟨step s, []⟩

/-- Puts all events of a computation inside a span. -/
def within (span : Span) (x : Run σ α) : Run σ α :=
  fun s => (x s).within span

@[simp] theorem pure_apply (a : α) (s : σ) : (pure a : Run σ α) s = ⟨(a, s), []⟩ := rfl

@[simp] theorem bind_apply (x : Run σ α) (f : α → Run σ β) (s : σ) :
    (x >>= f) s =
      ⟨(f (x s).value.1 (x s).value.2).value, (x s).events ++ (f (x s).value.1 (x s).value.2).events⟩ := rfl

@[simp] theorem map_apply (f : α → β) (x : Run σ α) (s : σ) :
    (f <$> x) s = ⟨(f (x s).value.1, (x s).value.2), (x s).events ++ []⟩ := rfl

@[simp] theorem tell_apply (events : List Event) (s : σ) : tell events s = ⟨((), s), events⟩ := rfl

@[simp] theorem silent_apply (step : σ → α × σ) (s : σ) : silent step s = ⟨step s, []⟩ := rfl

@[simp] theorem within_apply (span : Span) (x : Run σ α) (s : σ) :
    within span x s = ⟨(x s).value, (x s).events.map (Event.within span)⟩ := rfl

end Run

/-- The operations of a remote manager; `ρ α` is what comes back instead of an `α`. -/
structure Interface (σ : Type) (ρ : Type → Type) where
  /-- All services, or those that carry a tag. -/
  listServices : Option String → Run σ (ρ (List Service))
  /-- The value of a tag of a service, if it carries the tag. -/
  tagValue : Service → String → Run σ (ρ (Option String))
  /-- The present status of a service. -/
  describe : Service → Run σ (ρ Status)
  /-- Asks for a number of running tasks. -/
  setDesiredCount : Service → Nat → Run σ (ρ Unit)
  /-- The tasks of a service. -/
  runningTasks : Service → Run σ (ρ (List String))
  /-- Ends one task of a service. -/
  stopTask : Service → String → Run σ (ρ Unit)

/-- A manager that answers every call. -/
abbrev Manager (σ : Type) := Interface σ (Except RemoteError)

/-- What comes back from a manager that may never answer. -/
inductive Reply (α : Type)
  | answer (result : Except RemoteError α)
  | silence

/-- A manager whose calls may stay without an answer. -/
abbrev Remote (σ : Type) := Interface σ Reply

/-- Changes what comes back from each call. -/
def Interface.transform (change : {α : Type} → Call → Run σ (ρ α) → Run σ (ρ' α)) (m : Interface σ ρ) :
    Interface σ ρ' where
  listServices tag := change (.listServices tag) (m.listServices tag)
  tagValue s tag := change (.tagValue s tag) (m.tagValue s tag)
  describe s := change (.describe s) (m.describe s)
  setDesiredCount s count := change (.setDesiredCount s count) (m.setDesiredCount s count)
  runningTasks s := change (.runningTasks s) (m.runningTasks s)
  stopTask s task := change (.stopTask s task) (m.stopTask s task)

end ServiceHours
