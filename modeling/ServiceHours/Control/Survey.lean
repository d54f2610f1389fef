import ServiceHours.Plan
import ServiceHours.Remote.Manager

/-!
# Surveys

The plans of a run and the services that exist remotely. Plans come from two sources: the tags of remote services, and
plan files, which win over tags.

* `Survey.lookup` gives the schedule that a reference finds under a short name;
* `Survey.taggedPlans` and `Survey.filedPlans` turn the two sources into plans;
* `Survey.collect` asks the manager and joins both.
-/

namespace ServiceHours

/-- Services in the order of their paths, each once. -/
def inventoryOf (services : List Service) : List Service :=
  services.foldl (fun known s => if known.contains s then known else insertBy Service.before s known) []

/-- The plans of a run and the remote services they were checked against. -/
structure Survey where
  plans : List Plan := []
  /-- Every service the manager knows, tagged or not. -/
  inventory : List Service := []
deriving DecidableEq, Repr, Inhabited

namespace Plan

/-- The plan after its reference, if it has one that was not followed yet, was looked up. -/
def resolve (lookup : String → Option String) (p : Plan) : Plan :=
  if p.isUnresolved then p.withResolution (Resolution.ofSchedule p.configured lookup) else p

/-- Whether the plan has neither a schedule text nor changes. -/
def isBare (p : Plan) : Bool :=
  Text.allBlank p.scheduleText && p.changes.isEmpty

/-- What looking up a reference reports. -/
def resolveJournal (lookup : String → Option String) (p : Plan) : List Event :=
  (if p.isUnresolved then (Resolution.ofSchedule p.configured lookup).journal p.configured else [])
    ++ if (p.resolve lookup).isBare then
        [.plain .detail "no schedule, not under schedule control" [("service", .text p.service.name)]]
      else []

/-- The plan after validation, whatever came of it. -/
def validated (p : Plan) : Plan :=
  p.validate.2

def validateJournal (p : Plan) : List Event :=
  p.readJournal ++
    match p.validate with
    | (.ok warnings, after) =>
      warnings.map (fun w => .plain .warning "schedule warning"
          [("service", .text p.service.name), ("warning", .text w.message)])
        ++ [.plain .detail "adding service plan"
          [("service", .text p.service.name), ("schedule", .text after.scheduleText)]]
    | (.error e, after) =>
      [.plain .warning "invalid schedule, plan disabled"
        [("service", .text p.service.name), ("schedule", .text after.scheduleText), ("error", .text e.message)]]

end Plan

namespace Survey

def knows (v : Survey) (s : Service) : Bool :=
  v.inventory.contains s

/-- The schedule found under a short name: that of the last filed plan with this name, or else of the last tagged
service. -/
def lookup (tagged : List (Service × String)) (filed : List Plan) (name : String) : Option String :=
  match filed.reverse.find? (·.service.name = name) with
  | some p => some p.configured
  | none => (tagged.reverse.find? (·.1.name = name)).map (·.2)

def overridden (filed : List Plan) (s : Service) : Bool :=
  filed.any (·.service = s)

/-- The plans of the tagged services that no filed plan overrides; one that ends up without a schedule is left out. -/
def taggedPlans (tagged : List (Service × String)) (filed : List Plan) : List Plan :=
  (((tagged.filter fun entry => !overridden filed entry.1).map fun entry =>
    Plan.resolve (lookup tagged filed) { service := entry.1, configured := entry.2 }).filter fun p =>
    !p.isBare).map Plan.validated

/-- A filed plan, disabled if its service does not exist remotely. -/
def checkExistence (inventory : List Service) (p : Plan) : Plan :=
  if inventory.contains p.service then p else { p with disabled := true }

/-- The filed plans, with their existence checked and their references followed. -/
def filedPlans (inventory : List Service) (tagged : List (Service × String)) (filed : List Plan) : List Plan :=
  filed.map fun p =>
    let checked := checkExistence inventory p
    if checked.isUnresolved then (checked.resolve (lookup tagged filed)).validated else checked

def ofSources (inventory : List Service) (tagged : List (Service × String)) (filed : List Plan) : Survey :=
  { plans := taggedPlans tagged filed ++ filedPlans inventory tagged filed, inventory }

def taggedJournal (tagged : List (Service × String)) (filed : List Plan) (entry : Service × String) : List Event :=
  if overridden filed entry.1 then
    [.plain .information "local plan overrides tag" [("service", .text entry.1.name)]]
  else
    let plan : Plan := { service := entry.1, configured := entry.2 }
    let resolved := plan.resolve (lookup tagged filed)
    plan.resolveJournal (lookup tagged filed) ++ if resolved.isBare then [] else resolved.validateJournal

def filedJournal (inventory : List Service) (tagged : List (Service × String)) (filed : List Plan) (p : Plan) :
    List Event :=
  let checked := checkExistence inventory p
  (if inventory.contains p.service then []
    else [.plain .warning "service does not exist remotely, plan disabled" [("service", .text p.service.path)]])
    ++ if checked.isUnresolved then
        checked.resolveJournal (lookup tagged filed) ++ (checked.resolve (lookup tagged filed)).validateJournal
      else []

def journal (inventory : List Service) (tagged : List (Service × String)) (filed : List Plan) : List Event :=
  tagged.flatMap (taggedJournal tagged filed) ++ filed.flatMap (filedJournal inventory tagged filed)
    ++ [.plain .information "fetched service plans"
      [("plans", .number (ofSources inventory tagged filed).plans.length),
        ("inventory", .number inventory.length)]]

/-- Reads the tag of each service; a service whose tag is gone or cannot be read is left out. -/
def readTags (m : Manager σ) (tag : String) : List Service → Run σ (List (Service × String))
  | [] => pure []
  | s :: rest => do
    match ← m.tagValue s tag with
    | .ok (some value) => return (s, value) :: (← readTags m tag rest)
    | .ok none =>
      Run.tell [.plain .detail "tag disappeared, skipping" [("service", .text s.path)]]
      readTags m tag rest
    | .error e =>
      Run.tell [.plain .warning "failed to read tag, skipping"
        [("service", .text s.path), ("error", .text e.message)]]
      readTags m tag rest

/-- Collects the plans of the services that carry `tag` and of plan files. Only a listing that fails is fatal. -/
def collect (m : Manager σ) (tag : String) (filed : List Plan) : Run σ (Except RemoteError Survey) := do
  match ← m.listServices none with
  | .error e => return .error e
  | .ok all =>
    match ← m.listServices (some tag) with
    | .error e => return .error e
    | .ok carriers =>
      let tagged ← readTags m tag carriers
      let inventory := inventoryOf all
      Run.tell (journal inventory tagged filed)
      return .ok (ofSources inventory tagged filed)

end Survey

end ServiceHours
