import ServiceHours.PlanFile.Record

/-!
# Loading plan files

From a file to the plans of one profile.

* `PlanFile.plansOf` turns records into plans. Each is validated, unless its schedule is a reference, which can be
  followed only with the schedules of all services at hand;
* `PlanFile.loadWith` reads a file and returns its plans, or why there are none. How the records are decoded from the
  text is left open; `PlanFile.load` decodes the two formats with `records?`.
-/

namespace ServiceHours

inductive LoadError
  | unreadable
  | unsupportedFormat (path : String)
  | malformed (format : PlanFile.Format)
deriving DecidableEq, Repr

/-- The wording of a load error. A file that cannot be read or understood has no wording of its own. -/
def LoadError.message? : LoadError → Option String
  | unsupportedFormat path => some ("unsupported plan file format: " ++ path ++ " (expected .json or .toml)")
  | _ => none

namespace PlanFile

/-- The plan of a record, validated unless its schedule is a reference. -/
def prepare (r : Record) : Plan :=
  if r.toPlan.isUnresolved then r.toPlan else r.toPlan.validate.2

/-- The plans of the records that are for a profile. -/
def plansOf (profile : String) (records : List Record) : List Plan :=
  (records.filter (·.appliesTo profile)).map prepare

def recordJournal (profile : String) (r : Record) : List Event :=
  if r.appliesTo profile then
    (if r.toPlan.isUnresolved then []
      else r.toPlan.readJournal ++
        match r.toPlan.validate.1 with
        | .ok _ => []
        | .error e =>
          [.plain .warning "invalid schedule, plan disabled"
            [("service", .text r.service.path), ("error", .text e.message)]])
      ++ [.plain .information "loaded service plan"
        [("service", .text r.service.path), ("disabled", .flag (prepare r).disabled)]]
  else
    [.plain .detail "plan belongs to another profile"
      [("service", .text r.service.path), ("profile", .text profile)]]

def journal (path profile : String) (records : List Record) : List Event :=
  records.flatMap (recordJournal profile)
    ++ [.plain .information "read service plans"
      [("file", .text path), ("count", .number (plansOf profile records).length)]]

/-- The records of a file, of which `content` holds the bytes if it can be read. The format is checked before the file
is read. -/
def openWith (decode? : Format → String → Option (List Record)) (path : String) (content : Option ByteArray) :
    Except LoadError (List Record) :=
  match Format.ofPath? path with
  | none => .error (.unsupportedFormat path)
  | some format =>
    match content.bind String.fromUTF8? with
    | none => .error .unreadable
    | some text =>
      match decode? format text with
      | some records => .ok records
      | none => .error (.malformed format)

/-- Loads the plans of a file for a profile, with the records as `decode?` finds them in the text. -/
def loadWith (decode? : Format → String → Option (List Record)) (path : String) (content : Option ByteArray)
    (profile : String) : Logged (Except LoadError (List Plan)) :=
  match openWith decode? path content with
  | .ok records => ⟨.ok (plansOf profile records), journal path profile records⟩
  | .error e => ⟨.error e, []⟩

/-- Loads the plans of a file for a profile. -/
def load : String → Option ByteArray → String → Logged (Except LoadError (List Plan)) :=
  loadWith records?

end PlanFile

end ServiceHours
