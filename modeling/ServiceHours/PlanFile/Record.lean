import ServiceHours.PlanFile.Format
import ServiceHours.Plan

/-!
# Records of plan files

One record of a plan file describes the plan of one service. A JSON file is a list of records, a TOML file has them
under `service`.

* `Record.ofValue?` takes a record from a value, with its fields by name or by position;
* `records?` reads all records of a file;
* `Record.toPlan` is the plan of a record.

Fields that are not known are left out, a known field may come only once, and a value of the wrong kind makes the whole
file unusable.
-/

namespace ServiceHours.PlanFile

/-- One service of a plan file. -/
structure Record where
  service : Service
  schedule : String := ""
  disabled : Bool := false
  /-- The profile the record is for; without one it is for all. -/
  profile : Option String := none
  /-- The changes to use when there is no schedule text. -/
  changes : List Change := []
deriving DecidableEq, Repr, Inhabited

/-- Whether a record by position may hold more items than there are fields. In TOML it may, and they do not count. -/
def Format.allowsMoreItems : Format → Bool
  | json => false
  | toml => true

namespace Value

def text? : Value → Option String
  | text content => content
  | _ => none

def flag? : Value → Option Bool
  | flag value => some value
  | _ => none

def count? : Value → Option Nat
  | integer n => if 0 ≤ n ∧ n ≤ Text.maxCount then some n.toNat else none
  | _ => none

def optionalText? : Value → Option (Option String)
  | null => some none
  | text content => content.map some
  | _ => none

/-- Whether a value stands for the absence of a content: in JSON nothing, in TOML what is empty. -/
def isUnit (f : Format) : Value → Bool
  | null => f == .json
  | list [] => f == .toml
  | record [] => f == .toml
  | _ => false

/-- A name: a text, or a record whose only field has that name and no content. -/
def name? (f : Format) : Value → Option String
  | text content => content
  | record [(name, content)] => if content.isUnit f then name else none
  | _ => none

/-- The values of the known fields of a record, in the order of `names`. A value by position may lack the last
ones. -/
def fields? (f : Format) (names : List String) : Value → Option (List (Option Value))
  | list items =>
    if items.length ≤ names.length || f.allowsMoreItems then
      some ((items.take names.length).map some ++ List.replicate (names.length - items.length) none)
    else none
  | record fields =>
    if fields.all (·.1.isSome) then
      names.mapM fun name =>
        match fields.filter (·.1 == some name) with
        | [] => some none
        | [field] => some (some field.2)
        | _ => none
    else none
  | _ => none

/-- The value of a field that may be missing. -/
def orElse (read : Value → Option α) (default : α) : Option Value → Option α
  | some v => read v
  | none => some default

/-- The changes of a list, each read by `read`. -/
def list? (read : Value → Option α) : Value → Option (List α)
  | list items => items.mapM read
  | _ => none

end Value

/-- The change that a value describes. Its recurrence is not read yet. -/
def change? (f : Format) (v : Value) : Option Change := do
  match ← v.fields? f ["desired-state", "desired-count", "cron"] with
  | [some state, count, some cron] =>
    return {
      state := ← DesiredState.ofCode? (← state.name? f)
      count := ← Value.orElse Value.count? 0 count
      cron := ← cron.text? }
  | _ => none

namespace Record

def ofValue? (f : Format) (v : Value) : Option Record := do
  match ← v.fields? f ["service", "schedule", "disabled", "profile", "state-changes"] with
  | [some service, schedule, disabled, profile, changes] =>
    return {
      service := ⟨← service.text?⟩
      schedule := ← Value.orElse Value.text? "" schedule
      disabled := ← Value.orElse Value.flag? false disabled
      profile := ← Value.orElse Value.optionalText? none profile
      changes := ← Value.orElse (Value.list? (change? f)) [] changes }
  | _ => none

def appliesTo (r : Record) (profile : String) : Bool :=
  match r.profile with
  | some p => p == profile
  | none => true

/-- The plan of a record, not validated yet. -/
def toPlan (r : Record) : Plan :=
  { service := r.service, configured := r.schedule, changes := r.changes, disabled := r.disabled }

end Record

def recordsOf? (f : Format) (v : Value) : Option (List Record) :=
  match f with
  | .json => Value.list? (Record.ofValue? f) v
  | .toml => do
    match ← v.fields? f ["service"] with
    | [services] => Value.orElse (Value.list? (Record.ofValue? f)) [] services
    | _ => none

def records? (f : Format) (content : String) : Option (List Record) :=
  (f.read? content).bind (recordsOf? f)

end ServiceHours.PlanFile
