import ServiceHours.Control.Agenda
import ServiceHours.PlanFile.Load
import ServiceHours.Remote.Deadline
import ServiceHours.Settings

/-!
# Preparing a run

From settings to the agenda of a run: the plan file is loaded, the tagged plans are collected, and what the two sources
hold is checked against the inventory.
-/

namespace ServiceHours

inductive SetupError
  | load (error : LoadError)
  | remote (error : RemoteError)
deriving DecidableEq, Repr

/-- The wording of a setup error, where its cause has one. -/
def SetupError.message? : SetupError → Option String
  | load e => e.message?.map ("failed to load local plans: " ++ ·)
  | remote e => some ("failed to fetch service plans: " ++ e.message)

/-- The manager of a run: calls that stay silent end at the deadline of the settings. -/
def Settings.manager (settings : Settings) (silent : Call → Bool) (m : Manager σ) : Manager σ :=
  m.bounded settings.callTimeout silent

/-- A plan file as it was found: its path and, if it could be read, its bytes. -/
structure FoundFile where
  path : String
  content : Option ByteArray

/-- The plans of the plan file, if there is one, with its records as `decode?` finds them. -/
def FoundFile.plansWith (decode? : PlanFile.Format → String → Option (List PlanFile.Record)) (profile : String) :
    Option FoundFile → Logged (Except LoadError (List Plan))
  | some file => PlanFile.loadWith decode? file.path file.content profile
  | none => pure (.ok [])

/-- The plans of the plan file, if there is one. -/
def FoundFile.plans : String → Option FoundFile → Logged (Except LoadError (List Plan)) :=
  FoundFile.plansWith PlanFile.records?

/-- Prepares the agenda of a run through a manager that observes the deadline of the settings, with the records of the
plan file as `decode?` finds them. -/
def Agenda.prepareWith (decode? : PlanFile.Format → String → Option (List PlanFile.Record)) (m : Manager σ)
    (settings : Settings) (file : Option FoundFile) : Run σ (Except SetupError Agenda) :=
  Run.within ⟨"setup", [("profile", .text settings.profile)]⟩ do
    match ← (FoundFile.plansWith decode? settings.profile file : Logged _) with
    | .error e => return .error (.load e)
    | .ok filed =>
      match ← Survey.collect m settings.tagName filed with
      | .error e => return .error (.remote e)
      | .ok survey =>
        Run.tell (Agenda.journal survey.plans)
        return .ok (.ofSurvey settings.profile survey)

/-- Prepares the agenda of a run through a manager that observes the deadline of the settings. -/
def Agenda.prepare (m : Manager σ) (settings : Settings) (file : Option FoundFile) :
    Run σ (Except SetupError Agenda) :=
  prepareWith PlanFile.records? m settings file

end ServiceHours
