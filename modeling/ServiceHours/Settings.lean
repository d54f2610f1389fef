import ServiceHours.Calendar.Zone
import ServiceHours.Text.Quoted

/-!
# Settings

The settings of a run, read from variables. Blanks around a value do not count, and a blank value counts as unset.
`Settings.read` takes the zone from the zone variable if it is set, and from the offset variable only if it is not.
-/

namespace ServiceHours

/-- What a run is told from outside. -/
structure Settings where
  /-- The tag that carries schedules. -/
  tagName : String := "offhours"
  zone : Zone := .host
  planFile : Option String := none
  profile : String := "default"
  /-- The deadline of each remote call, in milliseconds. -/
  callTimeout : Option Nat := none
deriving DecidableEq, Repr

instance : Inhabited Settings := ⟨{}⟩

inductive SettingsError
  | unknownZone (value : String)
  | badOffset (value : String)
  | badTimeout (value : String)
deriving DecidableEq, Repr

def SettingsError.message : SettingsError → String
  | unknownZone value =>
    "unknown OH_TIME_ZONE " ++ Text.quoted value ++ ": expected an IANA zone such as Europe/Amsterdam"
  | badOffset value => "invalid OH_UTC_OFFSET " ++ Text.quoted value ++ ": expected an offset such as +02:00"
  | badTimeout value => "invalid OH_CALL_TIMEOUT_MS " ++ Text.quoted value ++ ": expected milliseconds"

namespace Settings

def maxTimeout : Nat := 18446744073709551615

/-- The value of a variable without blanks around it, if anything is left. -/
def setting? (lookup : String → Option String) (name : String) : Option String :=
  ((lookup name).map Text.trimmed).filter (· ≠ "")

/-- The zone given by its name, which a table knows, or without a name by an offset. -/
def readZone (named? : String → Option NamedZone) (name offset : Option String) : Except SettingsError Zone :=
  match name, offset with
  | some name, _ =>
    match named? name with
    | some zone => .ok (.named zone)
    | none => .error (.unknownZone name)
  | none, some offset =>
    match readOffset? offset with
    | some seconds => .ok (.fixed seconds)
    | none => .error (.badOffset offset)
  | none, none => .ok .host

/-- The deadline, if one is given. -/
def readTimeout : Option String → Except SettingsError (Option Nat)
  | none => .ok none
  | some value =>
    match Text.natural? maxTimeout value.toList with
    | some ms => .ok (some ms)
    | none => .error (.badTimeout value)

/-- Reads the settings from variables, with the zones of a table; a fault of the zone is found before one of the
deadline. -/
def readWith (named? : String → Option NamedZone) (lookup : String → Option String) :
    Except SettingsError Settings := do
  let zone ← readZone named? (setting? lookup "OH_TIME_ZONE") (setting? lookup "OH_UTC_OFFSET")
  let callTimeout ← readTimeout (setting? lookup "OH_CALL_TIMEOUT_MS")
  let default : Settings := {}
  return {
    tagName := (setting? lookup "OH_TAG_NAME").getD default.tagName
    zone
    planFile := setting? lookup "OH_PLAN_FILE"
    profile := (setting? lookup "OH_PROFILE").getD default.profile
    callTimeout }

/-- Reads the settings from variables, with the zones of `NamedZone.all`. -/
def read (lookup : String → Option String) : Except SettingsError Settings :=
  readWith NamedZone.find? lookup

end Settings

end ServiceHours
