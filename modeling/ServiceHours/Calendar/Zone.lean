import ServiceHours.Calendar.Timestamp
import ServiceHours.Text.Blank

/-!
# Time zones

The zone in which a wall clock is read: that of the host, a fixed offset, or a named zone whose offset may follow
daylight saving.

* `NamedZone.all` is the table of named zones, with rules for the years 2019 to 2030;
* `Zone.showAt` shows an instant in a zone;
* `readOffset?` reads an offset such as `+02:00`.
-/

namespace ServiceHours

inductive SundayOfMonth
  | nth (number : Nat)
  | last
deriving DecidableEq, Repr

/-- The day number of a Sunday of a month. -/
def SundayOfMonth.day (year : Int) (month : Nat) : SundayOfMonth → Int
  | nth number =>
    let first := (Date.mk year month 1).toDay
    first + (7 - weekdayOfDay first : Nat) % 7 + 7 * (number - 1 : Nat)
  | last =>
    let final := (Date.mk year month (Date.daysOfMonth year month)).toDay
    final - weekdayOfDay final

/-- A change of the clocks once a year, some seconds from the midnight UTC with which a Sunday begins. -/
structure YearlyShift where
  month : Nat
  sunday : SundayOfMonth
  seconds : Int
deriving DecidableEq, Repr

/-- The instant of the change in a year, in seconds since 1970. -/
def YearlyShift.instant (s : YearlyShift) (year : Int) : Int :=
  s.sunday.day year s.month * secondsPerDay + s.seconds

/-- Daylight saving: the clocks go forward by an hour at one change and back at the other. -/
structure Saving where
  forward : YearlyShift
  back : YearlyShift
deriving DecidableEq, Repr

/-- Whether daylight saving is in force at an instant, in seconds since 1970. South of the equator it lasts over the
turn of the year. -/
def Saving.inForce (s : Saving) (second : Int) : Bool :=
  let year := (Date.ofDay (second / secondsPerDay)).year
  let forward := s.forward.instant year
  let back := s.back.instant year
  if forward < back then forward ≤ second && second < back else forward ≤ second || second < back

/-- A zone with a name, its standard offset in seconds and its daylight saving. -/
structure NamedZone where
  name : String
  standard : Int
  saving : Option Saving := none
deriving DecidableEq, Repr

namespace NamedZone

/-- Central European time. -/
def amsterdam : NamedZone :=
  { name := "Europe/Amsterdam", standard := 3600
    saving := some ⟨⟨3, .last, 3600⟩, ⟨10, .last, 3600⟩⟩ }

/-- Eastern time of North America. -/
def newYork : NamedZone :=
  { name := "America/New_York", standard := -18000
    saving := some ⟨⟨3, .nth 2, 25200⟩, ⟨11, .nth 1, 21600⟩⟩ }

/-- Eastern time of Australia, where clocks change at 16:00 UTC of the Saturday before. -/
def sydney : NamedZone :=
  { name := "Australia/Sydney", standard := 36000
    saving := some ⟨⟨10, .nth 1, -28800⟩, ⟨4, .nth 1, -28800⟩⟩ }

def all : List NamedZone :=
  [{ name := "UTC", standard := 0 }, { name := "Etc/UTC", standard := 0 }, { name := "Etc/GMT+5", standard := -18000 },
   { name := "Asia/Kolkata", standard := 19800 }, { name := "Asia/Tokyo", standard := 32400 },
   { name := "Pacific/Kiritimati", standard := 50400 }, { name := "America/Phoenix", standard := -25200 },
   amsterdam, newYork, sydney]

def find? (name : String) : Option NamedZone :=
  all.find? (·.name = name)

/-- The offset from UTC at an instant, in seconds since 1970. -/
def offsetAt (z : NamedZone) (second : Int) : Int :=
  match z.saving with
  | some saving => if saving.inForce second then z.standard + 3600 else z.standard
  | none => z.standard

end NamedZone

inductive Zone
  /-- The zone of the host, which is at UTC. -/
  | host
  | fixed (offset : Int)
  | named (zone : NamedZone)
deriving DecidableEq, Repr

namespace Zone

/-- The offset from UTC at an instant, in seconds since 1970. -/
def offsetAt (z : Zone) (second : Int) : Int :=
  match z with
  | host => 0
  | fixed offset => offset
  | named zone => zone.offsetAt second

/-- An instant on the wall clock of the zone. -/
def showAt (z : Zone) (second : Int) : Timestamp :=
  { second, nano := 0, offset := z.offsetAt second }

end Zone

/-- The two signs that stand for a negative offset: the hyphen and the minus sign. -/
def isMinus (c : Char) : Bool :=
  c = '-' || c.toNat = 0x2212

/-- Reads the hours and minutes of an offset as seconds. Colons and blanks may stand between them, and what follows
the minutes does not count. -/
def readSpan? (cs : List Char) : Option Nat := do
  let (hours, rest) ← Text.fixedDigits? 2 cs
  let (minutes, _) ← Text.fixedDigits? 2 (rest.dropWhile fun c => c = ':' || Text.isBlank c)
  if minutes < 60 && hours * 3600 + minutes * 60 < secondsPerDay then some (hours * 3600 + minutes * 60) else none

/-- Reads an offset from UTC in seconds: `UTC` in any case, `Z`, or a sign with hours and minutes. -/
def readOffset? (text : String) : Option Int :=
  if text.toList.map Char.toLower = "utc".toList || text = "Z" then some 0
  else match text.toList with
    | '+' :: cs => (readSpan? cs).map Int.ofNat
    | c :: cs => if isMinus c then (readSpan? cs).map fun n : Nat => -(n : Int) else none
    | [] => none

end ServiceHours
