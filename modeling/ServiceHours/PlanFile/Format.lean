import ServiceHours.PlanFile.Json
import ServiceHours.PlanFile.Toml.Reader
import ServiceHours.Text.Blank
import ServiceHours.Text.Segment

/-!
# Formats of plan files

A plan file is JSON or TOML, which its name tells. `fileName?` finds the last part of a path and `extension?` what
stands behind its last dot.
-/

namespace ServiceHours.PlanFile

inductive Format
  | json
  | toml
deriving DecidableEq, Repr

/-- The last part of a path. Empty parts and single dots do not count; two dots are no name. -/
def fileName? (path : List Char) : Option (List Char) :=
  let parts := (Text.split (· == '/') path).filter fun part => !part.isEmpty && part != ['.']
  match parts.getLast? with
  | some part => if part = "..".toList then none else some part
  | none => none

/-- What stands behind the last dot of a name that has something in front of it. -/
def extension? (name : List Char) : Option (List Char) :=
  match Text.splitLast ['.'] name with
  | some (stem, extension) => if stem.isEmpty then none else some extension
  | none => none

/-- The format that the extension of a path stands for. -/
def Format.ofPath? (path : String) : Option Format :=
  match (fileName? path.toList).bind extension? with
  | some extension =>
    if extension = "json".toList then some .json
    else if extension = "toml".toList then some .toml
    else none
  | none => none

/-- Reads the value that a document of the format stands for. -/
def Format.read? (f : Format) (content : String) : Option Value :=
  match f with
  | json => Json.read? content
  | toml => Toml.read? content

end ServiceHours.PlanFile
