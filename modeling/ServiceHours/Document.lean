import ServiceHours.Decimal.Shortest

/-!
# Documents

Data as it leaves the program: records with fields in a fixed order, lists, texts and numbers. `Document.pretty` is
the written form with two spaces for each level.
-/

namespace ServiceHours

/-- A piece of data for readers outside. -/
inductive Document
  | null
  | flag (value : Bool)
  | number (value : Nat)
  | real (value : Float)
  | text (value : String)
  | list (items : List Document)
  | record (fields : List (String × Document))

namespace Document

/-- A field that is left out when there is no value. -/
def field? (name : String) (value : Option Document) : List (String × Document) :=
  match value with
  | some d => [(name, d)]
  | none => []

/-- How one character stands in a text. Controls have short forms or four hexadecimal digits. -/
def escaped (c : Char) : List Char :=
  if c = '"' then ['\\', '"']
  else if c = '\\' then ['\\', '\\']
  else if c = '\n' then ['\\', 'n']
  else if c = '\r' then ['\\', 'r']
  else if c = '\t' then ['\\', 't']
  else if c.toNat = 8 then ['\\', 'b']
  else if c.toNat = 12 then ['\\', 'f']
  else if c.toNat < 16 then "\\u000".toList ++ Nat.toDigits 16 c.toNat
  else if c.toNat < 32 then "\\u00".toList ++ Nat.toDigits 16 c.toNat
  else [c]

def textForm (s : String) : String :=
  String.ofList ('"' :: s.toList.flatMap escaped ++ ['"'])

/-- A new line at the given level. -/
def newLine (level : Nat) : String :=
  String.ofList ('\n' :: List.replicate (2 * level) ' ')

mutual

/-- The written form of a document whose first line stands at the given level. -/
def prettyAt (level : Nat) : Document → String
  | null => "null"
  | flag value => if value then "true" else "false"
  | number value => Text.decimal value
  | real value => Decimal.shortest value
  | text value => textForm value
  | list [] => "[]"
  | list (item :: items) =>
    "[" ++ newLine (level + 1) ++ prettyAt (level + 1) item ++ prettyItems (level + 1) items ++ newLine level ++ "]"
  | record [] => "\x7b\x7d"
  | record ((name, value) :: fields) =>
    "\x7b" ++ newLine (level + 1) ++ textForm name ++ ": " ++ prettyAt (level + 1) value
      ++ prettyFields (level + 1) fields ++ newLine level ++ "\x7d"

/-- The items of a list behind the first one. -/
def prettyItems (level : Nat) : List Document → String
  | [] => ""
  | item :: items => "," ++ newLine level ++ prettyAt level item ++ prettyItems level items

/-- The fields of a record behind the first one. -/
def prettyFields (level : Nat) : List (String × Document) → String
  | [] => ""
  | (name, value) :: fields =>
    "," ++ newLine level ++ textForm name ++ ": " ++ prettyAt level value ++ prettyFields level fields

end

def pretty (d : Document) : String :=
  prettyAt 0 d

end Document

end ServiceHours
