import ServiceHours.PlanFile.Value
import ServiceHours.Text.Numeral

/-!
# Reading JSON

JSON without extensions. A text may hold an escaped half of a surrogate pair; it then has no content, which matters
only where the text is used.

* `Json.texts` and `Json.assemble` read texts: first the pieces, then pairs of surrogates;
* `Json.numberRest?` knows the form of numbers;
* `Json.read?` reads a whole document.

Values nest, so the readers carry a bound on the steps they may take. Every step that does not consume a character is
followed by one that does, which makes twice the length of the text enough.
-/

namespace ServiceHours.PlanFile.Json

/-- Removes spaces, tabs and line breaks in front. -/
def skip (cs : List Char) : List Char :=
  cs.dropWhile fun c => c = ' ' || c = '\t' || c = '\n' || c = '\r'

def hexDigit? (c : Char) : Option Nat :=
  if c.isDigit then some (c.toNat - 48)
  else if 'a' ≤ c && c ≤ 'f' then some (c.toNat - 87)
  else if 'A' ≤ c && c ≤ 'F' then some (c.toNat - 55)
  else none

def hexNumber? (cs : List Char) : Option Nat :=
  cs.foldl (fun n c => do return (← n) * 16 + (← hexDigit? c)) (some 0)

/-- A piece of a text: a character, or the number of an escaped one. -/
inductive Piece
  | char (c : Char)
  | unit (n : Nat)

def shortEscape? (c : Char) : Option Char :=
  if c = '"' || c = '\\' || c = '/' then some c
  else if c = 'b' then some (Char.ofNat 8)
  else if c = 'f' then some (Char.ofNat 12)
  else if c = 'n' then some '\n'
  else if c = 'r' then some '\r'
  else if c = 't' then some '\t'
  else none

/-- Reads the pieces of a text up to the closing quote. -/
def pieces? : List Char → Option (List Piece × List Char)
  | [] => none
  | '"' :: rest => some ([], rest)
  | '\\' :: 'u' :: a :: b :: c :: d :: rest => do
    let n ← hexNumber? [a, b, c, d]
    let (pieces, rest) ← pieces? rest
    return (.unit n :: pieces, rest)
  | '\\' :: e :: rest => do
    let c ← shortEscape? e
    let (pieces, rest) ← pieces? rest
    return (.char c :: pieces, rest)
  | c :: rest =>
    if c.toNat < 32 || c = '\\' then none
    else do
      let (pieces, rest) ← pieces? rest
      return (.char c :: pieces, rest)

/-- Whether a number is the first half of a surrogate pair. -/
def isHigh (n : Nat) : Bool := 0xD800 ≤ n && n ≤ 0xDBFF

/-- Whether a number is the second half of a surrogate pair. -/
def isLow (n : Nat) : Bool := 0xDC00 ≤ n && n ≤ 0xDFFF

/-- The characters of a text; there are none if a half of a surrogate pair stands alone. -/
def assemble : List Piece → Option (List Char)
  | [] => some []
  | .unit h :: .unit l :: rest =>
    if isHigh h && isLow l then
      (assemble rest).map (Char.ofNat (0x10000 + (h - 0xD800) * 1024 + (l - 0xDC00)) :: ·)
    else if isHigh h || isLow h then none
    else (assemble (.unit l :: rest)).map (Char.ofNat h :: ·)
  | .unit n :: rest => if isHigh n || isLow n then none else (assemble rest).map (Char.ofNat n :: ·)
  | .char c :: rest => (assemble rest).map (c :: ·)

def text? (cs : List Char) : Option (Option String × List Char) :=
  (pieces? cs).map fun (pieces, rest) => ((assemble pieces).map String.ofList, rest)

/-- Removes digits in front, of which there must be one. -/
def digitsRest? (cs : List Char) : Option (List Char) :=
  if (cs.head?.map Char.isDigit).getD false then some (cs.dropWhile Char.isDigit) else none

/-- Removes the whole part of a number: no zero stands in front of another digit. -/
def wholeRest? : List Char → Option (List Char)
  | '0' :: rest => if (rest.head?.map Char.isDigit).getD false then none else some rest
  | cs => digitsRest? cs

/-- Removes the fraction of a number, if there is one. -/
def fractionRest? : List Char → Option (List Char)
  | '.' :: rest => digitsRest? rest
  | cs => some cs

/-- Removes the exponent of a number, if there is one. -/
def exponentRest? : List Char → Option (List Char)
  | c :: rest =>
    if c = 'e' || c = 'E' then
      match rest with
      | s :: digits => if s = '+' || s = '-' then digitsRest? digits else digitsRest? rest
      | [] => none
    else some (c :: rest)
  | [] => some []

/-- What stands behind the number in front. -/
def numberRest? (cs : List Char) : Option (List Char) := do
  let unsigned := match cs with
    | '-' :: rest => rest
    | _ => cs
  exponentRest? (← fractionRest? (← wholeRest? unsigned))

/-- Whether a number in front is made of digits alone. -/
def isPlain (cs : List Char) : Bool :=
  (cs.head?.map Char.isDigit).getD false &&
    match (cs.dropWhile Char.isDigit).head? with
    | some c => c ≠ '.' && c ≠ 'e' && c ≠ 'E'
    | none => true

/-- Reads a number. Only one of digits alone is an integer. -/
def number? (cs : List Char) : Option (Value × List Char) :=
  (numberRest? cs).map fun rest =>
    (if isPlain cs then .integer (Nat.ofDigitChars 10 (cs.takeWhile Char.isDigit) 0) else .other, rest)

def word? (cs : List Char) : Option (Value × List Char) :=
  if "true".toList.isPrefixOf cs then some (.flag true, cs.drop 4)
  else if "false".toList.isPrefixOf cs then some (.flag false, cs.drop 5)
  else if "null".toList.isPrefixOf cs then some (.null, cs.drop 4)
  else none

mutual

def value? : (fuel : Nat) → List Char → Option (Value × List Char)
  | 0, _ => none
  | fuel + 1, cs =>
    match skip cs with
    | '"' :: rest => (text? rest).map fun (content, rest) => (.text content, rest)
    | '[' :: rest =>
      match skip rest with
      | ']' :: rest => some (.list [], rest)
      | _ => (items? fuel rest).map fun (items, rest) => (.list items, rest)
    | '\x7b' :: rest =>
      match skip rest with
      | '\x7d' :: rest => some (.record [], rest)
      | _ => (fields? fuel rest).map fun (fields, rest) => (.record fields, rest)
    | c :: rest => if c = '-' || c.isDigit then number? (c :: rest) else word? (c :: rest)
    | [] => none

/-- Reads the items of a list up to its closing bracket. -/
def items? : (fuel : Nat) → List Char → Option (List Value × List Char)
  | 0, _ => none
  | fuel + 1, cs => do
    let (item, rest) ← value? fuel cs
    match skip rest with
    | ',' :: rest => do
      let (items, rest) ← items? fuel rest
      return (item :: items, rest)
    | ']' :: rest => return ([item], rest)
    | _ => none

/-- Reads the fields of a record up to its closing brace. -/
def fields? : (fuel : Nat) → List Char → Option (List (Option String × Value) × List Char)
  | 0, _ => none
  | fuel + 1, cs =>
    match skip cs with
    | '"' :: rest => do
      let (name, rest) ← text? rest
      match skip rest with
      | ':' :: rest => do
        let (value, rest) ← value? fuel rest
        match skip rest with
        | ',' :: rest => do
          let (fields, rest) ← fields? fuel rest
          return ((name, value) :: fields, rest)
        | '\x7d' :: rest => return ([(name, value)], rest)
        | _ => none
      | _ => none
    | _ => none

end

def read? (content : String) : Option Value := do
  let cs := content.toList
  let (value, rest) ← value? (2 * cs.length + 2) cs
  if (skip rest).isEmpty then some value else none

end ServiceHours.PlanFile.Json
