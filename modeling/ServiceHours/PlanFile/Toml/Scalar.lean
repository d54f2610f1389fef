import ServiceHours.Calendar.Date
import ServiceHours.PlanFile.Json
import ServiceHours.Text.Segment

/-!
# Scalars of TOML

Texts, numbers, dates and times. Each reader returns what it read and the rest of the text.

* `basicText?`, `literalText?` and their forms over several lines read texts;
* `number?` reads integers of 64 bits in four bases, and fractions;
* `dateTimeRest?` checks dates and times, whose values no plan uses.
-/

namespace ServiceHours.PlanFile.Toml

/-- Whether a character may stand in a comment or a text: no control but the tab. -/
def isShown (c : Char) : Bool :=
  c = '\t' || (32 ≤ c.toNat && c.toNat ≠ 127)

/-- Whether a character is a space or a tab. -/
def isGap (c : Char) : Bool :=
  c = ' ' || c = '\t'

/-- Removes spaces and tabs in front. -/
def skipGap (cs : List Char) : List Char :=
  cs.dropWhile isGap

def newline? : List Char → Option (List Char)
  | '\n' :: rest => some rest
  | '\r' :: '\n' :: rest => some rest
  | _ => none

/-- Removes spaces, tabs and line breaks in front. -/
def skipLines : List Char → List Char
  | '\r' :: '\n' :: rest => skipLines rest
  | c :: rest => if c = '\n' || isGap c then skipLines rest else c :: rest
  | [] => []

/-! ## Texts -/

/-- The character with a number, which must not be half of a surrogate pair. -/
def charOf? (n : Nat) : Option Char :=
  if h : n.isValidChar then some (Char.ofNatAux n h) else none

def numberedChar? (digits : Nat) (cs : List Char) : Option (Char × List Char) := do
  if (cs.take digits).length = digits then
    return (← charOf? (← Json.hexNumber? (cs.take digits)), cs.drop digits)
  else none

def escape? : List Char → Option (Char × List Char)
  | 'u' :: rest => numberedChar? 4 rest
  | 'U' :: rest => numberedChar? 8 rest
  | c :: rest => if c = '/' then none else (Json.shortEscape? c).map (·, rest)
  | [] => none

def basicText? : (fuel : Nat) → List Char → Option (List Char × List Char)
  | 0, _ => none
  | fuel + 1, cs =>
    match cs with
    | '"' :: rest => some ([], rest)
    | '\\' :: rest => do
      let (c, rest) ← escape? rest
      let (text, rest) ← basicText? fuel rest
      return (c :: text, rest)
    | c :: rest =>
      if isShown c then (basicText? fuel rest).map fun (text, rest) => (c :: text, rest) else none
    | [] => none

/-- Reads a text behind its opening single quote, in which nothing is escaped. -/
def literalText? : List Char → Option (List Char × List Char)
  | '\'' :: rest => some ([], rest)
  | c :: rest => if isShown c then (literalText? rest).map fun (text, rest) => (c :: text, rest) else none
  | [] => none

/-- How many of the quotes at the end of a text over several lines belong to it: three close it, and at most two stand
before those. -/
def quotesInside (quotes : Nat) : Nat :=
  min (quotes - 3) 2

/-- Removes a backslash at the end of a line together with the blank lines and spaces that follow it. -/
def continuation? : List Char → Option (List Char)
  | '\\' :: rest => (newline? (skipGap rest)).map skipLines
  | _ => none

/-- Reads a text over several lines behind its opening quotes, with escapes only if it is `basic`. -/
def longText? (basic : Bool) : (fuel : Nat) → List Char → Option (List Char × List Char)
  | 0, _ => none
  | fuel + 1, cs =>
    let quote := if basic then '"' else '\''
    let quotes := (cs.takeWhile (· = quote)).length
    if 3 ≤ quotes then some (List.replicate (quotesInside quotes) quote, cs.drop (quotesInside quotes + 3))
    else if 1 ≤ quotes then
      (longText? basic fuel (cs.drop quotes)).map fun (text, rest) => (List.replicate quotes quote ++ text, rest)
    else match newline? cs with
      | some rest => (longText? basic fuel rest).map fun (text, rest) => ('\n' :: text, rest)
      | none =>
        match (if basic then continuation? cs else none) with
        | some rest => longText? basic fuel rest
        | none =>
          match cs with
          | '\\' :: rest => do
            let (c, rest) ← if basic then escape? rest else some ('\\', rest)
            let (text, rest) ← longText? basic fuel rest
            return (c :: text, rest)
          | c :: rest =>
            if isShown c then (longText? basic fuel rest).map fun (text, rest) => (c :: text, rest) else none
          | [] => none

/-- Removes the line break with which a text over several lines may begin. -/
def skipFirstBreak (cs : List Char) : List Char :=
  (newline? cs).getD cs

/-- Reads a text in any of its forms. -/
def text? : List Char → Option (List Char × List Char)
  | '"' :: '"' :: '"' :: rest => longText? true (rest.length + 1) (skipFirstBreak rest)
  | '"' :: rest => basicText? (rest.length + 1) rest
  | '\'' :: '\'' :: '\'' :: rest => longText? false (rest.length + 1) (skipFirstBreak rest)
  | '\'' :: rest => literalText? rest
  | _ => none

/-! ## Numbers -/

/-- Reads digits behind a first one. An underscore may stand between two digits. -/
def moreDigits? (isDigit : Char → Bool) : List Char → Option (List Char × List Char)
  | '_' :: c :: rest =>
    if isDigit c then (moreDigits? isDigit rest).map fun (digits, rest) => (c :: digits, rest) else none
  | '_' :: [] => none
  | c :: rest =>
    if isDigit c then (moreDigits? isDigit rest).map fun (digits, rest) => (c :: digits, rest)
    else some ([], c :: rest)
  | [] => some ([], [])

def digits? (isDigit : Char → Bool) : List Char → Option (List Char × List Char)
  | c :: rest =>
    if isDigit c then (moreDigits? isDigit rest).map fun (digits, rest) => (c :: digits, rest) else none
  | [] => none

/-- Reads decimal digits of which a zero in front stands alone. -/
def wholeDigits? : List Char → Option (List Char × List Char)
  | '0' :: rest => some (['0'], rest)
  | cs => digits? Char.isDigit cs

def maxInteger : Int := 9223372036854775807

def integer? (n : Int) : Option Value :=
  if -maxInteger - 1 ≤ n ∧ n ≤ maxInteger then some (.integer n) else none

/-- Whether `digits * 10 ^ exponent` is too large for a double: no less than the middle between the largest double and
the next power of two. -/
def overflows (digits : List Char) (exponent : Int) : Bool :=
  let significant := digits.dropWhile (· = '0')
  let n := Nat.ofDigitChars 10 significant 0
  let places := (significant.length : Int) + exponent
  let bound := Nat.pow 2 1024 - Nat.pow 2 970
  if significant.isEmpty || places < 309 then false
  else if 310 < places then true
  else bound * Nat.pow 10 (-exponent).toNat ≤ n * Nat.pow 10 exponent.toNat

def exponent? (cs : List Char) : Option (Int × List Char) := do
  let (sign, cs) := match cs with
    | '+' :: rest => ((1 : Int), rest)
    | '-' :: rest => (-1, rest)
    | _ => (1, cs)
  let (digits, rest) ← digits? Char.isDigit cs
  return (sign * Nat.ofDigitChars 10 digits 0, rest)

/-- Reads an exponent with its letter, if there is one. -/
def optionalExponent? : List Char → Option (Int × List Char)
  | 'e' :: rest => exponent? rest
  | 'E' :: rest => exponent? rest
  | cs => some (0, cs)

def fraction? (negative : Bool) (digits : List Char) (exponent : Int) : Option Value :=
  if !negative && overflows digits exponent then none else some .other

/-- Reads what follows the whole digits of a decimal number: a fraction, an exponent, both or nothing. -/
def decimalTail? (negative : Bool) (whole cs : List Char) : Option (Value × List Char) :=
  match cs with
  | '.' :: rest => do
    let (places, rest) ← digits? Char.isDigit rest
    let (exponent, rest) ← optionalExponent? rest
    return (← fraction? negative (whole ++ places) (exponent - places.length), rest)
  | c :: rest =>
    if c = 'e' || c = 'E' then do
      let (exponent, rest) ← exponent? rest
      return (← fraction? negative whole exponent, rest)
    else do
      let n : Int := Nat.ofDigitChars 10 whole 0
      return (← integer? (if negative then -n else n), cs)
  | [] => do
    let n : Int := Nat.ofDigitChars 10 whole 0
    return (← integer? (if negative then -n else n), cs)

/-- Reads the words for infinity and for no number. -/
def special? (cs : List Char) : Option (Value × List Char) :=
  if "inf".toList.isPrefixOf cs || "nan".toList.isPrefixOf cs then some (.other, cs.drop 3) else none

def unsigned? (negative : Bool) (cs : List Char) : Option (Value × List Char) :=
  match wholeDigits? cs with
  | some (whole, rest) => decimalTail? negative whole rest
  | none => special? cs

/-- Reads an integer in a base given by the letter behind a zero. -/
def based? (base : Nat) (isDigit : Char → Bool) (cs : List Char) : Option (Value × List Char) := do
  let (digits, rest) ← digits? isDigit cs
  let n := digits.foldl (fun n c => n * base + (Json.hexDigit? c).getD 0) 0
  return (← integer? n, rest)

def number? : List Char → Option (Value × List Char)
  | '0' :: 'x' :: rest => based? 16 (fun c => (Json.hexDigit? c).isSome) rest
  | '0' :: 'o' :: rest => based? 8 (fun c => '0' ≤ c && c ≤ '7') rest
  | '0' :: 'b' :: rest => based? 2 (fun c => c = '0' || c = '1') rest
  | '+' :: rest => unsigned? false rest
  | '-' :: rest => unsigned? true rest
  | cs => unsigned? false cs

/-! ## Dates and times -/

/-- Reads exactly `count` digits as a number in a range. -/
def inRange? (count least greatest : Nat) (cs : List Char) : Option (Nat × List Char) :=
  (Text.fixedDigits? count cs).filter fun found => least ≤ found.1 && found.1 ≤ greatest

def dateRest? (cs : List Char) : Option (List Char) := do
  let (year, cs) ← inRange? 4 0 9999 cs
  let (month, cs) ← inRange? 2 1 12 (← Text.expect? '-' cs)
  let (_, cs) ← inRange? 2 1 (Date.daysOfMonth year month) (← Text.expect? '-' cs)
  return cs

def timeRest? (cs : List Char) : Option (List Char) := do
  let (_, cs) ← inRange? 2 0 23 cs
  let (_, cs) ← inRange? 2 0 59 (← Text.expect? ':' cs)
  let (_, cs) ← inRange? 2 0 60 (← Text.expect? ':' cs)
  match cs with
  | '.' :: rest => return (Json.digitsRest? rest).getD cs
  | _ => return cs

/-- Removes an offset from UTC in front, if there is one. -/
def offsetRest (cs : List Char) : List Char :=
  match cs with
  | c :: rest =>
    if c = 'Z' || c = 'z' then rest
    else if c = '+' || c = '-' then
      (do
        let (_, cs) ← inRange? 2 0 23 rest
        let (_, cs) ← inRange? 2 0 59 (← Text.expect? ':' cs)
        return cs : Option (List Char)).getD cs
    else cs
  | [] => []

/-- Removes a time of day and an offset behind a date, if there are any. -/
def timeOfDateRest (cs : List Char) : List Char :=
  match cs with
  | c :: rest =>
    if c = 'T' || c = 't' || c = ' ' then
      match timeRest? rest with
      | some rest => offsetRest rest
      | none => cs
    else cs
  | [] => []

/-- Removes a date, a time or both in front. -/
def dateTimeRest? (cs : List Char) : Option (List Char) :=
  match dateRest? cs with
  | some rest => some (timeOfDateRest rest)
  | none => timeRest? cs

end ServiceHours.PlanFile.Toml
