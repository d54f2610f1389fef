import ServiceHours.PlanFile.Toml.Scalar
import ServiceHours.PlanFile.Toml.Table

/-!
# Reading TOML

TOML 1.0, with a limit on how deep values nest and on how many parts a key has.

* `Toml.key?` reads a dotted key, `Toml.value?` a value;
* `Toml.lines?` reads a document line by line into a draft;
* `Toml.read?` reads a whole document.

Values nest, so their readers carry a bound on the steps they may take. Every step that does not consume a character is
followed by one that does, which makes twice the length of the text enough.
-/

namespace ServiceHours.PlanFile.Toml

/-- The number of levels, and of parts of a key, from which on a document is refused. -/
def nestingLimit : Nat := 80

/-- Removes spaces, line breaks and comments in front; `inComment` tells whether a comment has begun. -/
def skipComments (inComment : Bool) : List Char → List Char
  | '\r' :: '\n' :: rest => skipComments false rest
  | c :: rest =>
    if c = '\n' then skipComments false rest
    else if inComment then (if isShown c then skipComments true rest else c :: rest)
    else if isGap c then skipComments false rest
    else if c = '#' then skipComments true rest
    else c :: rest
  | [] => []

/-- Removes the rest of a line: spaces, a comment, and the line break or the end of the document. -/
def lineRest? (cs : List Char) : Option (List Char) :=
  let cs := match skipGap cs with
    | '#' :: rest => rest.dropWhile isShown
    | cs => cs
  if cs.isEmpty then some [] else newline? cs

/-! ## Keys -/

/-- Whether a character may stand in a key without quotes. -/
def isBare (c : Char) : Bool :=
  c.isAlphanum || c = '-' || c = '_'

def keyPart? : List Char → Option (List Char × List Char)
  | '"' :: rest => basicText? (rest.length + 1) rest
  | '\'' :: rest => literalText? rest
  | cs => if (cs.takeWhile isBare).isEmpty then none else some (cs.takeWhile isBare, cs.dropWhile isBare)

/-- Reads the parts of a key, of which there may be no more than the bound. -/
def keyParts? : (bound : Nat) → List Char → Option (List String × List Char)
  | 0, _ => none
  | bound + 1, cs => do
    let (part, rest) ← keyPart? (skipGap cs)
    match skipGap rest with
    | '.' :: rest => do
      let (parts, rest) ← keyParts? bound rest
      return (String.ofList part :: parts, rest)
    | rest => return ([String.ofList part], rest)

def key? (cs : List Char) : Option (List String × List Char) :=
  keyParts? (nestingLimit - 1) cs

/-! ## Values -/

/-- Reads a value that is neither a list nor a table. -/
def scalar? (cs : List Char) : Option (Value × List Char) :=
  match cs with
  | '"' :: _ => (text? cs).map fun (text, rest) => (.text (some (String.ofList text)), rest)
  | '\'' :: _ => (text? cs).map fun (text, rest) => (.text (some (String.ofList text)), rest)
  | _ =>
    if "true".toList.isPrefixOf cs then some (.flag true, cs.drop 4)
    else if "false".toList.isPrefixOf cs then some (.flag false, cs.drop 5)
    else match dateTimeRest? cs with
      | some rest => some (.other, rest)
      | none => number? cs

mutual

def value? : (fuel depth : Nat) → List Char → Option (Value × List Char)
  | 0, _, _ => none
  | fuel + 1, depth, cs =>
    match cs with
    | '[' :: rest =>
      if depth = 0 then none
      else (items? fuel (depth - 1) rest).map fun (items, rest) => (.list items, rest)
    | '\x7b' :: rest =>
      if depth = 0 then none
      else match skipGap rest with
        | '\x7d' :: rest => some (.record [], rest)
        | rest => (pairs? fuel (depth - 1) .empty rest).map fun (table, rest) => (table.toValue, rest)
    | _ => scalar? cs

/-- Reads the items of a list up to its closing bracket. -/
def items? : (fuel depth : Nat) → List Char → Option (List Value × List Char)
  | 0, _, _ => none
  | fuel + 1, depth, cs =>
    match skipComments false cs with
    | ']' :: rest => some ([], rest)
    | cs => do
      let (item, rest) ← value? fuel depth cs
      match skipComments false rest with
      | ',' :: rest => do
        let (items, rest) ← items? fuel depth rest
        return (item :: items, rest)
      | ']' :: rest => return ([item], rest)
      | _ => none

/-- Reads the entries of a table on one line up to its closing brace. -/
def pairs? : (fuel depth : Nat) → Table → List Char → Option (Table × List Char)
  | 0, _, _, _ => none
  | fuel + 1, depth, table, cs => do
    let (key, rest) ← key? cs
    let (value, rest) ← value? fuel depth (skipGap (← Text.expect? '=' rest))
    let table ← table.addEntry key value
    match skipGap rest with
    | ',' :: rest => pairs? fuel depth table rest
    | '\x7d' :: rest => return (table, rest)
    | _ => none

end

/-! ## Documents -/

/-- Reads one line that is not empty: a comment, a header or an entry. -/
def line? (d : Draft) (cs : List Char) : Option (Draft × List Char) :=
  match cs with
  | '#' :: _ => (lineRest? cs).map (d, ·)
  | '[' :: '[' :: rest => do
    let (path, rest) ← key? rest
    let rest ← lineRest? (← Text.expect? ']' (← Text.expect? ']' rest))
    return (← d.openItem path, rest)
  | '[' :: rest => do
    let (path, rest) ← key? rest
    let rest ← lineRest? (← Text.expect? ']' rest)
    return (← d.openTable path, rest)
  | _ => do
    let (key, rest) ← key? cs
    let cs := skipGap (← Text.expect? '=' rest)
    let (value, rest) ← value? (2 * cs.length + 2) (nestingLimit - 1) cs
    let rest ← lineRest? rest
    return (← d.addEntry key value, rest)

def lines? : (fuel : Nat) → Draft → List Char → Option Draft
  | 0, _, _ => none
  | fuel + 1, d, cs =>
    match skipGap cs with
    | [] => some d
    | cs =>
      match newline? cs with
      | some rest => lines? fuel d rest
      | none => do
        let (d, rest) ← line? d cs
        lines? fuel d rest

/-- Reads a document, which may begin with a byte order mark. -/
def read? (content : String) : Option Value := do
  let cs := match content.toList with
    | c :: rest => if c.toNat = 0xFEFF then rest else c :: rest
    | [] => []
  (← lines? (cs.length + 1) {} cs).finish

end ServiceHours.PlanFile.Toml
