import ServiceHours.PlanFile.Value

/-!
# Tables under construction

A TOML document names its tables piece by piece, and forbids most ways of naming one twice. A `Table` remembers how it
came about:

* `implied`: it was only named on the way to another table;
* `dotted`: it was named by a dotted key.

`Table.descend` follows a path to the table that an entry belongs to, `Table.addEntry` adds one entry, and `Toml.Draft`
is a document of which some headers and entries have been read.
-/

namespace ServiceHours.PlanFile.Toml

mutual

/-- What a name stands for in a table. -/
inductive Entry
  | leaf (value : Value)
  | table (content : Table)
  | tables (items : List Table)

/-- A table and how it was named. -/
inductive Table
  | mk (implied dotted : Bool) (entries : List (String × Entry))

end

def Table.empty : Table := .mk false false []

instance : Inhabited Table := ⟨.empty⟩

namespace Table

def implied : Table → Bool
  | mk i _ _ => i

def dotted : Table → Bool
  | mk _ d _ => d

def entries : Table → List (String × Entry)
  | mk _ _ es => es

def find? (t : Table) (name : String) : Option Entry :=
  (t.entries.find? (·.1 == name)).map (·.2)

def set (t : Table) (name : String) (e : Entry) : Table :=
  let es :=
    if t.entries.any (·.1 == name) then t.entries.map fun p => if p.1 == name then (name, e) else p
    else t.entries ++ [(name, e)]
  mk t.implied t.dotted es

def erase (t : Table) (name : String) : Table :=
  mk t.implied t.dotted (t.entries.filter (·.1 != name))

/-- The table as one that was named for itself. -/
def named (t : Table) : Table :=
  mk false false t.entries

/-- Changes the table at the end of a path; tables that are missing on the way are implied. The path of a dotted key
must not lead into a table that was named for itself. -/
def descend (byDots : Bool) (change : Table → Option Table) : List String → Table → Option Table
  | [], t => change t
  | name :: path, t =>
    match t.find? name with
    | none => (descend byDots change path (mk true byDots [])).map fun inner => t.set name (.table inner)
    | some (.leaf _) => none
    | some (.table inner) =>
      if byDots && !inner.implied then none
      else (descend byDots change path inner).map fun inner => t.set name (.table inner)
    | some (.tables items) =>
      match items.getLast? with
      | some last => (descend byDots change path last).map fun last => t.set name (.tables (items.dropLast ++ [last]))
      | none => none

def follow? (t : Table) : List String → Option Table
  | [] => some t
  | name :: path =>
    match t.find? name with
    | some (.table inner) => inner.follow? path
    | some (.tables items) => items.getLast?.bind (·.follow? path)
    | _ => none

/-- Adds a value under a dotted key; the name must be new. -/
def addEntry (t : Table) (key : List String) (value : Value) : Option Table :=
  let path := key.dropLast
  t.descend true (fun inner =>
    -- a table that dotted keys fill is filled by dotted keys only
    if inner.dotted == path.isEmpty then none
    else
      let name := key.getLast?.getD ""
      if (inner.find? name).isSome then none else some (inner.set name (.leaf value))) path

mutual

def toValue : Table → Value
  | mk _ _ entries => .record (fieldsOf entries)

def ofEntry : Entry → Value
  | .leaf value => value
  | .table t => t.toValue
  | .tables items => .list (valuesOf items)

def valuesOf : List Table → List Value
  | [] => []
  | t :: ts => t.toValue :: valuesOf ts

def fieldsOf : List (String × Entry) → List (Option String × Value)
  | [] => []
  | (name, e) :: rest => (some name, ofEntry e) :: fieldsOf rest

end

end Table

/-- A document read so far: the finished tables, and the one that entries are added to, with the path of its header. -/
structure Draft where
  root : Table := .empty
  current : Table := .empty
  path : List String := []
  /-- Whether the current table is an item of an array of tables. -/
  isItem : Bool := false

namespace Draft

/-- Puts the current table in its place. -/
def close (d : Draft) : Option Table :=
  match d.path.getLast? with
  | none => some d.current
  | some name =>
    d.root.descend false (fun parent =>
      if d.isItem then
        match parent.find? name with
        | some (.tables items) => some (parent.set name (.tables (items ++ [d.current])))
        | none => some (parent.set name (.tables [d.current]))
        | _ => none
      else
        match parent.find? name with
        | none => some (parent.set name (.table d.current))
        | some (.table t) => if t.implied then some (parent.set name (.table d.current)) else none
        | _ => none) d.path.dropLast

def addEntry (d : Draft) (key : List String) (value : Value) : Option Draft :=
  (d.current.addEntry key value).map fun current => { d with current }

/-- Begins a table that stands for itself. One that was only implied so far keeps what is in it. -/
def openTable (d : Draft) (path : List String) : Option Draft := do
  let root ← d.close
  let name := path.getLast?.getD ""
  let root ← root.descend false some path.dropLast
  match (root.follow? path.dropLast).bind (·.find? name) with
  | none => return { root, current := .empty, path }
  | some (.table t) =>
    if t.implied && !t.dotted then
      let root ← root.descend false (fun parent => some (parent.erase name)) path.dropLast
      return { root, current := t.named, path }
    else none
  | _ => none

/-- Begins the next item of an array of tables. -/
def openItem (d : Draft) (path : List String) : Option Draft := do
  let root ← d.close
  let name := path.getLast?.getD ""
  let root ← root.descend false (fun parent =>
    match parent.find? name with
    | none => some (parent.set name (.tables []))
    | some (.tables _) => some parent
    | _ => none) path.dropLast
  return { root, current := .empty, path, isItem := true }

def finish (d : Draft) : Option Value :=
  d.close.map Table.toValue

end Draft

end ServiceHours.PlanFile.Toml
