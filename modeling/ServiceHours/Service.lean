import ServiceHours.Text.Segment

/-!
# Services

A service is addressed by a path such as `region:account:service/billing/api`. Its short name is the last segment.
Its cluster is the parent path, in which the last `:service/` segment stands as `:cluster/`.

* `Service.before` orders services by their paths (`before_trans`, `before_irrefl`, `before_of_ne`);
* `Service.name` holds no slash (`slash_not_mem_name`);
* `Service.cluster` is empty for a path of one segment.
-/

namespace ServiceHours

/-- A managed service, known by its path. -/
structure Service where
  path : String
deriving DecidableEq, Repr, Inhabited

namespace Service

/-- Services in the order of their paths, character by character. -/
def before (a b : Service) : Bool :=
  decide (a.path < b.path)

theorem before_irrefl (s : Service) : s.before s = false :=
  decide_eq_false (String.lt_irrefl s.path)

theorem before_trans {a b c : Service} (hab : a.before b = true) (hbc : b.before c = true) : a.before c = true :=
  decide_eq_true (String.lt_trans (of_decide_eq_true hab) (of_decide_eq_true hbc))

/-- Of two different services one comes before the other. -/
theorem before_of_ne {a b : Service} (hne : a ≠ b) (h : b.before a = false) : a.before b = true := by
  have hle : a.path ≤ b.path := String.not_lt.mp (of_decide_eq_false h)
  refine decide_eq_true (Decidable.byContradiction fun hnot => hne ?_)
  have hpath : a.path = b.path := String.le_antisymm hle (String.not_lt.mp hnot)
  cases a
  cases b
  exact congrArg Service.mk hpath

/-- Whether the path has no characters at all. -/
def isEmpty (s : Service) : Bool :=
  s.path.toList.isEmpty

/-- The parent path and the last segment, when the path has a slash. -/
def parent? (path : List Char) : Option (List Char × List Char) :=
  Text.splitLast ['/'] path

def lastSegment (path : List Char) : List Char :=
  match parent? path with
  | some parts => parts.2
  | none => path

/-- The segment that marks a service in its path. -/
def serviceMark : List Char := ":service/".toList

/-- The segment that marks a cluster in its path. -/
def clusterMark : List Char := ":cluster/".toList

/-- The parent path with its last service mark replaced by the cluster mark. The mark ends in a slash, so it is
looked for with the slash that ended the parent. -/
def clusterOf (parent : List Char) : List Char :=
  match Text.splitLast serviceMark (parent ++ ['/']) with
  | some parts => (parts.1 ++ clusterMark ++ parts.2).dropLast
  | none => parent

/-- The short name: the last segment of the path. -/
def name (s : Service) : String :=
  String.ofList (lastSegment s.path.toList)

/-- The path of the owning cluster, empty when the path has one segment. -/
def cluster (s : Service) : String :=
  match parent? s.path.toList with
  | some parts => String.ofList (clusterOf parts.1)
  | none => ""

def clusterName (s : Service) : String :=
  String.ofList (lastSegment s.cluster.toList)

theorem slash_not_mem_lastSegment (path : List Char) : '/' ∉ lastSegment path := by
  unfold lastSegment
  split
  · rename_i parts h
    exact Text.not_mem_after_of_splitLast h
  · rename_i h
    exact Text.not_mem_of_splitLast_eq_none h

theorem slash_not_mem_name (s : Service) : '/' ∉ s.name.toList := by
  simpa [name] using slash_not_mem_lastSegment s.path.toList

end Service

end ServiceHours
