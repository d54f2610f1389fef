import ServiceHours.Proofs.Text.Cutting
import ServiceHours.Service

/-!
# Parts of a path

How the name and the cluster of a service go together with its path.

* A path with a slash is its parent, a slash and its name (`exists_parent`).
* With the slash that was put behind the parent, the cluster is the parent with its last service mark replaced
  (`clusterOf_append`). This holds too where the slash itself ends the mark.
* `lastSegmentInBytes?` and `clusterInBytes?` work on the bytes of a path and have no result where a cut falls inside a
  character. They always have one, the same as the parts above (`lastSegmentInBytes?_eq`, `clusterInBytes?_eq`).
-/

namespace ServiceHours.Service

open Text (splitLast cutLast?)

/-! ### The parts in bytes -/

/-- The text without the slash at its end. There is none if it ends otherwise. -/
def dropSlash? (text : String) : Option String :=
  if text.toList.getLast? = some '/' then some (String.ofList text.toList.dropLast) else none

/-- The last segment of a path, cut at byte offsets. -/
def lastSegmentInBytes? (path : String) : Option String := do
  match ← cutLast? "/" path with
  | some (_, last) => return last
  | none => return path

/-- The parent with its last service mark replaced, cut at byte offsets. There is none if a cut falls inside a
character, or if anything but a slash would be taken away at the end. -/
def clusterOfInBytes? (parent : String) : Option String := do
  match ← cutLast? ":service/" (parent ++ "/") with
  | some (before, after) => dropSlash? (before ++ ":cluster/" ++ after)
  | none => return parent

/-- The path of the owning cluster, cut at byte offsets. -/
def clusterInBytes? (path : String) : Option String := do
  match ← cutLast? "/" path with
  | some (parent, _) => clusterOfInBytes? parent
  | none => return ""

variable {s : Service} {parent before after : List Char}

/-! ### Name and parent -/

private theorem toList_slash : "/".toList = ['/'] := by
  decide

private theorem parent?_eq_none_iff {path : List Char} : parent? path = none ↔ '/' ∉ path := by
  rw [parent?, Text.splitLast_eq_none_iff (List.cons_ne_nil _ _), List.singleton_infix_iff]

private theorem name_of_not_mem (h : '/' ∉ s.path.toList) : s.name = s.path := by
  rw [name, lastSegment, parent?_eq_none_iff.mpr h, String.ofList_toList]

private theorem cluster_of_not_mem (h : '/' ∉ s.path.toList) : s.cluster = "" := by
  rw [cluster, parent?_eq_none_iff.mpr h]

/-- A path with a slash is its parent, a slash and its name. -/
theorem exists_parent (h : '/' ∈ s.path.toList) : ∃ parent,
    s.path = String.ofList parent ++ "/" ++ s.name ∧ s.cluster = String.ofList (clusterOf parent) := by
  cases hparts : parent? s.path.toList with
  | none => exact absurd h (parent?_eq_none_iff.mp hparts)
  | some parts =>
    refine ⟨parts.1, ?_, by rw [cluster, hparts]⟩
    rw [name, lastSegment, hparts]
    rw [parent?, ← toList_slash] at hparts
    exact Text.eq_append_of_splitLast hparts

private theorem slash_not_mem_clusterName (s : Service) : '/' ∉ s.clusterName.toList := by
  rw [clusterName, String.toList_ofList]
  exact slash_not_mem_lastSegment s.cluster.toList

/-! ### Parent and cluster -/

/-- With the other mark in the place of the last one, the parent and the slash behind it still end in a slash. -/
private theorem exists_concat_of_mark (h : parent ++ ['/'] = before ++ serviceMark ++ after) :
    ∃ front, before ++ clusterMark ++ after = front ++ ['/'] := by
  rcases List.eq_nil_or_concat' after with rfl | ⟨rest, c, rfl⟩
  · -- The slash behind the parent is the end of the mark.
    have hmark : clusterMark = ":cluster".toList ++ ['/'] := by decide
    exact ⟨before ++ ":cluster".toList, by rw [hmark, List.append_nil, List.append_assoc]⟩
  · rw [← List.append_assoc] at h
    obtain ⟨-, hc⟩ := List.append_inj' h rfl
    exact ⟨before ++ clusterMark ++ rest, by rw [← List.append_assoc, hc]⟩

/-- With the slash behind it, the cluster is the parent with the other mark in the place of its last one. -/
theorem clusterOf_append (h : splitLast serviceMark (parent ++ ['/']) = some (before, after)) :
    String.ofList (clusterOf parent) ++ "/" = String.ofList before ++ ":cluster/" ++ String.ofList after := by
  have hslash : String.ofList ['/'] = "/" := rfl
  have hmark : String.ofList clusterMark = ":cluster/" := String.ofList_toList
  obtain ⟨front, hfront⟩ := exists_concat_of_mark (Text.splitLast_append h)
  have hcluster : clusterOf parent = front := by
    simp only [clusterOf, h, hfront, List.dropLast_concat]
  rw [hcluster, ← hslash, ← hmark, ← String.ofList_append, ← String.ofList_append, ← String.ofList_append, hfront]

private theorem serviceMark_ne_nil : serviceMark ≠ [] := by
  decide

private theorem clusterOf_of_no_mark (h : ¬serviceMark <:+: parent ++ ['/']) : clusterOf parent = parent := by
  rw [clusterOf, (Text.splitLast_eq_none_iff serviceMark_ne_nil).mpr h]

/-- The colon of the mark does not come again in it. -/
private theorem splitLast_serviceMark_iff {cs : List Char} : splitLast serviceMark cs = some (before, after) ↔
    cs = before ++ serviceMark ++ after ∧ ¬serviceMark <:+: after := by
  have hmark : serviceMark = ':' :: "service/".toList := by decide
  rw [hmark]
  exact Text.splitLast_eq_some_iff (by decide)

/-! ### The same parts in bytes -/

theorem lastSegmentInBytes?_eq (path : String) :
    lastSegmentInBytes? path = some (String.ofList (lastSegment path.toList)) := by
  rw [lastSegmentInBytes?, Text.cutLast?_eq (by decide), toList_slash, lastSegment, parent?]
  cases splitLast ['/'] path.toList with
  | none => simp
  | some parts => rfl

private theorem dropSlash?_append (front : String) : dropSlash? (front ++ "/") = some front := by
  simp [dropSlash?]

private theorem clusterOfInBytes?_eq (parent : List Char) :
    clusterOfInBytes? (String.ofList parent) = some (String.ofList (clusterOf parent)) := by
  have htext : (String.ofList parent ++ "/").toList = parent ++ ['/'] := by simp
  have hmark : ":service/".toList = serviceMark := rfl
  rw [clusterOfInBytes?, Text.cutLast?_eq (by decide), htext, hmark]
  cases hcut : splitLast serviceMark (parent ++ ['/']) with
  | none =>
    have hnone := (Text.splitLast_eq_none_iff serviceMark_ne_nil).mp hcut
    rw [clusterOf_of_no_mark hnone]
    rfl
  | some parts =>
    change dropSlash? (String.ofList parts.1 ++ ":cluster/" ++ String.ofList parts.2) = _
    rw [← clusterOf_append hcut, dropSlash?_append]

theorem clusterInBytes?_eq (s : Service) : clusterInBytes? s.path = some s.cluster := by
  rw [clusterInBytes?, Text.cutLast?_eq (by decide), toList_slash, cluster, parent?]
  cases splitLast ['/'] s.path.toList with
  | none => rfl
  | some parts => simp [clusterOfInBytes?_eq]

/-! ### The whole path -/

/-- A path without a slash is the name, and the cluster is empty. Any other path is its parent, a slash and its name,
and its cluster is the parent with the last service mark replaced, if it has one. The bytes of the path are never cut
inside a character, and what is taken away from the end of the cluster is always the slash. -/
theorem path_decomposition (s : Service) :
    '/' ∉ s.name.toList ∧ '/' ∉ s.clusterName.toList ∧
      ('/' ∉ s.path.toList → s.name = s.path ∧ s.cluster = "") ∧
      ('/' ∈ s.path.toList → ∃ parent, s.path = parent ++ "/" ++ s.name ∧
        (∀ before after, parent ++ "/" = before ++ ":service/" ++ after → ¬serviceMark <:+: after.toList →
          s.cluster ++ "/" = before ++ ":cluster/" ++ after) ∧
        (¬serviceMark <:+: (parent ++ "/").toList → s.cluster = parent)) ∧
      lastSegmentInBytes? s.path = some s.name ∧ clusterInBytes? s.path = some s.cluster ∧
      (clusterInBytes? s.path).bind lastSegmentInBytes? = some s.clusterName := by
  refine ⟨slash_not_mem_name s, slash_not_mem_clusterName s, fun h => ⟨name_of_not_mem h, cluster_of_not_mem h⟩,
    fun h => ?_, lastSegmentInBytes?_eq s.path, clusterInBytes?_eq s, ?_⟩
  · obtain ⟨parent, hpath, hcluster⟩ := exists_parent h
    have htext : (String.ofList parent ++ "/").toList = parent ++ ['/'] := by simp
    refine ⟨String.ofList parent, hpath, fun before after hmark hlast => ?_, fun hnone => ?_⟩
    · have hcut : splitLast serviceMark (parent ++ ['/']) = some (before.toList, after.toList) := by
        refine splitLast_serviceMark_iff.mpr ⟨?_, hlast⟩
        rw [← htext, hmark, String.toList_append, String.toList_append]
        rfl
      rw [hcluster, clusterOf_append hcut, String.ofList_toList, String.ofList_toList]
    · rw [htext] at hnone
      rw [hcluster, clusterOf_of_no_mark hnone]
  · rw [clusterInBytes?_eq, Option.bind_some, lastSegmentInBytes?_eq, clusterName]

/-- The mark stands twice in the path, and the slash behind the parent ends the second one, which is replaced. -/
theorem path_decomposition_repeated :
    let s : Service := ⟨"größe:service/東:service/api"⟩
    '/' ∈ s.path.toList ∧ s.path = "größe:service/東:service" ++ "/" ++ s.name ∧
      "größe:service/東:service" ++ "/" = "größe:service/東" ++ ":service/" ++ "" ∧
      ¬serviceMark <:+: "".toList ∧ s.cluster ++ "/" = "größe:service/東" ++ ":cluster/" ++ "" ∧
      clusterInBytes? s.path = some "größe:service/東:cluster" := by
  intro s
  have hslash : '/' ∈ s.path.toList := by decide
  have hpath : s.path = "größe:service/東:service" ++ "/" ++ s.name := by decide +kernel
  have hmark : "größe:service/東:service" ++ "/" = "größe:service/東" ++ ":service/" ++ "" := by decide +kernel
  have hlast : ¬serviceMark <:+: "".toList := by decide
  obtain ⟨-, -, -, hparts, -, hbytes, -⟩ := path_decomposition s
  obtain ⟨parent, hparent, hcluster, -⟩ := hparts hslash
  obtain rfl : parent = "größe:service/東:service" := by
    rw [hpath, String.append_left_inj, String.append_left_inj] at hparent
    exact hparent.symm
  have hrewritten := hcluster "größe:service/東" "" hmark hlast
  refine ⟨hslash, hpath, hmark, hlast, hrewritten, ?_⟩
  have hjoin : "größe:service/東" ++ ":cluster/" ++ "" = "größe:service/東:cluster" ++ "/" := by decide +kernel
  rw [hjoin, String.append_left_inj] at hrewritten
  rw [hbytes, hrewritten]

end ServiceHours.Service
