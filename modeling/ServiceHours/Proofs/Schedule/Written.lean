import Mathlib.Data.List.TakeWhile
import ServiceHours.Proofs.Schedule.Meaning
import ServiceHours.Proofs.Schedule.Reference
import ServiceHours.Proofs.Schedule.Validation

/-!
# Schedules written from changes

A list of changes and the text of their clauses say the same.

* A recurrence is read from its words only, so blanks around it do not count (`Recurrence.read_trimmed`), and the
  characters that clauses are made with cannot stand in it (`Recurrence.mem_of_read`).
* `Schedule.written` writes changes as clauses. Reading the text gives back the changes, without the blanks around their
  recurrences (`Schedule.read_written`).
* A plan with the text and a plan that lists the changes are validated to the same ones, and what validation left can be
  listed and validated again (`Plan.validate_of_written`, `Plan.validate_of_listed`, `Plan.validate_again`).
-/

namespace ServiceHours

/-! ### The text of a recurrence -/

namespace Recurrence

variable {expr : String} {r : Recurrence}

/-- Blanks around a recurrence do not count. -/
theorem read_trimmed (h : read expr = .ok r) : read (Text.trimmed expr) = .ok r := by
  obtain ⟨hwords, hminute, hhour, hdays⟩ := read_eq_ok_iff.mp h
  refine read_eq_ok_iff.mpr ⟨?_, hminute, hhour, hdays⟩
  rw [← Text.words_eq_iff, Text.trimmed, String.toList_ofList, Text.words_trim]
  exact hwords.words_eq

/-- Whether a character can stand in a recurrence. -/
def Holds (c : Char) : Prop :=
  Text.isBlank c = true ∨ c.isDigit = true ∨ c = '+' ∨ c = '-' ∨ c = '/'

private theorem Field.holds {field : TimeField} {value : List Char} {n : Nat} (h : Field field value n) :
    ∀ c ∈ value, Holds c := fun c hc =>
  Or.inr ((h.1.of_mem c hc).elim (fun hplus => Or.inr (Or.inl hplus)) Or.inl)

private theorem Days.holds {text : List Char} {days : List Nat} (h : Days text days) : ∀ c ∈ text, Holds c := by
  intro c hc
  cases h with
  | single h => exact h.holds c hc
  | range hfirst hlast =>
    rcases List.mem_append.mp hc with hc | hc
    · exact hfirst.holds c hc
    · rcases List.mem_cons.mp hc with rfl | hc
      · exact Or.inr (Or.inr (Or.inr (Or.inl rfl)))
      · exact hlast.holds c hc
  | listed hpieces _ hvalues =>
    by_cases hslash : c = '/'
    · exact Or.inr (Or.inr (Or.inr (Or.inr hslash)))
    · obtain ⟨value, hvalue, hin⟩ := Text.exists_mem_split (p := (· == '/')) hc (beq_eq_false_iff_ne.mpr hslash)
      rw [Text.split_eq_iff.mpr hpieces] at hvalue
      have hholds : List.Forall₂ (fun value d => (∀ c ∈ value, Holds c) ∧ Field .day value d) _ days :=
        hvalues.imp fun _ _ h => ⟨h.holds, h⟩
      exact ((List.forall₂_and_left _ _).mp hholds).1 value hvalue c hin

/-- A recurrence that can be read holds blanks, digits and signs only. -/
theorem mem_of_read (h : read expr = .ok r) {c : Char} (hc : c ∈ expr.toList) : Holds c := by
  obtain ⟨hwords, hminute, hhour, hdays⟩ := read_eq_ok_iff.mp h
  by_cases hblank : Text.isBlank c = true
  · exact Or.inl hblank
  · obtain ⟨word, hword, hin⟩ := Text.exists_mem_words hc (Bool.not_eq_true _ ▸ hblank)
    rw [hwords.words_eq] at hword
    simp only [List.mem_cons, List.not_mem_nil, or_false] at hword
    rcases hword with rfl | rfl | rfl
    · exact hminute.holds c hin
    · exact hhour.holds c hin
    · exact hdays.holds c hin

private theorem stop_not_mem_of_read (h : read expr = .ok r) : '.' ∉ expr.toList := fun hmem =>
  absurd (mem_of_read h hmem) (by unfold Holds; decide)

private theorem equals_not_mem_of_read (h : read expr = .ok r) : '=' ∉ expr.toList := fun hmem =>
  absurd (mem_of_read h hmem) (by unfold Holds; decide)

end Recurrence

/-! ### Changes as clauses -/

namespace Change

/-- The change without the blanks around its recurrence. -/
def trimmed (c : Change) : Change :=
  { c with cron := Text.trimmed c.cron }

/-- The change as it is listed, before its recurrence is read. -/
def unread (c : Change) : Change :=
  { c with recurrence := {} }

/-- The same change with the recurrence that its text reads as. -/
structure ReadAs (c d : Change) : Prop where
  state : d.state = c.state
  count : d.count = c.count
  cron : d.cron = c.cron
  read : Recurrence.read c.cron = .ok d.recurrence

/-- The change as a schedule has it: its clause and, if it is a running one, a clause with its count. -/
def written (c : Change) : String :=
  if c.state.isRunning then c.text ++ "count=" ++ Text.decimal c.count ++ "." else c.text

end Change

/-- The changes as clauses of a schedule, one after the other. -/
def Schedule.written : List Change → String
  | [] => ""
  | c :: cs => c.written ++ written cs

namespace Clause

/-- A word that can begin a clause. -/
def IsKey (key : List Char) : Prop :=
  key ≠ [] ∧ ∀ c ∈ key, Text.isBlank c = false ∧ c ≠ '=' ∧ c ≠ '.' ∧ c ≠ '/'

instance (key : List Char) : Decidable (IsKey key) :=
  @instDecidableAnd _ _ _ (List.decidableBAll _ key)

private theorem isKey_text (state : DesiredState) : IsKey state.text.toList := by
  cases state <;> decide

private theorem isKey_count : IsKey "count".toList := by
  decide

variable {key value : List Char}

/-- A clause is trimmed at the end of its value only, because its key begins it. -/
private theorem trim_clause (hkey : IsKey key) (value : List Char) :
    Text.trim (key ++ '=' :: value) = key ++ '=' :: Text.trimEnd value := by
  have hfront : ∀ c ∈ key ++ ['='], Text.isBlank c = false := by
    intro c hc
    rcases List.mem_append.mp hc with hc | hc
    · exact (hkey.2 c hc).1
    · rw [List.mem_singleton.mp hc]
      decide
  rw [← List.singleton_append, ← List.append_assoc, Text.trim_append hfront (by simp), List.append_assoc,
    List.singleton_append]

private theorem parts_trim (hkey : IsKey key) (hvalue : '=' ∉ value) :
    Parts (Text.trim (key ++ '=' :: value)) key (Text.trim value) := by
  rw [trim_clause hkey]
  refine ⟨key, Text.trimEnd value, rfl, fun h => (hkey.2 '=' h).2.1 rfl, fun h => hvalue (Text.mem_of_mem_trimEnd h),
    Text.trim_eq_iff.mp ?_, Text.trim_eq_iff.mp (Text.trim_trimEnd value)⟩
  exact Text.trim_of_forall_not_blank fun c hc => (hkey.2 c hc).1

/-- It is not blank and not a comment. -/
private theorem trim_clause_kept (hkey : IsKey key) (value : List Char) : Text.trim (key ++ '=' :: value) ≠ [] ∧
    ¬"//".toList <+: Text.trim (key ++ '=' :: value) := by
  rw [trim_clause hkey]
  obtain ⟨c, rest, rfl⟩ := List.exists_cons_of_ne_nil hkey.1
  refine ⟨List.cons_ne_nil _ _, fun hcomment => ?_⟩
  exact (hkey.2 c List.mem_cons_self).2.2.2 (List.cons_prefix_cons.mp hcomment).1.symm

private theorem stop_not_mem_clause (hkey : IsKey key) (hvalue : '.' ∉ value) : '.' ∉ key ++ '=' :: value := by
  rw [List.mem_append, List.mem_cons, not_or, not_or]
  exact ⟨fun h => (hkey.2 '.' h).2.2.1 rfl, by decide, hvalue⟩

end Clause

/-- Pieces that were written with a full stop behind each are the clauses of the text. -/
private theorem Schedule.clauses_flatMap {pieces : List (List Char)} (hstop : ∀ c ∈ pieces, '.' ∉ c)
    (hkept : ∀ c ∈ pieces, Text.trim c ≠ [] ∧ ¬"//".toList <+: Text.trim c) :
    clauses (pieces.flatMap (· ++ ['.'])) = pieces.map Text.trim := by
  have hfilter : (pieces.map Text.trim ++ [[]]).filter (· ≠ []) = pieces.map Text.trim := by
    rw [List.filter_append, List.filter_eq_self.mpr]
    · exact List.append_nil _
    · intro c hc
      obtain ⟨raw, hraw, rfl⟩ := List.mem_map.mp hc
      exact decide_eq_true (hkept raw hraw).1
  have htrim : Text.trim [] = [] := rfl
  rw [clauses_eq, Text.split_flatMap hstop, List.map_append, List.map_singleton, htrim, hfilter,
    List.takeWhile_eq_self_iff]
  intro c hc
  obtain ⟨raw, hraw, rfl⟩ := List.mem_map.mp hc
  exact decide_eq_true (hkept raw hraw).2

namespace Change

variable {c : Change} {cs : List Change}

/-- The pieces that a written change has between full stops. -/
def rawClauses (c : Change) : List (List Char) :=
  (c.state.text.toList ++ '=' :: c.cron.toList) ::
    if c.state.isRunning then ["count".toList ++ '=' :: Nat.toDigits 10 c.count] else []

/-- What they say. -/
def said (c : Change) : List Clause :=
  .change c.state (Text.trimmed c.cron) c.recurrence :: if c.state.isRunning then [.count c.count] else []

private theorem toList_written (c : Change) : c.written.toList = c.rawClauses.flatMap (· ++ ['.']) := by
  unfold written rawClauses text Text.decimal
  cases c.state <;> simp [DesiredState.isRunning]

/-- No piece holds a full stop, and none is blank or a comment. -/
private theorem of_mem_rawClauses (hread : Recurrence.read c.cron = .ok c.recurrence) {piece : List Char}
    (hpiece : piece ∈ c.rawClauses) :
    '.' ∉ piece ∧ Text.trim piece ≠ [] ∧ ¬"//".toList <+: Text.trim piece := by
  have hdigits : '.' ∉ Nat.toDigits 10 c.count := fun h => absurd (Text.isDigit_of_mem_toDigits h) (by decide)
  rcases List.mem_cons.mp hpiece with rfl | hpiece
  · have hkey := Clause.isKey_text c.state
    exact ⟨Clause.stop_not_mem_clause hkey (Recurrence.stop_not_mem_of_read hread), Clause.trim_clause_kept hkey _⟩
  · split at hpiece
    · rw [List.mem_singleton] at hpiece
      subst hpiece
      exact ⟨Clause.stop_not_mem_clause Clause.isKey_count hdigits, Clause.trim_clause_kept Clause.isKey_count _⟩
    · cases hpiece

private theorem forall₂_said (hread : Recurrence.read c.cron = .ok c.recurrence) (hcount : c.count ≤ Text.maxCount) :
    List.Forall₂ Clause.Says (c.rawClauses.map Text.trim) c.said := by
  have hdigits : ∀ d ∈ Nat.toDigits 10 c.count, d.isDigit = true := fun _ => Text.isDigit_of_mem_toDigits
  refine .cons ?_ ?_
  · have hcron : Text.trimmed c.cron = String.ofList (Text.trim c.cron.toList) := rfl
    rw [hcron]
    refine .change (Clause.parts_trim (Clause.isKey_text c.state) (Recurrence.equals_not_mem_of_read hread)) ?_
    exact Recurrence.read_trimmed hread
  · split
    · refine .cons (.count (Clause.parts_trim Clause.isKey_count ?_) ?_ hcount) .nil
      · exact fun h => absurd (hdigits '=' h) (by decide)
      · rw [Text.trim_of_forall_not_blank fun d hd => Text.isBlank_of_isDigit (hdigits d hd)]
        exact Text.numeral_toDigits c.count
    · exact .nil

/-- A written running change takes its count along, and no count is left without one. -/
private theorem countsAhead_said (cs : List Change) : Clause.countsAhead (cs.flatMap said) = [] := by
  induction cs with
  | nil => rfl
  | cons c cs ih =>
    rw [List.flatMap_cons, said, List.cons_append, Clause.countsAhead_cons_change]
    cases c.state with
    | running => rfl
    | stopped => exact ih

private theorem changes_said (hstopped : ∀ c ∈ cs, c.state = .stopped → c.count = 0) :
    Clause.changes (cs.flatMap said) = cs.map trimmed := by
  induction cs with
  | nil => rfl
  | cons c cs ih =>
    obtain ⟨hc, hcs⟩ := List.forall_mem_cons.mp hstopped
    rw [List.flatMap_cons, List.map_cons, ← ih hcs]
    obtain ⟨state, count, cron, recurrence⟩ := c
    cases state with
    | running =>
      have hahead : Clause.countsAhead (.count count :: cs.flatMap said) = [count] := by
        rw [Clause.countsAhead_cons_count, countsAhead_said]
      show Change.mk .running ((Clause.countsAhead (.count count :: cs.flatMap said)).getLast?.getD 0) _ _ :: _ = _
      rw [hahead]
      rfl
    | stopped =>
      cases hc rfl
      rfl

end Change

namespace Schedule

variable {cs : List Change}

private theorem toList_written (cs : List Change) :
    (written cs).toList = (cs.flatMap Change.rawClauses).flatMap (· ++ ['.']) := by
  induction cs with
  | nil => rfl
  | cons c cs ih =>
    rw [written, String.toList_append, ih, Change.toList_written, List.flatMap_cons, List.flatMap_append]

/-- Changes that were written are read as they were, without the blanks around their recurrences. -/
theorem read_written (hread : ∀ c ∈ cs, Recurrence.read c.cron = .ok c.recurrence)
    (hstopped : ∀ c ∈ cs, c.state = .stopped → c.count = 0) (hcount : ∀ c ∈ cs, c.count ≤ Text.maxCount) :
    read (written cs) = .ok ⟨cs.map Change.trimmed, []⟩ := by
  have hclauses : clauses (written cs).toList = (cs.flatMap Change.rawClauses).map Text.trim := by
    have hraw : ∀ piece ∈ cs.flatMap Change.rawClauses,
        '.' ∉ piece ∧ Text.trim piece ≠ [] ∧ ¬"//".toList <+: Text.trim piece := by
      intro piece hpiece
      obtain ⟨c, hc, hpiece⟩ := List.mem_flatMap.mp hpiece
      exact Change.of_mem_rawClauses (hread c hc) hpiece
    rw [toList_written]
    exact clauses_flatMap (fun piece h => (hraw piece h).1) fun piece h => (hraw piece h).2
  have hsaid : List.Forall₂ Clause.Says (clauses (written cs).toList) (cs.flatMap Change.said) := by
    rw [hclauses]
    clear hclauses hstopped
    induction cs with
    | nil => exact .nil
    | cons c cs ih =>
      obtain ⟨hc, hcs⟩ := List.forall_mem_cons.mp hread
      obtain ⟨hn, hns⟩ := List.forall_mem_cons.mp hcount
      rw [List.flatMap_cons, List.flatMap_cons, List.map_append]
      exact List.rel_append (Change.forall₂_said hc hn) (ih hcs hns)
  rw [read_of_said hsaid, Reading.ofSaid, Change.changes_said hstopped, Change.countsAhead_said, List.map_nil]

/-- The text of some changes begins with the word of the first one's state. -/
private theorem written_eq_or (cs : List Change) : cs = [] ∧ written cs = "" ∨
    cs ≠ [] ∧ Text.allBlank (written cs) = false ∧ Reference.isReference (written cs) = false := by
  cases cs with
  | nil => exact Or.inl ⟨rfl, rfl⟩
  | cons c cs =>
    obtain ⟨letter, rest, htext, hblank, hletter⟩ : ∃ letter rest, (written (c :: cs)).toList = letter :: rest ∧
        Text.isBlank letter = false ∧ letter ≠ '@' := by
      rw [toList_written, List.flatMap_cons, Change.rawClauses]
      cases c.state with
      | running => exact ⟨'r', _, rfl, by decide, by decide⟩
      | stopped => exact ⟨'s', _, rfl, by decide, by decide⟩
    refine Or.inr ⟨List.cons_ne_nil c cs, ?_, ?_⟩
    · rw [Text.allBlank, htext, List.all_cons, hblank, Bool.false_and]
    · rw [Reference.isReference, htext, Text.trimStart_cons_of_not_blank hblank, List.head?_cons]
      simpa using hletter

end Schedule

/-! ### Plans with the text and plans with the list -/

namespace Change

/-- The recurrence of a change makes no difference to how it is written. -/
private theorem written_of_readAs {cs read : List Change} (h : List.Forall₂ ReadAs cs read) :
    Schedule.written read = Schedule.written cs := by
  induction h with
  | nil => rfl
  | cons hcd _ ih =>
    rw [Schedule.written, Schedule.written, ih, written, written, text, text, hcd.state, hcd.count, hcd.cron]

theorem exists_of_mem_readAs {cs read : List Change} (h : List.Forall₂ ReadAs cs read) {d : Change} (hd : d ∈ read) :
    ∃ c ∈ cs, ReadAs c d := by
  induction h with
  | nil => cases hd
  | cons hcd _ ih =>
    rcases List.mem_cons.mp hd with rfl | hd
    · exact ⟨_, List.mem_cons_self, hcd⟩
    · obtain ⟨c, hc, hcd⟩ := ih hd
      exact ⟨c, List.mem_cons_of_mem _ hc, hcd⟩

/-- The two differ in their recurrences only. -/
theorem ReadAs.with_recurrence {c d : Change} (h : ReadAs c d) : { c with recurrence := d.recurrence } = d := by
  cases d
  simp only [Change.mk.injEq]
  exact ⟨h.state.symm, h.count.symm, h.cron.symm, trivial⟩

/-- Changes that can be read are read before what stands behind them. -/
theorem readAll_append {cs read : List Change} (h : List.Forall₂ ReadAs cs read) (rest : List Change) :
    readAll (cs ++ rest) = (read ++ (readAll rest).1, (readAll rest).2) := by
  induction h with
  | nil => rfl
  | @cons c d cs read hcd _ ih =>
    rw [List.cons_append, readAll, hcd.read]
    dsimp only
    rw [ih, hcd.with_recurrence, List.cons_append]

private theorem readAll_of_readAs {cs read : List Change} (h : List.Forall₂ ReadAs cs read) :
    readAll cs = (read, none) := by
  have hall := readAll_append h []
  rwa [List.append_nil, readAll, List.append_nil] at hall

private theorem exists_readAs {cs : List Change} (h : ∀ c ∈ cs, ∃ r, Recurrence.read c.cron = .ok r) :
    ∃ read, List.Forall₂ ReadAs cs read := by
  refine exists_forall₂_iff.mpr fun c hc => ?_
  obtain ⟨r, hr⟩ := h c hc
  exact ⟨{ c with recurrence := r }, rfl, rfl, rfl, hr⟩

private theorem sortByTime_map_trimmed (cs : List Change) :
    sortByTime (cs.map trimmed) = (sortByTime cs).map trimmed := by
  rw [sortByTime_eq_mergeSort, sortByTime_eq_mergeSort]
  have hkept : ∀ c ∈ cs, ∀ d ∈ cs, noLater c d = noLater (trimmed c) (trimmed d) := fun _ _ _ _ => rfl
  exact (List.map_mergeSort hkept).symm

theorem sortByTime_sortByTime (cs : List Change) : sortByTime (sortByTime cs) = sortByTime cs := by
  rw [sortByTime_eq_mergeSort (sortByTime cs)]
  exact List.mergeSort_of_pairwise ((pairwise_sortByTime cs).imp fun h => decide_eq_true h)

end Change

namespace Plan

variable {p q : Plan} {cs read : List Change}

theorem isUnresolved_of_plain (h : Reference.isReference p.scheduleText = false) : p.isUnresolved = false := by
  cases hresolved : p.resolved with
  | none =>
    have htext : p.scheduleText = p.configured := by rw [scheduleText, hresolved, Option.getD_none]
    rw [isUnresolved, ← htext, h, Bool.and_false]
  | some text => rw [isUnresolved, hresolved, Option.isNone_some, Bool.false_and]

theorem isUnresolved_of_blank (h : Text.allBlank p.scheduleText = true) : p.isUnresolved = false := by
  refine isUnresolved_of_plain ?_
  have htrim : Text.trimStart p.scheduleText.toList = [] :=
    List.dropWhile_eq_nil_iff.mpr (List.all_eq_true.mp h)
  rw [Reference.isReference, htrim]
  rfl

/-- A plan that lists changes has them with the recurrences that their texts read as, by time of day. -/
theorem validate_of_listed (hblank : Text.allBlank q.scheduleText = true) (hchanges : q.changes = cs)
    (hread : List.Forall₂ Change.ReadAs cs read) :
    q.validate = (.ok [], { q with changes := Change.sortByTime read }) := by
  rw [validate_of_blank (isUnresolved_of_blank hblank) hblank, hchanges, Change.readAll_of_readAs hread]

/-- A plan with the text of the changes has the same ones, but for the blanks around their recurrences. -/
theorem validate_of_written (htext : p.scheduleText = Schedule.written cs) (hnone : cs = [] → p.changes = [])
    (hread : List.Forall₂ Change.ReadAs cs read)
    (hwritten : Schedule.read (Schedule.written cs) = .ok ⟨read.map Change.trimmed, []⟩) :
    p.validate = (.ok [], { p with changes := (Change.sortByTime read).map Change.trimmed }) := by
  rcases Schedule.written_eq_or cs with ⟨hempty, hblank⟩ | ⟨-, hblank, hplain⟩
  · subst hempty
    cases hread
    have hblank : Text.allBlank p.scheduleText = true := by
      rw [htext, hblank]
      rfl
    exact validate_of_listed hblank (hnone rfl) .nil
  · rw [← htext] at hblank hplain hwritten
    unfold validate readChanges
    rw [isUnresolved_of_plain hplain, hblank, hwritten, ← Change.sortByTime_map_trimmed]
    rfl

/-- What a successful validation leaves are changes by time of day that were read from their own texts. -/
theorem changes_of_validate {warnings : List Warning} (h : p.validate.1 = .ok warnings) :
    Change.sortByTime p.validated.changes = p.validated.changes ∧
      ∀ c ∈ p.validated.changes, Recurrence.read c.cron = .ok c.recurrence := by
  unfold validated
  unfold validate at h ⊢
  split at h
  · rename_i changes warnings' hread
    refine ⟨Change.sortByTime_sortByTime changes, fun c hc => read_of_readChanges hread c ?_⟩
    exact (Change.sortByTime_perm changes).mem_iff.mp hc
  · cases h

/-- Listed without their recurrences, they are validated to themselves. -/
theorem validate_again {warnings : List Warning} (h : p.validate.1 = .ok warnings)
    (hblank : Text.allBlank q.scheduleText = true) (hchanges : q.changes = p.validated.changes.map Change.unread) :
    q.validate = (.ok [], { q with changes := p.validated.changes }) := by
  obtain ⟨hsorted, hread⟩ := changes_of_validate h
  have hagain : List.Forall₂ Change.ReadAs (p.validated.changes.map Change.unread) p.validated.changes :=
    List.forall₂_map_left_iff.mpr (List.forall₂_same.mpr fun c hc => ⟨rfl, rfl, rfl, hread c hc⟩)
  rw [validate_of_listed hblank hchanges hagain, hsorted]

end Plan

/-- Changes as a text and changes as a list are the same. The text that is written from changes is read as these
changes, with the blanks around their recurrences gone; a plan with the text and a plan that lists the changes are
validated without warnings, and to the same changes but for these blanks. What a validation leaves can be listed,
without the recurrences that were read, and is then validated to the same changes again. -/
theorem Schedule.written_listed {cs : List Change} (hread : ∀ c ∈ cs, ∃ r, Recurrence.read c.cron = .ok r)
    (hstopped : ∀ c ∈ cs, c.state = .stopped → c.count = 0) (hcount : ∀ c ∈ cs, c.count ≤ Text.maxCount) :
    (∃ changes, List.Forall₂ Change.ReadAs cs changes ∧
      read (written cs) = .ok ⟨changes.map Change.trimmed, []⟩ ∧
      ∀ p q : Plan, p.scheduleText = written cs → (cs = [] → p.changes = []) →
        Text.allBlank q.scheduleText = true → q.changes = cs →
          p.validate.1 = .ok [] ∧ q.validate.1 = .ok [] ∧
            q.validated.changes = Change.sortByTime changes ∧
            p.validated.changes = q.validated.changes.map Change.trimmed) ∧
    ∀ (p q : Plan) warnings, p.validate.1 = .ok warnings → Text.allBlank q.scheduleText = true →
      q.changes = p.validated.changes.map Change.unread →
        q.validate.1 = .ok [] ∧ q.validated.changes = p.validated.changes := by
  obtain ⟨changes, hreadAs⟩ := Change.exists_readAs hread
  have hwritten : read (written cs) = .ok ⟨changes.map Change.trimmed, []⟩ := by
    rw [← Change.written_of_readAs hreadAs]
    refine read_written (fun d hd => ?_) (fun d hd hstate => ?_) fun d hd => ?_
    all_goals obtain ⟨c, hc, hcd⟩ := Change.exists_of_mem_readAs hreadAs hd
    · rw [hcd.cron, hcd.read]
    · rw [hcd.count, hstopped c hc (hcd.state ▸ hstate)]
    · rw [hcd.count]
      exact hcount c hc
  refine ⟨⟨changes, hreadAs, hwritten, fun p q htext hnone hblank hchanges => ?_⟩,
    fun p q warnings h hblank hchanges => ?_⟩
  · have hp := Plan.validate_of_written htext hnone hreadAs hwritten
    have hq := Plan.validate_of_listed hblank hchanges hreadAs
    rw [Plan.validated, Plan.validated, hp, hq]
    exact ⟨rfl, rfl, rfl, rfl⟩
  · have hq := Plan.validate_again h hblank hchanges
    have hqvalidated : q.validated.changes = p.validated.changes := congrArg (·.2.changes) hq
    rw [hq]
    exact ⟨rfl, hqvalidated⟩

/-- Blanks and signs in the recurrences, a count that is not given, and a time of day before the first one's: both plans
come out in the order of the day, and listing what came out changes nothing. -/
theorem Schedule.written_listed_signs :
    let cs : List Change := [{ state := .running, count := 2, cron := "  +0 8\t1-5 " },
      { state := .stopped, cron := "0 6 0/6" }, { state := .running, cron := "30 5 +3" }]
    let p : Plan := { service := ⟨"shop/api"⟩, configured := written cs }
    let q : Plan := { service := ⟨"shop/api"⟩, configured := " ", changes := cs }
    written cs = "running=  +0 8\t1-5 .count=2.stopped=0 6 0/6.running=30 5 +3.count=0." ∧
      p.validate.1 = .ok [] ∧ q.validate.1 = .ok [] ∧
      q.validated.changes.map Change.text = ["running=30 5 +3.", "stopped=0 6 0/6.", "running=  +0 8\t1-5 ."] ∧
      p.validated.changes = q.validated.changes.map Change.trimmed ∧
      (Plan.validated { q with changes := q.validated.changes.map Change.unread }).changes = q.validated.changes := by
  intro cs p q
  have hread : ∀ c ∈ cs, ∃ r, Recurrence.read c.cron = .ok r := by
    refine List.forall_mem_cons.mpr ⟨⟨⟨0, 8, [1, 2, 3, 4, 5]⟩, by decide +kernel⟩, ?_⟩
    refine List.forall_mem_cons.mpr ⟨⟨⟨0, 6, [0, 6]⟩, by decide +kernel⟩, ?_⟩
    exact List.forall_mem_singleton.mpr ⟨⟨30, 5, [3]⟩, by decide +kernel⟩
  obtain ⟨⟨changes, -, -, hplans⟩, hagain⟩ := written_listed hread (by decide) (by decide)
  have hblank : Text.allBlank q.scheduleText = true := by decide
  obtain ⟨hp, hq, -, hsame⟩ := hplans p q rfl nofun hblank rfl
  have hlisted := hagain q { q with changes := q.validated.changes.map Change.unread } [] hq hblank rfl
  exact ⟨by decide +kernel, hp, hq, by decide +kernel, hsame, hlisted.2⟩

end ServiceHours
