import ServiceHours.Control.Survey
import ServiceHours.Proofs.Schedule.Grammar

/-!
# Recurrences that were read

What is known of a recurrence, a schedule and a plan once they have been read.

* A recurrence that was read is a real time of day on at least one day of the week (`Recurrence.wellFormed_of_read`).
* The changes of a schedule carry the recurrences that their own texts read as (`Schedule.read_cron`).
* Validation leaves a plan disabled or with changes of this kind (`Plan.Parsed`, `Plan.parsed_validated`).
-/

namespace ServiceHours

/-! ### One recurrence -/

namespace Recurrence

/-- The days of a text are days of the week, at least one and none of them twice. -/
theorem Days.real {text : List Char} {days : List Nat} (h : Days text days) :
    days ≠ [] ∧ days.Nodup ∧ ∀ d ∈ days, d ≤ 6 := by
  cases h with
  | single h => exact ⟨List.cons_ne_nil _ _, List.pairwise_singleton _ _, List.forall_mem_singleton.mpr h.2⟩
  | @range first last a b _ hlast hle =>
    have hsix : b ≤ 6 := hlast.2
    refine ⟨fun hempty => ?_, List.nodup_range', fun d hd => ?_⟩
    · rw [List.range'_eq_nil_iff] at hempty
      omega
    · rw [List.mem_range'_1] at hd
      omega
  | listed hpieces _ hvalues hnew =>
    have hsix : List.Forall₂ (fun d value => d ≤ 6 ∧ Text.Numeral value d) days _ :=
      hvalues.flip.imp fun _ _ h => ⟨h.2, h.1⟩
    refine ⟨?_, hnew, ((List.forall₂_and_left _ _).mp hsix).1⟩
    rintro rfl
    exact hpieces.2.1 (List.forall₂_nil_right_iff.mp hvalues)

/-- Every recurrence that can be read is a real time of day on some days of the week, none of them twice. -/
theorem wellFormed_of_read {expr : String} {r : Recurrence} (h : read expr = .ok r) : r.WellFormed := by
  obtain ⟨-, hminute, hhour, hdays⟩ := read_eq_ok_iff.mp h
  obtain ⟨hne, hnodup, hle⟩ := hdays.real
  exact ⟨hminute.2, hhour.2, hne, hnodup, hle⟩

end Recurrence

/-! ### The changes of a schedule -/

namespace Clause

private theorem read_of_readChange {wanted state : DesiredState} {value : List Char} {cron : String}
    {recurrence : Recurrence} (h : readChange wanted value = .ok (.change state cron recurrence)) :
    Recurrence.read cron = .ok recurrence := by
  obtain ⟨r, hr, h⟩ := ok_of_bind_eq_ok h
  simp only [pure, Except.pure, Except.ok.injEq, Clause.change.injEq] at h
  obtain ⟨-, rfl, rfl⟩ := h
  exact hr

private theorem read_cron {text : List Char} {state : DesiredState} {cron : String} {recurrence : Recurrence}
    (h : read text = .ok (.change state cron recurrence)) : Recurrence.read cron = .ok recurrence := by
  unfold read at h
  split at h
  · dsimp only at h
    split at h
    · exact read_of_readChange h
    · split at h
      · exact read_of_readChange h
      · split at h
        · split at h <;> simp at h
        · simp at h
  · simp at h

end Clause

namespace Reading

/-- The changes whose recurrence is the one their own text reads as. -/
private def Faithful (changes : List Change) : Prop :=
  ∀ c ∈ changes, Recurrence.read c.cron = .ok c.recurrence

private theorem faithful_countLast {count : Nat} {changes counted : List Change} (h : Faithful changes)
    (hc : countLast count changes = some counted) : Faithful counted := by
  induction changes generalizing counted with
  | nil => simp [countLast] at hc
  | cons c cs ih =>
    have hcs : Faithful cs := fun x hx => h x (List.mem_cons_of_mem _ hx)
    have hhead : Recurrence.read c.cron = .ok c.recurrence := h c (List.mem_cons_self ..)
    unfold countLast at hc
    split at hc
    · rename_i later hlater
      simp only [Option.some.injEq] at hc
      subst hc
      exact List.forall_mem_cons.mpr ⟨hhead, ih hcs hlater⟩
    · split at hc
      · simp only [Option.some.injEq] at hc
        subst hc
        exact List.forall_mem_cons.mpr ⟨hhead, hcs⟩
      · simp at hc

private theorem faithful_add {r : Reading} {text : List Char} {clause : Clause} (h : Faithful r.changes)
    (hc : Clause.read text = .ok clause) : Faithful (r.add clause).changes := by
  cases clause with
  | count n =>
    unfold add
    dsimp only
    split
    · rename_i counted hcounted
      exact faithful_countLast h hcounted
    · exact h
  | change state cron recurrence =>
    have hread : Recurrence.read cron = .ok recurrence := Clause.read_cron hc
    intro c hmem
    simp only [add, List.mem_append, List.mem_singleton] at hmem
    rcases hmem with hmem | rfl
    · exact h c hmem
    · exact hread

private theorem faithful_extend {r : Reading} (h : Faithful r.changes) (clauses : List (List Char)) :
    Faithful (r.extend clauses).1.changes := by
  induction clauses generalizing r with
  | nil => exact h
  | cons text texts ih =>
    unfold extend
    split
    · rename_i clause hclause
      exact ih (faithful_add h hclause)
    · exact h

end Reading

/-- The changes of a schedule that was read carry what their own texts read as. -/
theorem Schedule.read_cron {text : String} {reading : Reading} (h : Schedule.read text = .ok reading) :
    ∀ c ∈ reading.changes, Recurrence.read c.cron = .ok c.recurrence := by
  have hempty : Reading.Faithful [] := by simp [Reading.Faithful]
  have hscan := Reading.faithful_extend (r := {}) hempty (clauses text.toList)
  unfold Schedule.read scan at h
  split at h
  · rename_i hr
    simp only [Except.ok.injEq] at h
    subst h
    rw [hr] at hscan
    exact hscan
  · simp at h

/-! ### Plans -/

/-- The recurrence of the change was read from some text. -/
def Change.Parsed (c : Change) : Prop :=
  ∃ text, Recurrence.read text = .ok c.recurrence

/-- A plan that counts only with recurrences that were read; a disabled plan does not count. -/
def Plan.Parsed (p : Plan) : Prop :=
  p.disabled = false → ∀ c ∈ p.changes, c.Parsed

theorem Change.Parsed.wellFormed {c : Change} (h : c.Parsed) : c.recurrence.WellFormed := by
  obtain ⟨text, htext⟩ := h
  exact Recurrence.wellFormed_of_read htext

private theorem Change.read_of_readAll {changes read : List Change} (h : Change.readAll changes = (read, none)) :
    ∀ c ∈ read, Recurrence.read c.cron = .ok c.recurrence := by
  induction changes generalizing read with
  | nil =>
    simp only [Change.readAll, Prod.mk.injEq] at h
    simp [← h.1]
  | cons c cs ih =>
    unfold Change.readAll at h
    split at h
    · rename_i recurrence hc
      simp only [Prod.mk.injEq] at h
      rw [← h.1]
      exact List.forall_mem_cons.mpr ⟨hc, ih (Prod.ext rfl h.2)⟩
    · simp at h

namespace Plan

/-- Without a schedule text, validation reads the listed changes and nothing else. -/
theorem validate_of_blank {p : Plan} (hresolved : p.isUnresolved = false)
    (hblank : Text.allBlank p.scheduleText = true) :
    p.validate = match Change.readAll p.changes with
      | (changes, none) => (.ok [], { p with changes := Change.sortByTime changes })
      | (changes, some e) => (.error e, { p with changes, disabled := true, fault := some e.message }) := by
  unfold validate readChanges
  rw [hresolved, hblank]
  simp only [Bool.false_eq_true, if_false, if_true]
  rcases Change.readAll p.changes with ⟨changes, _ | e⟩ <;> rfl

/-- What could be read of a plan without a fault has been read from the texts of its changes. -/
theorem read_of_readChanges {p : Plan} {changes : List Change} {warnings : List Warning}
    (h : p.readChanges = (changes, .ok warnings)) :
    ∀ c ∈ changes, Recurrence.read c.cron = .ok c.recurrence := by
  unfold readChanges at h
  split at h
  · simp at h
  · split at h
    · split at h
      · rename_i hall
        simp only [Prod.mk.injEq] at h
        rw [← h.1]
        exact Change.read_of_readAll hall
      · simp at h
    · split at h
      · rename_i hread
        simp only [Prod.mk.injEq] at h
        rw [← h.1]
        exact Schedule.read_cron hread
      · simp at h

/-- Validation leaves a plan disabled, or with changes whose recurrences were read from their own texts. -/
theorem disabled_or_read_validated (p : Plan) :
    p.validated.disabled = true ∨ ∀ c ∈ p.validated.changes, Recurrence.read c.cron = .ok c.recurrence := by
  unfold validated validate
  split
  · rename_i changes warnings hread
    refine Or.inr fun c hc => read_of_readChanges hread c ?_
    exact (Change.sortByTime_perm changes).mem_iff.mp hc
  · exact Or.inl rfl

/-- Validation leaves a plan disabled, or with its changes by time of day. -/
theorem disabled_or_ordered_validated (p : Plan) : p.validated.disabled = true ∨
    p.validated.changes.Pairwise fun c d => c.minuteOfDay ≤ d.minuteOfDay := by
  unfold validated validate
  split
  · exact Or.inr (Change.pairwise_sortByTime _)
  · exact Or.inl rfl

theorem parsed_validated (p : Plan) : p.validated.Parsed := by
  intro henabled c hc
  rcases disabled_or_read_validated p with h | h
  · rw [h] at henabled
    cases henabled
  · exact ⟨c.cron, h c hc⟩

theorem forall_parsed_validated (plans : List Plan) : ∀ p ∈ plans.map Plan.validated, p.Parsed := by
  intro p hp
  obtain ⟨q, -, rfl⟩ := List.mem_map.mp hp
  exact q.parsed_validated

end Plan

end ServiceHours
