/-!
# First and last occurrences

Splitting a text in two at one occurrence of a separator.

* `splitFirst` cuts at the first occurrence of a character, which stands between the parts (`splitFirst_append`);
* `splitLast` cuts at the last occurrence of a text, and the parts join to the whole again (`splitLast_append`);
* cut at a single character, the last part does not hold it (`not_mem_after_of_splitLast`).
-/

namespace ServiceHours.Text

def expect? (c : Char) : List Char → Option (List Char)
  | [] => none
  | d :: cs => if d = c then some cs else none

/-- The parts before and after the first `sep`. -/
def splitFirst (sep : Char) : List Char → Option (List Char × List Char)
  | [] => none
  | c :: cs =>
    if c = sep then some ([], cs)
    else (splitFirst sep cs).map fun parts => (c :: parts.1, parts.2)

/-- The parts before and after the last occurrence of `pat`, which is not empty. -/
def splitLast (pat : List Char) : List Char → Option (List Char × List Char)
  | [] => none
  | c :: cs =>
    match splitLast pat cs with
    | some parts => some (c :: parts.1, parts.2)
    | none => if pat.isPrefixOf (c :: cs) then some ([], (c :: cs).drop pat.length) else none

theorem splitFirst_append {sep : Char} {cs before after : List Char} (h : splitFirst sep cs = some (before, after)) :
    cs = before ++ sep :: after := by
  induction cs generalizing before with
  | nil => cases h
  | cons c cs ih =>
    unfold splitFirst at h
    split at h
    · rename_i hc
      cases h
      rw [hc, List.nil_append]
    · obtain ⟨parts, hparts, heq⟩ := Option.map_eq_some_iff.mp h
      cases heq
      rw [ih hparts, List.cons_append]

theorem splitLast_append {pat cs before after : List Char} (h : splitLast pat cs = some (before, after)) :
    cs = before ++ pat ++ after := by
  induction cs generalizing before with
  | nil => simp [splitLast] at h
  | cons c cs ih =>
    unfold splitLast at h
    split at h
    · rename_i parts hp
      simp only [Option.some.injEq, Prod.mk.injEq] at h
      obtain ⟨rfl, rfl⟩ := h
      simpa using ih hp
    · split at h
      · rename_i hpre
        simp only [Option.some.injEq, Prod.mk.injEq] at h
        obtain ⟨rfl, rfl⟩ := h
        obtain ⟨t, ht⟩ := List.isPrefixOf_iff_prefix.mp hpre
        rw [← ht]
        simp
      · simp at h

theorem not_mem_of_splitLast_eq_none {c : Char} {cs : List Char} (h : splitLast [c] cs = none) : c ∉ cs := by
  induction cs with
  | nil => simp
  | cons d cs ih =>
    unfold splitLast at h
    split at h
    · simp at h
    · rename_i hnone
      split at h
      · simp at h
      · rename_i hpre
        have hne : c ≠ d := by
          rintro rfl
          simp [List.isPrefixOf] at hpre
        simp [hne, ih hnone]

/-- After the last occurrence of a character there is no other. -/
theorem not_mem_after_of_splitLast {c : Char} {cs before after : List Char}
    (h : splitLast [c] cs = some (before, after)) : c ∉ after := by
  induction cs generalizing before with
  | nil => simp [splitLast] at h
  | cons d cs ih =>
    unfold splitLast at h
    split at h
    · rename_i parts hp
      simp only [Option.some.injEq, Prod.mk.injEq] at h
      obtain ⟨-, rfl⟩ := h
      exact ih hp
    · rename_i hnone
      split at h
      · simp only [Option.some.injEq, Prod.mk.injEq] at h
        obtain ⟨-, rfl⟩ := h
        simpa using not_mem_of_splitLast_eq_none hnone
      · simp at h

end ServiceHours.Text
