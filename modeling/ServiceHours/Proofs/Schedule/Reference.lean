import ServiceHours.Plan
import ServiceHours.Proofs.Text.Split

/-!
# References and where they lead

The tests for a reference look at a text in different ways and agree on all texts.

* A trimmed text begins as the text does behind its first blanks (`Text.head?_trim`), so a text has a target exactly if
  it is a reference (`Reference.isSome_target?`).
* Following a reference takes over the text that it leads to (`Plan.withResolution_of_reference`) and leaves nothing to
  follow (`Plan.isUnresolved_withResolution`).
-/

namespace ServiceHours

/-- Trimming the end of a text keeps its first character that is not blank. -/
theorem Text.head?_trim (cs : List Char) : (Text.trim cs).head? = (Text.trimStart cs).head? := by
  rw [Text.trim]
  induction cs with
  | nil => rfl
  | cons c cs ih =>
    by_cases hc : Text.isBlank c = true
    · rw [Text.trimStart_cons_of_blank hc, ih]
    · rw [Bool.not_eq_true] at hc
      rw [Text.trimStart_cons_of_not_blank hc, Text.trimEnd_cons_of_not_blank hc]
      rfl

/-- A text points to a name exactly if it is a reference. -/
theorem Reference.isSome_target? (value : String) : (target? value).isSome = isReference value := by
  unfold isReference
  rw [← Text.head?_trim]
  unfold target?
  split
  · rename_i name hname
    simp [hname]
  · rename_i hname
    rcases htrim : Text.trim value.toList with - | ⟨c, cs⟩
    · rfl
    · have hne : c ≠ '@' := by
        rintro rfl
        exact hname cs htrim
      simp [hne]

theorem Reference.isReference_of_target? {value name : String} (h : target? value = some name) :
    isReference value = true := by
  rw [← isSome_target?, h, Option.isSome_some]

/-- Following a text finds out whether it is a reference. -/
theorem Resolution.wasReference_ofSchedule (value : String) (lookup : String → Option String) :
    (ofSchedule value lookup).wasReference = Reference.isReference value := by
  rw [← Reference.isSome_target?]
  unfold ofSchedule
  split
  · rename_i hnone
    rw [hnone]
    rfl
  · rename_i target htarget
    rw [htarget]
    split
    · rfl
    · split <;> rfl

/-- Following the reference of a plan takes over the text that it leads to and keeps the rest of the plan. -/
theorem Plan.withResolution_of_reference {p : Plan} (h : Reference.isReference p.configured = true)
    (lookup : String → Option String) :
    p.withResolution (Resolution.ofSchedule p.configured lookup) =
      { p with resolved := some (Resolution.ofSchedule p.configured lookup).schedule } := by
  rw [withResolution, Resolution.wasReference_ofSchedule, if_pos h]

/-- Once a plan's reference was followed there is none left, wherever it led. -/
theorem Plan.isUnresolved_withResolution (p : Plan) (lookup : String → Option String) :
    (p.withResolution (Resolution.ofSchedule p.configured lookup)).isUnresolved = false := by
  unfold withResolution
  split
  · rfl
  · rename_i hplain
    rw [Resolution.wasReference_ofSchedule, Bool.not_eq_true] at hplain
    unfold isUnresolved
    rw [hplain, Bool.and_false]

end ServiceHours
