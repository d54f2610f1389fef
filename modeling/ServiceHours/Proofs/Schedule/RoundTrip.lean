import ServiceHours.Proofs.Schedule.Validation

/-!
# Recurrences that are written and read again

A recurrence is written with its days between slashes, whatever form they were read from.

* The text has the minute, the hour and the days for its words, the last of them only if there are days
  (`Recurrence.spaced_text`, `Recurrence.spaced_text_of_no_days`).
* A number in decimal digits stands for itself alone (`Recurrence.field_toDigits_iff`), and so do the days as they are
  written (`Recurrence.days_daysText_iff`). So the text stands for the recurrence that it was written from or for none
  at all (`Recurrence.read_text_eq_ok_iff`).
-/

namespace ServiceHours.Recurrence

variable {r s : Recurrence} {days found : List Nat}

/-- The days as they are written. -/
def daysText (days : List Nat) : List Char :=
  ['/'].intercalate (days.map (Nat.toDigits 10))

private theorem toList_text (r : Recurrence) :
    r.text.toList = Nat.toDigits 10 r.minute ++ ' ' :: (Nat.toDigits 10 r.hour ++ ' ' :: daysText r.days) := by
  simp [text, daysText]

/-! ### One number -/

/-- A number in decimal digits is the value of a field that takes it. -/
theorem field_toDigits_iff {field : TimeField} {n m : Nat} :
    Field field (Nat.toDigits 10 n) m ↔ m = n ∧ n ≤ lastOf field := by
  constructor
  · rintro ⟨hnumeral, hle⟩
    obtain rfl := hnumeral.unique (Text.numeral_toDigits n)
    exact ⟨rfl, hle⟩
  · rintro ⟨rfl, hle⟩
    exact ⟨Text.numeral_toDigits m, hle⟩

/-! ### The days -/

private theorem pieces_daysText (hne : days ≠ []) : Text.Pieces '/' (daysText days) (days.map (Nat.toDigits 10)) := by
  refine ⟨rfl, fun hnil => hne (List.map_eq_nil_iff.mp hnil), fun piece hpiece hslash => ?_⟩
  obtain ⟨d, -, rfl⟩ := List.mem_map.mp hpiece
  exact absurd (Text.isDigit_of_mem_toDigits hslash) (by decide)

private theorem of_mem_daysText (hne : days ≠ []) {c : Char} (hc : c ∈ daysText days) : c = '/' ∨ c.isDigit = true := by
  by_cases hslash : c = '/'
  · exact Or.inl hslash
  · obtain ⟨piece, hpiece, hin⟩ := Text.exists_mem_split (p := (· == '/')) hc (beq_eq_false_iff_ne.mpr hslash)
    rw [Text.split_eq_iff.mpr (pieces_daysText hne)] at hpiece
    obtain ⟨d, -, rfl⟩ := List.mem_map.mp hpiece
    exact Or.inr (Text.isDigit_of_mem_toDigits hin)

/-- Days that are no range are the pieces between the slashes, of which there may be none. -/
private theorem Days.exists_pieces {text : List Char} (h : Days text days) (hdash : '-' ∉ text) :
    ∃ values, Text.Pieces '/' text values ∧ List.Forall₂ (Field .day) values days := by
  cases h with
  | single h => exact ⟨[text], Text.split_eq_iff.mp (Text.split_of_not_mem h.slash_not_mem), .cons h .nil⟩
  | range => exact absurd (List.mem_append_right _ List.mem_cons_self) hdash
  | listed hpieces _ hvalues _ => exact ⟨_, hpieces, hvalues⟩

/-- Days as they are written stand for themselves, if they are days of the week and none of them comes twice. -/
theorem days_daysText_iff (hne : days ≠ []) :
    Days (daysText days) found ↔ found = days ∧ days.Nodup ∧ ∀ d ∈ days, d ≤ 6 := by
  have hpieces := pieces_daysText hne
  constructor
  · intro h
    have hdash : '-' ∉ daysText days := fun hmem => absurd (of_mem_daysText hne hmem) (by decide)
    obtain ⟨values, hvalues, hfound⟩ := h.exists_pieces hdash
    obtain rfl : values = days.map (Nat.toDigits 10) :=
      (Text.split_eq_iff.mpr hvalues).symm.trans (Text.split_eq_iff.mpr hpieces)
    rw [List.forall₂_map_left_iff] at hfound
    have hsame : List.Forall₂ Eq days found := hfound.imp fun _ _ hd => (field_toDigits_iff.mp hd).1.symm
    obtain rfl : days = found := List.forall₂_eq_eq_eq ▸ hsame
    exact ⟨rfl, h.real.2⟩
  · rintro ⟨rfl, hnew, hle⟩
    have hvalues : List.Forall₂ (Field .day) (found.map (Nat.toDigits 10)) found :=
      List.forall₂_map_left_iff.mpr (List.forall₂_same.mpr fun d hd => field_toDigits_iff.mpr ⟨rfl, hle d hd⟩)
    match found with
    | [d] =>
      have hsingle : daysText [d] = Nat.toDigits 10 d := by simp [daysText]
      rw [hsingle]
      exact .single (field_toDigits_iff.mpr ⟨rfl, hle d (List.mem_singleton.mpr rfl)⟩)
    | d :: e :: rest => exact .listed hpieces (by simp) hvalues hnew

/-! ### The whole text -/

/-- A number with a space behind it is a word. -/
private theorem spaced_toDigits (n : Nat) {cs : List Char} {words : List (List Char)} (h : Text.Spaced cs words) :
    Text.Spaced (Nat.toDigits 10 n ++ ' ' :: cs) (Nat.toDigits 10 n :: words) := by
  refine .word Nat.toDigits_ne_nil (fun c hc => Text.isBlank_of_isDigit (Text.isDigit_of_mem_toDigits hc)) ?_
    (.blank (by decide) h)
  rintro _ ⟨⟩
  decide

theorem spaced_text (hne : r.days ≠ []) : Text.Spaced r.text.toList
    [Nat.toDigits 10 r.minute, Nat.toDigits 10 r.hour, daysText r.days] := by
  have hword : ∀ c ∈ daysText r.days, Text.isBlank c = false := by
    intro c hc
    rcases of_mem_daysText hne hc with rfl | hdigit
    · decide
    · exact Text.isBlank_of_isDigit hdigit
  have hnil : daysText r.days ≠ [] := by
    obtain ⟨d, rest, hdays⟩ := List.exists_cons_of_ne_nil hne
    cases rest <;> simp [daysText, hdays, Nat.toDigits_ne_nil]
  have hdays : Text.Spaced (daysText r.days ++ []) [daysText r.days] := .word hnil hword nofun .nil
  rw [List.append_nil] at hdays
  rw [toList_text]
  exact spaced_toDigits _ (spaced_toDigits _ hdays)

/-- Without days the text lacks its last word. -/
theorem spaced_text_of_no_days (hnil : r.days = []) :
    Text.Spaced r.text.toList [Nat.toDigits 10 r.minute, Nat.toDigits 10 r.hour] := by
  rw [toList_text, hnil]
  exact spaced_toDigits _ (spaced_toDigits _ .nil)

private theorem says_text_iff : Says r.text s ↔ s = r ∧ r.WellFormed := by
  by_cases hnil : r.days = []
  · refine iff_of_false ?_ fun h => h.2.days_ne_nil hnil
    rintro ⟨hwords, -, -, -⟩
    have hcount := congrArg List.length (hwords.words_eq.symm.trans (spaced_text_of_no_days hnil).words_eq)
    cases hcount
  · constructor
    · rintro ⟨hwords, hminute, hhour, hdays⟩
      have hsame := hwords.words_eq.symm.trans (spaced_text hnil).words_eq
      simp only [List.cons.injEq, and_true] at hsame
      obtain ⟨rfl, rfl, rfl⟩ := hsame
      obtain ⟨hm, hmle⟩ := field_toDigits_iff.mp hminute
      obtain ⟨hh, hhle⟩ := field_toDigits_iff.mp hhour
      obtain ⟨hd, hnew, hdle⟩ := (days_daysText_iff hnil).mp hdays
      refine ⟨?_, hmle, hhle, hnil, hnew, hdle⟩
      obtain ⟨minute, hour, days⟩ := s
      exact Recurrence.mk.injEq .. ▸ ⟨hm, hh, hd⟩
    · rintro ⟨rfl, hr⟩
      exact .intro (spaced_text hnil) (field_toDigits_iff.mpr ⟨rfl, hr.minute_le⟩)
        (field_toDigits_iff.mpr ⟨rfl, hr.hour_le⟩) ((days_daysText_iff hnil).mpr ⟨rfl, hr.nodup, hr.day_le⟩)

/-- The text of a recurrence is read as this recurrence and as no other, if it is well formed. -/
theorem read_text_eq_ok_iff : read r.text = .ok s ↔ s = r ∧ r.WellFormed :=
  read_eq_ok_iff.trans says_text_iff

/-- The text of a recurrence is read as this recurrence exactly if it is well formed, and else it cannot be read. What
was read from a text, in whatever form, can be written and read again, with its days in their order. -/
theorem read_text (r : Recurrence) : (read r.text = .ok r ↔ r.WellFormed) ∧
    (¬r.WellFormed → ∃ e, read r.text = .error e) ∧ ∀ expr, read expr = .ok r → read r.text = .ok r := by
  have hself : read r.text = .ok r ↔ r.WellFormed := by rw [read_text_eq_ok_iff, and_iff_right rfl]
  refine ⟨hself, fun hbad => ?_, fun expr h => hself.mpr (wellFormed_of_read h)⟩
  cases h : read r.text with
  | error e => exact ⟨e, rfl⟩
  | ok s => exact absurd (read_text_eq_ok_iff.mp h).2 hbad

/-- Days that were listed with a sign and a leading zero keep their order; a day that is listed twice is not read. -/
theorem read_text_unordered :
    let r : Recurrence := ⟨5, 0, [6, 0, 3]⟩
    let twice : Recurrence := ⟨5, 0, [6, 0, 6]⟩
    r.text = "5 0 6/0/3" ∧ r.WellFormed ∧ read " 05 +0  6/+0/03" = .ok r ∧ read r.text = .ok r ∧
      ¬twice.WellFormed ∧ ∃ e, read twice.text = .error e := by
  intro r twice
  have hread : read " 05 +0  6/+0/03" = .ok r := by decide +kernel
  have htwice : ¬twice.WellFormed := fun h => absurd h.nodup (by decide)
  obtain ⟨hself, -, hagain⟩ := read_text r
  have hwritten := hagain _ hread
  exact ⟨by decide +kernel, hself.mp hwritten, hread, hwritten, htwice, (read_text twice).2.1 htwice⟩

end ServiceHours.Recurrence
