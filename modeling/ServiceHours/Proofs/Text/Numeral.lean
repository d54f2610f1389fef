import ServiceHours.Text.Numeral

/-!
# Which texts are numbers

`Numeral` describes the texts that write a number; they hold digits and at most a plus sign (`Numeral.of_mem`). Reading
finds the number exactly if it is not above the bound (`natural?_eq_some_iff`, `natural?_eq_none_iff`). So a text writes
one number at most (`Numeral.unique`), and decimal digits write theirs (`numeral_toDigits`). Where the number of digits
is fixed, what comes behind them is left over (`fixedDigits?_eq_some_iff`).
-/

namespace ServiceHours.Text

/-- The text is the number in decimal digits, at least one, with a plus sign in front or not. -/
def Numeral (cs : List Char) (n : Nat) : Prop :=
  ∃ digits, (cs = digits ∨ cs = '+' :: digits) ∧ digits ≠ [] ∧ (∀ d ∈ digits, d.isDigit = true) ∧
    Nat.ofDigitChars 10 digits 0 = n

variable {bound m n : Nat} {cs : List Char}

theorem Numeral.of_mem (h : Numeral cs n) : ∀ c ∈ cs, c = '+' ∨ c.isDigit = true := by
  obtain ⟨digits, rfl | rfl, -, hdigits, -⟩ := h
  · exact fun c hc => Or.inr (hdigits c hc)
  · exact List.forall_mem_cons.mpr ⟨Or.inl rfl, fun c hc => Or.inr (hdigits c hc)⟩

/-- No number holds a character that is neither a digit nor a plus sign. -/
theorem Numeral.not_mem (h : Numeral cs n) {c : Char} (hplus : c ≠ '+') (hdigit : c.isDigit = false) : c ∉ cs := by
  intro hc
  rcases h.of_mem c hc with rfl | hc
  · exact hplus rfl
  · rw [hdigit] at hc
    cases hc

private theorem digits?_eq_some_iff : digits? bound cs = some n ↔
    (cs ≠ [] ∧ (∀ d ∈ cs, d.isDigit = true) ∧ Nat.ofDigitChars 10 cs 0 = n) ∧ n ≤ bound := by
  unfold digits?
  split
  · rename_i hbad
    refine iff_of_false nofun fun ⟨⟨hne, hall, _⟩, _⟩ => ?_
    rw [Bool.or_eq_true, List.isEmpty_iff, Bool.not_eq_true', ← Bool.not_eq_true, List.all_eq_true] at hbad
    exact hbad.elim hne fun hnot => hnot hall
  · rename_i hgood
    rw [Bool.or_eq_true, not_or, List.isEmpty_iff, Bool.not_eq_true', Bool.not_eq_false, List.all_eq_true] at hgood
    split
    · rename_i hle
      rw [Option.some.injEq]
      exact ⟨fun h => ⟨⟨hgood.1, hgood.2, h⟩, h ▸ hle⟩, fun h => h.1.2.2⟩
    · rename_i hlarge
      exact iff_of_false nofun fun ⟨⟨_, _, h⟩, hle⟩ => hlarge (h ▸ hle)

/-- Exactly the numbers up to the bound are read. -/
theorem natural?_eq_some_iff : natural? bound cs = some n ↔ Numeral cs n ∧ n ≤ bound := by
  unfold natural?
  split
  · rename_i cs
    rw [digits?_eq_some_iff]
    refine and_congr_left fun _ => ⟨fun h => ⟨cs, Or.inr rfl, h⟩, ?_⟩
    rintro ⟨digits, hplus | hplus, hne, hall, hvalue⟩
    · -- The sign is no digit.
      exact absurd (hall '+' (hplus ▸ List.mem_cons_self)) (by decide)
    · obtain ⟨-, rfl⟩ := List.cons_eq_cons.mp hplus
      exact ⟨hne, hall, hvalue⟩
  · rename_i hplus
    rw [digits?_eq_some_iff]
    refine and_congr_left fun _ => ⟨fun h => ⟨cs, Or.inl rfl, h⟩, ?_⟩
    rintro ⟨digits, rfl | rfl, hnumber⟩
    · exact hnumber
    · exact absurd rfl (hplus digits)

/-- Nothing is read from a text that is no number or one above the bound. -/
theorem natural?_eq_none_iff : natural? bound cs = none ↔ ∀ n, Numeral cs n → bound < n := by
  rw [Option.eq_none_iff_forall_ne_some]
  refine forall_congr' fun n => ?_
  rw [ne_eq, natural?_eq_some_iff, not_and, Nat.not_le]

/-- A text writes one number at most. -/
theorem Numeral.unique (hm : Numeral cs m) (hn : Numeral cs n) : m = n := by
  have hread := natural?_eq_some_iff.mpr ⟨hm, Nat.le_max_left m n⟩
  have hread' := natural?_eq_some_iff.mpr ⟨hn, Nat.le_max_right m n⟩
  exact Option.some.inj (hread.symm.trans hread')

theorem numeral_toDigits (n : Nat) : Numeral (Nat.toDigits 10 n) n :=
  (natural?_eq_some_iff.mp (natural?_toDigits (Nat.le_refl n))).1

theorem isDigit_of_mem_toDigits {c : Char} (hc : c ∈ Nat.toDigits 10 n) : c.isDigit = true :=
  Nat.isDigit_of_mem_toDigits (by decide) (by decide) hc

theorem fixedDigits?_eq_some_iff {count : Nat} {rest : List Char} : fixedDigits? count cs = some (n, rest) ↔
    ∃ digits, cs = digits ++ rest ∧ digits.length = count ∧ (∀ d ∈ digits, d.isDigit = true) ∧
      Nat.ofDigitChars 10 digits 0 = n := by
  rw [fixedDigits?]
  split
  · rename_i hgood
    rw [Bool.and_eq_true, decide_eq_true_eq, List.all_eq_true] at hgood
    rw [Option.some.injEq, Prod.mk.injEq]
    constructor
    · rintro ⟨hvalue, rfl⟩
      exact ⟨cs.take count, (List.take_append_drop count cs).symm, hgood.1, hgood.2, hvalue⟩
    · rintro ⟨digits, rfl, rfl, -, hvalue⟩
      rw [List.take_left, List.drop_left]
      exact ⟨hvalue, rfl⟩
  · rename_i hbad
    refine iff_of_false nofun ?_
    rintro ⟨digits, rfl, rfl, hdigits, -⟩
    rw [List.take_left, Bool.and_eq_true, decide_eq_true_eq, List.all_eq_true] at hbad
    exact hbad ⟨rfl, hdigits⟩

end ServiceHours.Text
