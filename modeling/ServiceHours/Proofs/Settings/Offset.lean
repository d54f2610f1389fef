import Mathlib.Data.List.TakeWhile
import ServiceHours.Calendar.Zone
import ServiceHours.Proofs.Text.Numeral
import ServiceHours.Proofs.Text.Split

/-!
# Which texts are offsets

* `Offset.Says` describes the texts that are read as an offset, and their offset is found (`readOffset?_eq_some_iff`).
* What follows the minutes does not count (`Offset.Span.append`), but nothing can follow a text without hours and
  minutes (`Offset.Word.not_says_append`).
* `Offset.Complete` describes the texts of which nothing is left over. A text that is read does not become one of them
  by what is added to it (`Offset.Says.not_complete_append`).
-/

namespace ServiceHours.Offset

open Text (isBlank)

/-- The two texts for the offset zero. -/
def Word (cs : List Char) : Prop :=
  cs.map Char.toLower = "utc".toList ∨ cs = ['Z']

/-- Two digits that write `n`. -/
def Pair (digits : List Char) (n : Nat) : Prop :=
  digits.length = 2 ∧ (∀ d ∈ digits, d.isDigit = true) ∧ Nat.ofDigitChars 10 digits 0 = n

/-- The text begins with two digits of hours and two digits of minutes below 60, with colons and blanks or nothing
between them. They make up `seconds`, which is less than a day. -/
def Span (cs : List Char) (seconds : Nat) : Prop :=
  ∃ hours gap minutes rest h m, cs = hours ++ gap ++ minutes ++ rest ∧ Pair hours h ∧ Pair minutes m ∧
    (∀ c ∈ gap, c = ':' ∨ isBlank c = true) ∧ m < 60 ∧ h * 3600 + m * 60 = seconds ∧ seconds < secondsPerDay

/-- The character is a plus sign and `factor` is 1, or it is a minus sign and `factor` is -1. -/
def Sign (c : Char) (factor : Int) : Prop :=
  c = '+' ∧ factor = 1 ∨ isMinus c = true ∧ factor = -1

/-- The text is an offset from UTC in seconds, perhaps with something behind it. -/
inductive Says : List Char → Int → Prop
  | word {cs : List Char} (h : Word cs) : Says cs 0
  | signed {c : Char} {factor : Int} {cs : List Char} {n : Nat} (hsign : Sign c factor) (h : Span cs n) :
    Says (c :: cs) (factor * n)

/-- The text is nothing but an offset, if hours and minutes are small enough: `UTC` in any case, `Z`, or a sign, two
digits, a colon or none, and two digits. -/
inductive Complete : List Char → Prop
  | word {cs : List Char} (h : Word cs) : Complete cs
  | signed {c : Char} {factor : Int} {hours gap minutes : List Char} {h m : Nat} (hsign : Sign c factor)
    (hhours : Pair hours h) (hgap : gap = [] ∨ gap = [':']) (hminutes : Pair minutes m) :
    Complete (c :: (hours ++ gap ++ minutes))

variable {cs rest : List Char} {c : Char} {factor : Int}

/-! ### Hours and minutes -/

/-- The gap ends where the minutes begin, because a digit is neither a colon nor a blank. -/
private theorem dropWhile_gap {gap : List Char} (hgap : ∀ c ∈ gap, c = ':' ∨ isBlank c = true) {minutes : List Char}
    {m : Nat} (hminutes : Pair minutes m) :
    (gap ++ (minutes ++ rest)).dropWhile (fun c => c = ':' || isBlank c) = minutes ++ rest := by
  obtain ⟨hlength, hdigits, -⟩ := hminutes
  obtain ⟨d, minutes, rfl⟩ := List.exists_cons_of_length_pos (by omega : 0 < minutes.length)
  have hd : d.isDigit = true := hdigits d List.mem_cons_self
  have hcolon : d ≠ ':' := by
    rintro rfl
    cases hd
  rw [List.dropWhile_append_of_pos (fun c hc => by simpa using hgap c hc), List.cons_append,
    List.dropWhile_cons_of_neg (by simp [hcolon, Text.isBlank_of_isDigit hd])]

private theorem readSpan?_eq_some_iff {seconds : Nat} : readSpan? cs = some seconds ↔ Span cs seconds := by
  rw [readSpan?]
  constructor
  · intro hread
    obtain ⟨⟨hour, afterHours⟩, hfirst, hafter⟩ := Option.bind_eq_some_iff.mp hread
    obtain ⟨⟨minute, rest⟩, hsecond, hvalue⟩ := Option.bind_eq_some_iff.mp hafter
    obtain ⟨hours, rfl, hhours⟩ := Text.fixedDigits?_eq_some_iff.mp hfirst
    obtain ⟨minutes, hrest, hminutes⟩ := Text.fixedDigits?_eq_some_iff.mp hsecond
    obtain ⟨hfits, hseconds⟩ := Option.ite_none_right_eq_some.mp hvalue
    rw [Bool.and_eq_true, decide_eq_true_eq, decide_eq_true_eq] at hfits
    obtain ⟨hminute, hday⟩ := hfits
    cases hseconds
    refine ⟨hours, afterHours.takeWhile fun c => c = ':' || isBlank c, minutes, rest, hour, minute, ?_, hhours,
      hminutes, fun c hc => ?_, hminute, rfl, hday⟩
    · rw [List.append_assoc, List.append_assoc, ← hrest, List.takeWhile_append_dropWhile]
    · simpa using List.mem_takeWhile_imp hc
  · rintro ⟨hours, gap, minutes, rest, hour, minute, rfl, hhours, hminutes, hgap, hminute, rfl, hday⟩
    have hfirst : Text.fixedDigits? 2 (hours ++ (gap ++ (minutes ++ rest))) = some (hour, gap ++ (minutes ++ rest)) :=
      Text.fixedDigits?_eq_some_iff.mpr ⟨hours, rfl, hhours⟩
    have hsecond : Text.fixedDigits? 2 (minutes ++ rest) = some (minute, rest) :=
      Text.fixedDigits?_eq_some_iff.mpr ⟨minutes, rfl, hminutes⟩
    simp [hfirst, dropWhile_gap hgap hminutes, hsecond, hminute, hday]

/-- What follows the minutes does not count. -/
theorem Span.append {seconds : Nat} (h : Span cs seconds) (more : List Char) : Span (cs ++ more) seconds := by
  obtain ⟨hours, gap, minutes, rest, hour, minute, rfl, h⟩ := h
  exact ⟨hours, gap, minutes, rest ++ more, hour, minute, List.append_assoc _ rest more, h⟩

/-! ### Offsets -/

private theorem isMinus_iff : isMinus c = true ↔ c = '-' ∨ c = '\u2212' := by
  have hcode : c.toNat = 0x2212 ↔ c = '\u2212' := Char.toNat_inj (c := c) (d := '\u2212')
  rw [isMinus, Bool.or_eq_true, decide_eq_true_eq, decide_eq_true_eq, hcode]

private theorem Sign.eq (hsign : Sign c factor) : c = '+' ∨ c = '-' ∨ c = '\u2212' :=
  hsign.imp And.left fun hminus => isMinus_iff.mp hminus.1

/-- Neither of the two texts begins with a sign. -/
private theorem Sign.not_word (hsign : Sign c factor) : ¬Word (c :: cs) := by
  rintro (hutc | hzulu)
  · have hhead : c.toLower = 'u' := (List.cons_eq_cons.mp hutc).1
    rcases hsign.eq with rfl | rfl | rfl <;> revert hhead <;> decide
  · have hhead : c = 'Z' := (List.cons_eq_cons.mp hzulu).1
    rcases hsign.eq with rfl | rfl | rfl <;> revert hhead <;> decide

private theorem Word.length_le (h : Word cs) : 0 < cs.length ∧ cs.length ≤ 3 := by
  rcases h with h | rfl
  · have hlength := congrArg List.length h
    rw [List.length_map] at hlength
    rw [hlength]
    decide
  · decide

private theorem word_toList_iff {text : String} :
    (text.toList.map Char.toLower = "utc".toList || text = "Z") = true ↔ Word text.toList := by
  rw [Bool.or_eq_true, decide_eq_true_eq, decide_eq_true_eq, ← String.toList_inj]
  rfl

private theorem says_cons_iff {offset : Int} (hword : ¬Word (c :: cs)) :
    Says (c :: cs) offset ↔ ∃ factor, Sign c factor ∧ ∃ n : Nat, readSpan? cs = some n ∧ factor * n = offset := by
  constructor
  · rintro (h | ⟨hsign, hspan⟩)
    · exact absurd h hword
    · exact ⟨_, hsign, _, readSpan?_eq_some_iff.mpr hspan, rfl⟩
  · rintro ⟨factor, hsign, n, hn, rfl⟩
    exact .signed hsign (readSpan?_eq_some_iff.mp hn)

private theorem sign_plus_iff : Sign '+' factor ↔ factor = 1 :=
  ⟨fun h => h.elim And.right fun hminus => absurd hminus.1 (by decide), fun h => Or.inl ⟨rfl, h⟩⟩

private theorem sign_iff (hplus : c ≠ '+') : Sign c factor ↔ isMinus c = true ∧ factor = -1 :=
  or_iff_right fun h => hplus h.1

/-- Exactly the offsets are read. -/
theorem readOffset?_eq_some_iff {text : String} {offset : Int} :
    readOffset? text = some offset ↔ Says text.toList offset := by
  rw [readOffset?]
  split
  · rename_i hword
    rw [word_toList_iff] at hword
    constructor
    · rintro ⟨⟩
      exact .word hword
    · intro h
      generalize text.toList = cs at h hword
      cases h with
      | word => rfl
      | signed hsign => exact absurd hword hsign.not_word
  · rename_i hword
    rw [word_toList_iff] at hword
    split
    · rename_i cs htext
      rw [htext] at hword ⊢
      rw [says_cons_iff hword, Option.map_eq_some_iff]
      simp only [sign_plus_iff, exists_eq_left, Int.one_mul]
      rfl
    · rename_i c cs hplus htext
      rw [htext] at hword ⊢
      rw [says_cons_iff hword, Option.ite_none_right_eq_some, Option.map_eq_some_iff]
      simp only [sign_iff hplus, and_assoc, exists_and_left, exists_eq_left, Int.neg_mul, Int.one_mul]
    · rename_i htext
      rw [htext]
      refine iff_of_false nofun ?_
      rintro (h | _)
      exact absurd h.length_le.1 (Nat.lt_irrefl 0)

/-! ### What follows an offset -/

/-- Neither of the two texts begins the other. -/
private theorem Word.append_eq_nil (h : Word cs) (h' : Word (cs ++ rest)) : rest = [] := by
  rcases h with hutc | rfl
  · have hlength : cs.length = 3 := by simpa using congrArg List.length hutc
    have hle : (cs ++ rest).length ≤ 3 := h'.length_le.2
    rw [List.length_append] at hle
    exact List.eq_nil_of_length_eq_zero (by omega)
  · rcases h' with hutc | hzulu
    · have hhead : Char.toLower 'Z' = 'u' := (List.cons_eq_cons.mp hutc).1
      exact absurd hhead (by decide)
    · exact (List.cons_eq_cons.mp hzulu).2

private theorem Word.head_not_sign {body : List Char} (h : Word cs) (heq : cs ++ rest = c :: body) :
    ¬Sign c factor := by
  intro hsign
  obtain ⟨d, front, rfl⟩ := List.exists_cons_of_length_pos h.length_le.1
  obtain ⟨rfl, -⟩ := List.cons_eq_cons.mp heq
  exact hsign.not_word h

/-- Nothing may follow one of the two texts. -/
theorem Word.not_says_append (h : Word cs) (hrest : rest ≠ []) (offset : Int) : ¬Says (cs ++ rest) offset := by
  intro hsay
  generalize htext : cs ++ rest = text at hsay
  cases hsay with
  | word h' => exact hrest (h.append_eq_nil (htext ▸ h'))
  | signed hsign => exact h.head_not_sign htext hsign

/-- What is read as an offset with hours and minutes is the same offset with anything behind it. -/
theorem Says.append {offset : Int} (h : Says cs offset) (hword : ¬Word cs) (rest : List Char) :
    Says (cs ++ rest) offset := by
  cases h with
  | word h => exact absurd h hword
  | signed hsign hspan => exact .signed hsign (hspan.append rest)

/-- Behind hours and minutes with one colon at most there is nothing. -/
private theorem Span.append_eq_nil {seconds h m : Nat} {hours gap minutes : List Char} (hspan : Span cs seconds)
    (hhours : Pair hours h) (hgap : gap = [] ∨ gap = [':']) (hminutes : Pair minutes m)
    (heq : cs ++ rest = hours ++ gap ++ minutes) : rest = [] := by
  obtain ⟨hours', gap', minutes', more, hour, minute, rfl, hhours', hminutes', -, -, -, -⟩ := hspan
  obtain ⟨-, heq⟩ := List.append_inj (by simpa using heq) (hhours'.1.trans hhours.1.symm)
  have hlength : gap'.length + 2 + more.length + rest.length = gap.length + 2 := by
    simpa [hminutes.1, hminutes'.1, Nat.add_assoc] using congrArg List.length heq
  by_contra hne
  have hpos : 0 < rest.length := List.length_pos_iff.mpr hne
  rcases hgap with rfl | rfl
  · rw [List.length_nil] at hlength
    omega
  · -- Only the colon leaves room for the rest, and then the minutes begin with it.
    rw [List.length_singleton] at hlength
    obtain rfl : gap' = [] := List.eq_nil_of_length_eq_zero (by omega)
    obtain ⟨d, digits, rfl⟩ := List.exists_cons_of_length_pos (by rw [hminutes'.1]; decide : 0 < minutes'.length)
    obtain ⟨rfl, -⟩ := List.cons_eq_cons.mp heq
    exact absurd (hminutes'.2.1 ':' List.mem_cons_self) (by decide)

/-- With something behind it, a text that is read as an offset is not complete. -/
theorem Says.not_complete_append {offset : Int} (h : Says cs offset) (hrest : rest ≠ []) : ¬Complete (cs ++ rest) := by
  intro hcomplete
  generalize htext : cs ++ rest = text at hcomplete
  cases h with
  | word h =>
    cases hcomplete with
    | word h' => exact hrest (h.append_eq_nil (htext ▸ h'))
    | signed hsign => exact h.head_not_sign htext hsign
  | signed hsign hspan =>
    rw [List.cons_append] at htext
    cases hcomplete with
    | word h' => exact hsign.not_word (htext ▸ h')
    | signed _ hhours hgap hminutes =>
      exact hrest (hspan.append_eq_nil hhours hgap hminutes (List.cons_eq_cons.mp htext).2)

end ServiceHours.Offset
