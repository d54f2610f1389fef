/-!
# Numerals

Decimal numbers as they are written and read.

* `decimal` writes a number without leading zeros, `padded` with at least a given number of digits;
* `natural?` reads an optional plus sign and ASCII digits up to a bound, and nothing else;
* `fixedDigits?` reads a number of digits that is fixed beforehand;
* reading gives back what was written (`natural?_toDigits`).
-/

namespace ServiceHours.Text

/-- The largest count a schedule or a manager can hold. -/
def maxCount : Nat := 4294967295

def decimal (n : Nat) : String :=
  String.ofList (Nat.toDigits 10 n)

/-- A number in decimal digits, with zeros in front up to `width` digits. -/
def padded (width n : Nat) : String :=
  String.ofList (List.replicate (width - (Nat.toDigits 10 n).length) '0' ++ Nat.toDigits 10 n)

/-- Reads digits only, at least one of them, as a number not above `bound`. -/
def digits? (bound : Nat) (cs : List Char) : Option Nat :=
  if cs.isEmpty || !cs.all Char.isDigit then none
  else if Nat.ofDigitChars 10 cs 0 ≤ bound then some (Nat.ofDigitChars 10 cs 0)
  else none

/-- Reads an optional plus sign and digits as a number not above `bound`. -/
def natural? (bound : Nat) : List Char → Option Nat
  | '+' :: cs => digits? bound cs
  | cs => digits? bound cs

def fixedDigits? (count : Nat) (cs : List Char) : Option (Nat × List Char) :=
  if (cs.take count).length = count && (cs.take count).all Char.isDigit then
    some (Nat.ofDigitChars 10 (cs.take count) 0, cs.drop count)
  else none

private theorem digits?_toDigits {bound n : Nat} (h : n ≤ bound) : digits? bound (Nat.toDigits 10 n) = some n := by
  have hne : (Nat.toDigits 10 n).isEmpty = false := by simp [Nat.toDigits_ne_nil]
  have hall : (Nat.toDigits 10 n).all Char.isDigit = true :=
    List.all_eq_true.mpr fun c hc => Nat.isDigit_of_mem_toDigits (by decide) (by decide) hc
  simp [digits?, hne, hall, Nat.ofDigitChars_ten_toDigits, h]

theorem natural?_toDigits {bound n : Nat} (h : n ≤ bound) : natural? bound (Nat.toDigits 10 n) = some n := by
  unfold natural?
  split
  · rename_i cs hcs
    have hplus : '+' ∈ Nat.toDigits 10 n := by rw [hcs]; simp
    have := Nat.isDigit_of_mem_toDigits (by decide) (by decide) hplus
    simp at this
  · exact digits?_toDigits h

end ServiceHours.Text
