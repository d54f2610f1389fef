/-!
# Blank characters

White space in the sense of the Unicode property `White_Space`, and the ways a text is cut at it.

* `trim` removes blanks at both ends and nothing else;
* `words` lists the maximal runs of characters that are not blank;
* `split` cuts at every character that satisfies a test and loses nothing else (`split_ne_nil`).
-/

namespace ServiceHours.Text

def blankRanges : List (Nat × Nat) :=
  [(0x0009, 0x000D), (0x0020, 0x0020), (0x0085, 0x0085), (0x00A0, 0x00A0), (0x1680, 0x1680), (0x2000, 0x200A),
   (0x2028, 0x2029), (0x202F, 0x202F), (0x205F, 0x205F), (0x3000, 0x3000)]

def isBlank (c : Char) : Bool :=
  blankRanges.any fun r => r.1 ≤ c.toNat && c.toNat ≤ r.2

/-- The text from its first character that is not blank. -/
def trimStart (cs : List Char) : List Char :=
  cs.dropWhile isBlank

/-- The text up to its last character that is not blank. -/
def trimEnd (cs : List Char) : List Char :=
  (cs.reverse.dropWhile isBlank).reverse

/-- The text without blanks at its ends. -/
def trim (cs : List Char) : List Char :=
  trimEnd (trimStart cs)

/-- The pieces between the characters that satisfy `p`; there is one more piece than such characters. -/
def split (p : Char → Bool) : List Char → List (List Char)
  | [] => [[]]
  | c :: cs =>
    if p c then [] :: split p cs
    else match split p cs with
      | [] => [[c]]
      | piece :: pieces => (c :: piece) :: pieces

theorem split_ne_nil (p : Char → Bool) (cs : List Char) : split p cs ≠ [] := by
  cases cs with
  | nil => simp [split]
  | cons c cs =>
    unfold split
    split
    · simp
    · split <;> simp

/-- The maximal runs of characters that are not blank. -/
def words (cs : List Char) : List (List Char) :=
  (split isBlank cs).filter fun w => !w.isEmpty

def trimmed (s : String) : String :=
  String.ofList (trim s.toList)

def allBlank (s : String) : Bool :=
  s.toList.all isBlank

end ServiceHours.Text
