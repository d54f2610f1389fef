import ServiceHours.Text.Numeral

/-!
# The shortest decimal of a fraction

A double stands for all reals that round to it. `Decimal.shortest` writes a finite double that is not negative with
the fewest decimal places that still lie among those reals, and with the nearest such decimal where there are two.
All arithmetic is on natural numbers: a double is `significand * 2 ^ exponent`, and the bounds of its reals are held in
quarters of that unit.
-/

namespace ServiceHours.Decimal

/-- A finite double in quarters of its unit: the value, the reals next to it that still round to it, whether those
bounds belong to them, and the scale as a fraction. -/
structure Interval where
  value : Nat
  below : Nat
  above : Nat
  closed : Bool
  numerator : Nat
  denominator : Nat
deriving DecidableEq, Repr

/-- The reals that round to the double with the given bits, for a finite double that is not negative. -/
def Interval.ofBits (bits : Nat) : Interval :=
  let fraction := bits % Nat.pow 2 52
  let biased := bits / Nat.pow 2 52 % Nat.pow 2 11
  let significand := if biased = 0 then fraction else fraction + Nat.pow 2 52
  let exponent := (if biased = 0 then 1 else biased)
  -- the unit is `2 ^ (exponent - 1075)`, and a quarter of it `2 ^ (exponent - 1077)`
  { value := 4 * significand
    below := 4 * significand - (if fraction = 0 && 1 < biased then 1 else 2)
    above := 4 * significand + 2
    closed := significand % 2 == 0
    numerator := Nat.pow 2 (exponent - 1077)
    denominator := Nat.pow 2 (1077 - exponent) }

namespace Interval

/-- Whether `digits / 10 ^ places` is one of the reals. -/
def holds (s : Interval) (digits places : Nat) : Bool :=
  let x := digits * s.denominator
  let low := s.below * s.numerator * Nat.pow 10 places
  let high := s.above * s.numerator * Nat.pow 10 places
  if s.closed then low ≤ x && x ≤ high else low < x && x < high

/-- The distance of `digits / 10 ^ places` from the value, in a unit that depends on the places alone. -/
def distance (s : Interval) (digits places : Nat) : Nat :=
  let x := digits * s.denominator
  let v := s.value * s.numerator * Nat.pow 10 places
  (x - v) + (v - x)

/-- The decimal with the given places that is among the reals and nearest to the value; an even last digit wins a
tie. -/
def onGrid (s : Interval) (places : Nat) : Option Nat :=
  let lower := s.value * s.numerator * Nat.pow 10 places / s.denominator
  let upper := lower + 1
  match s.holds lower places, s.holds upper places with
  | false, false => none
  | true, false => some lower
  | false, true => some upper
  | true, true =>
    let toLower := s.distance lower places
    let toUpper := s.distance upper places
    if toLower < toUpper || (toLower = toUpper && lower % 2 = 0) then some lower else some upper

/-- The digits and places of the first decimal found from `places` on. -/
def search (s : Interval) : (fuel places : Nat) → Nat × Nat
  | 0, places => (s.value * s.numerator * Nat.pow 10 places / s.denominator, places)
  | fuel + 1, places =>
    match s.onGrid places with
    | some digits => (digits, places)
    | none => s.search fuel (places + 1)

end Interval

/-- The text of `digits / 10 ^ places`, with at least one digit on either side of the point. -/
def positional (digits places : Nat) : String :=
  let whole := digits / Nat.pow 10 places
  let part := digits % Nat.pow 10 places
  Text.decimal whole ++ "." ++ Text.padded places part

/-- The shortest text of a finite double that is not negative. No double needs more than 1074 places. -/
def shortest (x : Float) : String :=
  let found := (Interval.ofBits x.toBits.toNat).search 1075 0
  positional found.1 found.2

end ServiceHours.Decimal
