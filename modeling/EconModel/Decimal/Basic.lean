import EconModel.Binary64

/-!
# Decimal numerals

A numeral is a whole number of digits times a power of ten.  This file reads numerals into doubles
and selects, for a double, the numeral with the fewest digits that reads back to it.  Two such
numerals can be equally near to the double; which one is taken is left to the format.
-/

namespace EconModel

/-- Which way a value goes that lies in the middle between two numerals. -/
inductive Tie where
  /-- To the numeral whose last digit is even. -/
  | toEven
  /-- To the numeral that is further from zero. -/
  | awayFromZero
  deriving DecidableEq, Repr

/-- Whether a tie above the digits `below` goes to these digits and not to the next ones. -/
def Tie.keepsBelow (tie : Tie) (below : Nat) : Bool :=
  match tie with
  | .toEven => below % 2 == 0
  | .awayFromZero => false

/-- The numeral `digits * 10 ^ exponent` with a sign. -/
structure Decimal where
  /-- Whether a minus sign stands in front. -/
  negative : Bool
  /-- The significant digits, read as one whole number. -/
  digits : Nat
  /-- The power of ten by which the digits are scaled. -/
  exponent : Int
  deriving DecidableEq, Repr

namespace Decimal

/-- The double nearest to a numeral; infinite where the numeral is above every double. -/
def toFloat (numeral : Decimal) : Float :=
  let magnitude :=
    if 0 ≤ numeral.exponent then Float.ofScientific numeral.digits false numeral.exponent.toNat
    else Float.ofScientific numeral.digits true (-numeral.exponent).toNat
  if numeral.negative then -magnitude else magnitude

/-- Whether `10 ^ exponent` is at most `numerator / denominator`. -/
def powerAtMost (numerator denominator : Nat) (exponent : Int) : Bool :=
  if 0 ≤ exponent then decide (Nat.pow 10 exponent.toNat * denominator ≤ numerator)
  else decide (denominator ≤ numerator * Nat.pow 10 (-exponent).toNat)

/-- The exponent of the leading digit of a positive quotient.  The estimate from the binary lengths
is off by one at most, so the neighbours of the estimate are enough. -/
def leadingExponent (numerator denominator : Nat) : Int :=
  let estimate := Int.fdiv (((numerator.log2 : Int) - denominator.log2) * 30103) 100000
  if powerAtMost numerator denominator (estimate + 1) then estimate + 1
  else if powerAtMost numerator denominator estimate then estimate
  else estimate - 1

/-- The two whole numbers of units `10 ^ unit` around a quotient, the nearer one first and of two
equally near ones the one that the tie goes to. -/
def neighbours (tie : Tie) (numerator denominator : Nat) (unit : Int) : List Nat :=
  let numerator := if 0 ≤ unit then numerator else numerator * Nat.pow 10 (-unit).toNat
  let denominator := if 0 ≤ unit then denominator * Nat.pow 10 unit.toNat else denominator
  let below := numerator / denominator
  let excess := 2 * (numerator % denominator)
  if excess < denominator ∨ (excess = denominator ∧ tie.keepsBelow below) then [below, below + 1]
  else [below + 1, below]

/-- Drop trailing zeros of the digits, `limit` of them at most. -/
def trim (limit : Nat) (numeral : Decimal) : Decimal :=
  match limit with
  | 0 => numeral
  | limit + 1 =>
      if numeral.digits = 0 ∨ numeral.digits % 10 ≠ 0 then numeral
      else trim limit { numeral with
        digits := numeral.digits / 10, exponent := numeral.exponent + 1 }

/-- All digits of a dyadic number; there are finitely many because two divides ten. -/
def ofExact (value : ExactBinary) : Decimal :=
  if 0 ≤ value.exponent then
    ⟨value.negative, value.magnitude * Nat.pow 2 value.exponent.toNat, 0⟩
  else
    ⟨value.negative, value.magnitude * Nat.pow 5 (-value.exponent).toNat, value.exponent⟩

/-- The numeral with the fewest digits, and of those the nearest, that reads back to the double `x`
with the exact value `value`.  Two numerals can be equally near; then `tie` picks one.  Seventeen
digits identify every double, so the exact numeral at the end is never reached in practice; it makes
reading back true by construction. -/
def shortest (tie : Tie) (x : Float) (value : ExactBinary) : Decimal :=
  if value.magnitude = 0 then ⟨value.negative, 0, 0⟩
  else
    let numerator := value.magnitude * Nat.pow 2 value.exponent.toNat
    let denominator := Nat.pow 2 (-value.exponent).toNat
    let leading := leadingExponent numerator denominator
    let hit := (List.range 17).findSome? fun (further : Nat) =>
      let unit := leading - further
      ((neighbours tie numerator denominator unit).map fun digits =>
        (⟨value.negative, digits, unit⟩ : Decimal)).find? fun numeral => numeral.toFloat = x
    match hit with
    | some numeral => numeral.trim 17
    | none => ofExact value

end Decimal

end EconModel
