import EconModel.Decimal.Basic

/-!
# Layout of numerals

How the digits of a numeral become text is a choice of the format that is written.  A `Layout`
holds these choices; the two formats of the library are `Layout.artifact`, for numbers in JSON
artifacts, and `Layout.prose`, for numbers in messages.  The last section writes a number with a set
count of decimal places.
-/

namespace EconModel

namespace Decimal

/-- The choices of a format that turns numerals into text. -/
structure Layout where
  /-- Whether a numeral whose leading digit has this exponent is written positionally. -/
  positional : Int → Bool
  /-- What stands after the digits of a whole number. -/
  wholeSuffix : String
  /-- The choice between two shortest numerals that are equally near to the value. -/
  tie : Tie

/-- Numbers in artifacts are positional from `10 ^ (-5)` up to below `10 ^ 16`, else scientific, and
whole ones keep a point so that they read back as reals.  A tie goes to the even digit. -/
def Layout.artifact : Layout where
  positional exponent := decide (-5 ≤ exponent) && decide (exponent < 16)
  wholeSuffix := ".0"
  tie := .toEven

/-- Numbers in messages are always positional, and whole ones have no point.  A tie goes away from
zero, as a reader rounds by hand. -/
def Layout.prose : Layout where
  positional _ := true
  wholeSuffix := ""
  tie := .awayFromZero

/-- A run of zeros. -/
def zeros (count : Nat) : String := String.ofList (List.replicate count '0')

/-- The digits with a point after the first `whole` of them. -/
def pointed (digits : List Char) (whole : Nat) : String :=
  String.ofList (digits.take whole) ++ "." ++ String.ofList (digits.drop whole)

/-- A numeral without an exponent mark. -/
def plain (suffix : String) (digits : List Char) (exponent : Int) : String :=
  if 0 ≤ exponent then String.ofList digits ++ zeros exponent.toNat ++ suffix
  else
    let whole := digits.length + exponent
    if 0 < whole then pointed digits whole.toNat
    else "0." ++ zeros (-whole).toNat ++ String.ofList digits

/-- A numeral with one digit before the point and a signed exponent after the mark. -/
def scientific (digits : List Char) (leading : Int) : String :=
  let significand := if digits.length ≤ 1 then String.ofList digits else pointed digits 1
  let sign := if leading < 0 then "-" else "+"
  significand ++ "e" ++ sign ++ toString leading.natAbs

def Layout.render (layout : Layout) (numeral : Decimal) : String :=
  let digits := Nat.toDigits 10 numeral.digits
  let leading : Int := digits.length + numeral.exponent - 1
  let sign := if numeral.negative then "-" else ""
  if layout.positional leading then
    sign ++ plain layout.wholeSuffix digits numeral.exponent
  else sign ++ scientific digits leading

/-- The text of a double with the given exact value. -/
def Layout.renderFinite (layout : Layout) (x : Float) (value : ExactBinary) : String :=
  layout.render (shortest layout.tie x value)

/-- The name of a double that has no numeral. -/
def specialName (x : Float) : String :=
  if x.isNaN then "NaN" else if x < 0.0 then "-inf" else "inf"

/-- The text of a double in messages: the fewest digits that identify it, never an exponent. -/
def prose (x : Float) : String :=
  match Binary64.decompose? x with
  | some value => Layout.prose.renderFinite x value
  | none => specialName x

/-! ## A set count of places -/

/-- A quotient rounded to the nearest whole number, a half to the even neighbour. -/
def roundQuotient (numerator denominator : Nat) : Nat :=
  let below := numerator / denominator
  let excess := 2 * (numerator % denominator)
  if denominator < excess ∨ (excess = denominator ∧ below % 2 = 1) then below + 1 else below

/-- The text of an exact value with `places` decimal places; the sign of a zero is kept. -/
def fixedExact (places : Nat) (value : ExactBinary) : String :=
  let numerator := value.magnitude * Nat.pow 2 value.exponent.toNat * Nat.pow 10 places
  let units := roundQuotient numerator (Nat.pow 2 (-value.exponent).toNat)
  let digits := Nat.toDigits 10 units
  let padded := List.replicate (places + 1 - digits.length) '0' ++ digits
  let sign := if value.negative then "-" else ""
  if places = 0 then sign ++ String.ofList padded
  else sign ++ pointed padded (padded.length - places)

/-- The text of a double with `places` decimal places. -/
def fixed (places : Nat) (x : Float) : String :=
  match Binary64.decompose? x with
  | some value => fixedExact places value
  | none => specialName x

end Decimal

end EconModel
