import EconModel.Decimal.Basic

/-!
# Reading numbers from text

The notation of numbers outside JSON: an optional sign, digits with an optional point, an optional
exponent, or the name of an infinity or of the undefined double in any case.
-/

namespace EconModel

namespace Decimal

/-- The value of a decimal digit. -/
def digitValue (c : Char) : Nat := c.toNat - '0'.toNat

/-- The number that a run of digits denotes. -/
def ofDigits (digits : List Char) : Nat :=
  digits.foldl (fun value c => 10 * value + digitValue c) 0

/-- The longest run of digits in front, and what follows it. -/
def takeDigits (text : List Char) : List Char × List Char :=
  (text.takeWhile Char.isDigit, text.dropWhile Char.isDigit)

/-- An optional sign in front, and what follows it. -/
def takeSign : List Char → Bool × List Char
  | '-' :: rest => (true, rest)
  | '+' :: rest => (false, rest)
  | rest => (false, rest)

/-- An exponent that takes up the whole text: nothing, or a mark, an optional sign and digits. -/
def exponent? : List Char → Option Int
  | [] => some 0
  | mark :: rest =>
      if mark = 'e' ∨ mark = 'E' then
        let (negative, digits) := takeSign rest
        if digits.isEmpty || !digits.all Char.isDigit then none
        else
          let size := ofDigits digits
          some (if negative then -(size : Int) else size)
      else none

/-- An unsigned numeral that takes up the whole text. -/
def unsigned? (negative : Bool) (text : List Char) : Option Decimal :=
  let (whole, rest) := takeDigits text
  let (fraction, rest) :=
    match rest with
    | '.' :: rest => takeDigits rest
    | rest => ([], rest)
  if whole.isEmpty && fraction.isEmpty then none
  else
    (exponent? rest).map fun exponent =>
      ⟨negative, ofDigits (whole ++ fraction), exponent - fraction.length⟩

/-- The double that a text denotes, as a pattern, since the name of the undefined double may have a
sign as well. -/
def pattern? (text : String) : Option Binary64.Pattern :=
  let (negative, rest) := takeSign text.toList
  let signed (x : Float) : Binary64.Pattern :=
    if negative then (Binary64.Pattern.ofFloat x).negate else .ofFloat x
  match String.ofList (rest.map Char.toLower) with
  | "nan" => some (signed Binary64.undefined)
  | "inf" => some (signed Binary64.infinity)
  | "infinity" => some (signed Binary64.infinity)
  | _ => (unsigned? negative rest).map fun numeral => .ofFloat numeral.toFloat

end Decimal

end EconModel
