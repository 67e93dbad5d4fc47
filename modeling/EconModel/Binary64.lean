/-!
# Doubles as exact numbers

A finite double is a whole number times a power of two.  This file takes a double apart into these
two, rounds such a product back to a double, and derives from it the exact remainder of a division.
The last sections hold the bit pattern of a double, which keeps the sign of an undefined one, and
the total order of patterns, by which samples are sorted.
-/

namespace EconModel

/-- A finite double as an exact number, `magnitude * 2 ^ exponent` with a sign. -/
structure ExactBinary where
  /-- Whether the sign bit is set. -/
  negative : Bool
  /-- The whole number that is scaled. -/
  magnitude : Nat
  /-- The power of two by which it is scaled. -/
  exponent : Int
  deriving DecidableEq, Repr

namespace Binary64

/-- The exact value of a double, or nothing where it is infinite or undefined. -/
def decompose? (x : Float) : Option ExactBinary :=
  let bits := x.toBits.toNat
  let negative := decide (Nat.pow 2 63 ≤ bits)
  let field : Nat := bits / Nat.pow 2 52 % Nat.pow 2 11
  let fraction : Nat := bits % Nat.pow 2 52
  if field = Nat.pow 2 11 - 1 then none
  else if field = 0 then some ⟨negative, fraction, -1074⟩
  else some ⟨negative, fraction + Nat.pow 2 52, (field : Int) - 1075⟩

/-- The double nearest to an exact number, of two equally near ones the even one. -/
def nearest (value : ExactBinary) : Float :=
  .ofModel <| .pack <| .round .binary64 (if value.negative then .negative else .positive)
    value.magnitude value.exponent

/-- The double that stands for an undefined result. -/
def undefined : Float := 0.0 / 0.0

/-- The double above all finite ones. -/
def infinity : Float := 1.0 / 0.0

/-- Whether a double is a whole number. -/
def isWhole (x : Float) : Bool :=
  match decompose? x with
  | none => false
  | some value =>
      decide (0 ≤ value.exponent) || value.magnitude % Nat.pow 2 (-value.exponent).toNat == 0

/-- The remainder of the division that truncates its quotient; it has the sign of the dividend and
is exact. -/
def remainder (x y : Float) : Float :=
  match decompose? x, decompose? y with
  | some dividend, some divisor =>
      if divisor.magnitude = 0 then undefined
      else
        let exponent := min dividend.exponent divisor.exponent
        let scaled (value : ExactBinary) : Nat :=
          value.magnitude * Nat.pow 2 (value.exponent - exponent).toNat
        nearest ⟨dividend.negative, scaled dividend % scaled divisor, exponent⟩
  | some _, none => if y.isNaN then undefined else x
  | none, _ => undefined

/-! ## Patterns -/

/-- The 64 bits of a double.  A double that is undefined has no sign, but its pattern has one. -/
structure Pattern where
  /-- The bits; the sign is the topmost. -/
  bits : UInt64
  deriving DecidableEq, Repr

namespace Pattern

/-- The pattern of a double; an undefined one has the positive sign. -/
def ofFloat (x : Float) : Pattern := ⟨x.toBits⟩

/-- The double with a pattern. -/
def value (pattern : Pattern) : Float := .ofBits pattern.bits

/-- The pattern with the other sign. -/
def negate (pattern : Pattern) : Pattern := ⟨pattern.bits ^^^ 0x8000000000000000⟩

/-- The position of a pattern in the total order: negative ones below positive ones, the two zeros
apart, undefined ones at the end that their sign points to. -/
def orderKey (pattern : Pattern) : Int :=
  let bits := pattern.bits.toNat
  if bits < Nat.pow 2 63 then bits else Nat.pow 2 63 - 1 - (bits : Int)

/-- Whether `x` comes no later than `y` in the total order. -/
def totalLE (x y : Pattern) : Bool := decide (x.orderKey ≤ y.orderKey)

end Pattern

/-- Doubles sorted by the total order of their patterns. -/
def sort (sample : List Float) : List Float :=
  sample.mergeSort fun x y => (Pattern.ofFloat x).totalLE (Pattern.ofFloat y)

end Binary64

end EconModel
