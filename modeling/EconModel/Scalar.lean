/-!
# Scalars

The numerical parts of the library (distributions, correlation, statistics) are written once over a
scalar type that has arithmetic, an order and the functions of the class `Elementary`.  They run at
`Float`; nothing in them depends on rounding, so the same definitions can be read over the reals.
-/

namespace EconModel

/-- The functions of a scalar type beyond its arithmetic and order. -/
class Elementary (α : Type) where
  sqrt : α → α
  exp : α → α
  log : α → α
  abs : α → α
  /-- Whether the scalar is an ordinary number, neither infinite nor undefined. -/
  isFinite : α → Bool
  /-- A natural number as a scalar. -/
  ofCount : Nat → α
  /-- The largest natural number that is not above a nonnegative scalar. -/
  floor : α → Nat
  /-- The smallest natural number that is not below a nonnegative scalar. -/
  ceil : α → Nat

instance : Elementary Float where
  sqrt := Float.sqrt
  exp := Float.exp
  log := Float.log
  abs := Float.abs
  isFinite := Float.isFinite
  ofCount := Float.ofNat
  -- Doubles are cut to the range of words.
  floor x := x.toUInt64.toNat
  ceil x :=
    let whole := x.toUInt64
    if whole.toFloat < x then min (whole.toNat + 1) (UInt64.size - 1) else whole.toNat

namespace Scalar

variable {α : Type}

/-- The sum of a list, taken from the left.  It starts at negative zero, the neutral element of
addition that also keeps the sign of a sum of zeros. -/
@[specialize]
def sum [Add α] [Neg α] [OfScientific α] (terms : List α) : α :=
  terms.foldl (· + ·) (-0.0)

/-- The nearest scalar to `x` that is neither below `low` nor above `high`. -/
@[specialize]
def clamp [LT α] [DecidableLT α] (x low high : α) : α :=
  if x < low then low else if high < x then high else x

/-- Whether `x` lies between `low` and `high`, both included. -/
@[specialize]
def within [LE α] [DecidableLE α] (low high x : α) : Bool :=
  decide (low ≤ x) && decide (x ≤ high)

end Scalar

end EconModel
