import EconModel.Scalar

/-!
# The standard normal distribution

The complementary error function by a fixed polynomial fit, and from it the distribution function of
the standard normal distribution.
-/

namespace EconModel

namespace Normal

variable {α : Type} [Add α] [Sub α] [Mul α] [Div α] [Neg α] [LT α] [LE α] [DecidableLT α]
  [DecidableLE α] [OfScientific α] [Elementary α]

/-- The exponent of the fit for a nonnegative argument `z`, where `t` is `1 / (1 + z / 2)`. -/
@[specialize]
def fitExponent (z t : α) : α :=
  -z * z - 1.26551223
    + t * (1.00002368
      + t * (0.37409196
        + t * (0.09678418
          + t * (-0.18628806
            + t * (0.27886807
              + t * (-1.13520398
                + t * (1.48851587 + t * (-0.82215223 + t * 0.17087277))))))))

/-- The complementary error function, with a relative error below `1.2e-7`. -/
@[specialize]
def erfc (x : α) : α :=
  let z := Elementary.abs x
  let t := 1.0 / (1.0 + 0.5 * z)
  let tail := t * Elementary.exp (fitExponent z t)
  if 0.0 ≤ x then tail else 2.0 - tail

/-- The distribution function of the standard normal distribution.  Its values are kept away from
zero, so that the logarithm of either tail is finite. -/
@[specialize]
def cdf (z : α) : α :=
  Scalar.clamp (0.5 * erfc (-z / 1.4142135623730951)) 2.2250738585072014e-308 1.0

end Normal

end EconModel
