import EconModel.Proofs.Binary64.Order

/-!
# Distances of doubles

The distance of two finite doubles is never undefined: it is rounded, and infinite where it
overflows.  So it is above a bound or not, and that of a double from itself is not.
-/

namespace EconModel

namespace Binary64

open Float.Model Float.Model.UnpackedFloat

/-- A bit pattern without the highest exponent unpacks to a number. -/
theorem isNaN_unpack_packComponents (sign : Sign) {field : BitVec 11} (fraction : BitVec 52)
    (notTop : field ≠ -1#11) : (UnpackedFloat.unpack .binary64
      (packComponents .binary64 sign field fraction)).isNaN = false := by
  rw [UnpackedFloat.unpack]
  simp only [unpackExponent_packComponents, if_neg notTop]
  split
  · split <;> rfl
  · rfl

/-- Packing does not make a number undefined. -/
theorem isNaN_pack (float : UnpackedFloat) :
    (Float.Model.pack float).unpack.isNaN = float.isNaN := by
  cases float with
  | notANumber => rfl
  | infinity sign | zero sign => cases sign <;> rfl
  | finite sign mantissa exponent positive =>
      change (UnpackedFloat.unpack .binary64 (UnpackedFloat.pack .binary64 _)).isNaN = false
      rw [UnpackedFloat.pack]
      dsimp only
      split
      · cases sign <;> rfl
      · next inside =>
        have inside : ¬2 ^ 11 ≤ (exponent + 1023 + 52).toNat + 1 := inside
        split
        · refine isNaN_unpack_packComponents sign _ fun top => ?_
          have field : (exponent + 1023 + 52).toNat % 2 ^ 11 = 2047 := congrArg BitVec.toNat top
          omega
        · exact isNaN_unpack_packComponents sign _ (by decide)

/-- A number does not round to the undefined double. -/
theorem Rounds.isNaN_eq {value : ℚ} {x : Float} (rounds : Rounds value x) : x.isNaN = false := by
  cases rounds with
  | zero sign _ x_eq =>
      rw [x_eq]
      exact isNaN_pack (.zero sign)
  | signed sign positive _ x_eq =>
      rw [x_eq]
      refine (isNaN_pack _).trans ?_
      rcases ofRat_eq sign positive with ⟨zero_eq, _⟩ | ⟨_, _, _, finite_eq, _⟩
      · rw [zero_eq]
        rfl
      · rw [finite_eq]
        rfl

/-- Zero rounds to a zero. -/
theorem Rounds.toRat_eq_zero {x : Float} (rounds : Rounds 0 x) : toRat x = 0 := by
  cases rounds with
  | zero sign _ x_eq =>
      rw [x_eq, toRat]
      change valueOf (Float.Model.pack (.zero sign)).unpack = 0
      rw [unpack_zero]
      rfl
  | @signed sign size positive zero_eq _ =>
      have size_eq := abs_signed sign size
      rw [← zero_eq, abs_zero, abs_of_pos positive] at size_eq
      exact absurd size_eq positive.ne

namespace Finite

variable {float : UnpackedFloat} (finite : Finite float)

include finite

theorem unpack_pack : (Float.Model.pack float).unpack = float := by
  cases finite with
  | zero sign => exact unpack_zero sign
  | canonical sign positive canonical high =>
      exact Binary64.unpack_pack sign positive canonical high

theorem isFinite_eq : float.isFinite = true := by
  cases finite <;> rfl

theorem abs : Finite float.abs := by
  cases finite with
  | zero sign => exact .zero _
  | canonical sign positive canonical high => exact .canonical _ positive canonical high

theorem valueOf_abs : valueOf float.abs = |valueOf float| := by
  cases finite with
  | zero sign => exact abs_zero.symm
  | canonical sign positive canonical high =>
      change signed .positive _ = |signed sign _|
      rw [abs_signed, abs_of_pos (by positivity)]
      rfl

theorem lt_infinity : float.lt (.infinity .positive) = true := by
  cases finite with
  | zero => rfl
  | canonical sign => cases sign <;> rfl

theorem infinity_le : (UnpackedFloat.infinity .positive).le float = false := by
  cases finite with
  | zero => rfl
  | canonical sign => cases sign <;> rfl

end Finite

theorem unpack_abs_of_isFinite {x : Float} (finite : x.isFinite = true) :
    x.abs.toModel.unpack = x.toModel.unpack.abs :=
  (finite_unpack finite).abs.unpack_pack

theorem isFinite_abs {x : Float} (finite : x.isFinite = true) : x.abs.isFinite = true := by
  change x.abs.toModel.unpack.isFinite = true
  rw [unpack_abs_of_isFinite finite]
  exact (finite_unpack finite).abs.isFinite_eq

theorem toRat_abs {x : Float} (finite : x.isFinite = true) : toRat x.abs = |toRat x| := by
  rw [toRat, unpack_abs_of_isFinite finite, (finite_unpack finite).valueOf_abs]
  rfl

theorem unpack_abs_of_not_isFinite {x : Float} (number : x.isNaN = false)
    (notFinite : ¬x.isFinite = true) : x.abs.toModel.unpack = .infinity .positive := by
  change (Float.Model.pack x.toModel.unpack.abs).unpack = _
  change x.toModel.unpack.isNaN = false at number
  change ¬x.toModel.unpack.isFinite = true at notFinite
  generalize x.toModel.unpack = float at number notFinite
  cases float with
  | notANumber => cases number
  | infinity sign =>
      change (Float.Model.pack (.infinity .positive)).unpack = _
      rfl
  | zero | finite => exact absurd rfl notFinite

/-- The size of a number is above a bound or not. -/
theorem lt_abs_iff {bound x : Float} (bound_finite : bound.isFinite = true)
    (number : x.isNaN = false) : bound < x.abs ↔ ¬x.abs ≤ bound := by
  by_cases finite : x.isFinite = true
  · rw [toRat_lt_iff bound_finite (isFinite_abs finite),
      toRat_le_iff (isFinite_abs finite) bound_finite, not_le]
  · have unpack_eq := unpack_abs_of_not_isFinite number finite
    have bound_float := finite_unpack bound_finite
    refine iff_of_true ?_ ?_
    · change decide (bound.toModel.unpack.lt x.abs.toModel.unpack = true) = true
      rw [unpack_eq, bound_float.lt_infinity]
      rfl
    · change ¬decide (x.abs.toModel.unpack.le bound.toModel.unpack = true) = true
      rw [unpack_eq, bound_float.infinity_le]
      exact Bool.false_ne_true

section Doubles

variable {x y bound : Float} (x_finite : x.isFinite = true) (bound_finite : bound.isFinite = true)

include x_finite bound_finite

/-- The distance of two finite doubles is above a bound or not. -/
theorem lt_abs_sub_iff (y_finite : y.isFinite = true) :
    bound < (x - y).abs ↔ ¬(x - y).abs ≤ bound := by
  have rounds : Rounds (toRat x - toRat y) (x - y) :=
    rounds_sub (finite_unpack x_finite) (finite_unpack y_finite)
  exact lt_abs_iff bound_finite rounds.isNaN_eq

theorem abs_sub_self_le (nonneg : 0 ≤ toRat bound) : (x - x).abs ≤ bound := by
  have rounds : Rounds (toRat x - toRat x) (x - x) :=
    rounds_sub (finite_unpack x_finite) (finite_unpack x_finite)
  rw [sub_self] at rounds
  have finite := rounds.isFinite_iff.mpr fits_zero
  rw [toRat_le_iff (isFinite_abs finite) bound_finite, toRat_abs finite, rounds.toRat_eq_zero,
    abs_zero]
  exact nonneg

end Doubles

end Binary64

end EconModel
