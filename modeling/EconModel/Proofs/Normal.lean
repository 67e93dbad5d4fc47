import EconModel.Normal
import EconModel.Proofs.Scalar

/-!
# The order of the standard normal distribution function

Read over the reals, the fitted error function falls on either side of zero, and so the distribution
function rises there.  At zero the fit is a little too large: the two tails that meet there overlap,
and between them the distribution function steps down.
-/

open Polynomial

namespace EconModel

namespace Normal

/-! ## Bounds -/

section Bounds

variable {α : Type} [Field α] [LinearOrder α] [IsStrictOrderedRing α]

theorem least_pos : (0 : α) < 2.2250738585072014e-308 := by
  have positive : (0 : ℚ≥0) < 2.2250738585072014e-308 := by decide +kernel
  exact (NNRat.cast_pos (K := α)).mpr positive

theorem least_le : (2.2250738585072014e-308 : α) ≤ 0.1 := by
  have ordered : (2.2250738585072014e-308 : ℚ≥0) ≤ 0.1 := by decide +kernel
  exact (NNRat.cast_le (K := α)).mpr ordered

theorem least_le_one : (2.2250738585072014e-308 : α) ≤ 1.0 :=
  least_le.trans (by norm_num)

variable [Elementary α]

theorem cdf_pos (z : α) : 0 < cdf z :=
  least_pos.trans_le (Scalar.low_le_clamp least_le_one _)

theorem cdf_le_one (z : α) : cdf z ≤ 1 :=
  (Scalar.clamp_le_high least_le_one _).trans Scalar.one_eq.le

end Bounds

/-! ## The fit -/

/-- The polynomial in the exponent of the fit. -/
noncomputable def fitPolynomial : ℝ[X] :=
  X * (C 1.00002368
    + X * (C 0.37409196
      + X * (C 0.09678418
        + X * (C (-0.18628806)
          + X * (C 0.27886807
            + X * (C (-1.13520398)
              + X * (C 1.48851587 + X * (C (-0.82215223) + X * C 0.17087277))))))))

theorem fitExponent_eq (x t : ℝ) :
    fitExponent x t = -x * x - 1.26551223 + fitPolynomial.eval t := by
  simp only [fitExponent, fitPolynomial, eval_mul, eval_add, eval_X, eval_C]

/-- The slope of the polynomial up to its cubic part. -/
noncomputable def lowSlope (t : ℝ) : ℝ :=
  1.00002368 + t * (0.74818392 + t * (0.29035254 - 0.74515224 * t))

/-- The rest of the slope, divided by the fourth power. -/
noncomputable def highSlope (t : ℝ) : ℝ :=
  1.39434035 - 6.81122388 * t + t ^ 2 * (10.41961109 - 6.57721784 * t + 1.53785493 * t ^ 2)

theorem eval_derivative_fitPolynomial (t : ℝ) :
    fitPolynomial.derivative.eval t = lowSlope t + t ^ 4 * highSlope t := by
  simp only [fitPolynomial, derivative_mul, derivative_add, derivative_X, derivative_C, eval_mul,
    eval_add, eval_X, eval_C, eval_one, eval_zero, lowSlope, highSlope]
  ring

section Slopes

variable {t : ℝ} (nonneg : 0 ≤ t) (at_most : t ≤ 1)

include nonneg at_most

theorem one_le_lowSlope : 1 ≤ lowSlope t := by
  have inner : -0.74515224 ≤ t * (0.29035254 - 0.74515224 * t) := by nlinarith
  rw [lowSlope]
  nlinarith

theorem lowSlope_le : lowSlope t ≤ 1.78 := by
  have inner : t * (0.29035254 - 0.74515224 * t) ≤ 0.03 := by
    nlinarith [sq_nonneg (t - 0.19482765)]
  rw [lowSlope]
  nlinarith

theorem neg_one_le_highSlope : -1 ≤ highSlope t := by
  have quadratic : 5 ≤ 10.41961109 - 6.57721784 * t + 1.53785493 * t ^ 2 := by nlinarith
  have squares := mul_le_mul_of_nonneg_left quadratic (sq_nonneg t)
  rw [highSlope]
  nlinarith [sq_nonneg (t - 0.68)]

/-- The rest of the slope is positive near zero only, where the fourth power makes it small. -/
theorem highSlope_le : highSlope t ≤ 1.4 * (1 - t) := by
  have quadratic : 0 ≤ 5.38 - 5.039 * t + 1.53785493 * t ^ 2 := by
    nlinarith [sq_nonneg (t - 1.638)]
  rw [highSlope]
  nlinarith [mul_nonneg (mul_nonneg nonneg (sub_nonneg.mpr at_most)) quadratic]

theorem derivative_fitPolynomial_nonneg : 0 ≤ fitPolynomial.derivative.eval t := by
  have low := one_le_lowSlope nonneg at_most
  have high := neg_one_le_highSlope nonneg at_most
  have power_le : t ^ 4 ≤ 1 := pow_le_one₀ nonneg at_most
  have power_nonneg : 0 ≤ t ^ 4 := by positivity
  rw [eval_derivative_fitPolynomial]
  nlinarith

theorem derivative_fitPolynomial_le : fitPolynomial.derivative.eval t ≤ 2 := by
  have low := lowSlope_le nonneg at_most
  have high := highSlope_le nonneg at_most
  have square_le : t ^ 2 * (1 - t) ≤ 0.15 := by
    nlinarith [mul_nonneg nonneg (sq_nonneg (t - 2 / 3)), sq_nonneg (t - 2 / 3)]
  have power_le : t ^ 4 * (1 - t) ≤ t ^ 2 * (1 - t) := by
    have smaller : t ^ 4 ≤ t ^ 2 := pow_le_pow_of_le_one nonneg at_most (by norm_num)
    exact mul_le_mul_of_nonneg_right smaller (sub_nonneg.mpr at_most)
  have scaled := mul_le_mul_of_nonneg_left high (by positivity : 0 ≤ t ^ 4)
  rw [eval_derivative_fitPolynomial]
  linarith

end Slopes

/-- A polynomial that does not fall anywhere between zero and one keeps the order there. -/
theorem eval_le_eval {polynomial : ℝ[X]}
    (slope : ∀ t, 0 ≤ t → t ≤ 1 → 0 ≤ polynomial.derivative.eval t) {s t : ℝ} (nonneg : 0 ≤ s)
    (ordered : s ≤ t) (at_most : t ≤ 1) : polynomial.eval s ≤ polynomial.eval t := by
  have monotone : MonotoneOn (polynomial.eval ·) (Set.Icc (0 : ℝ) 1) := by
    refine monotoneOn_of_deriv_nonneg (convex_Icc 0 1) polynomial.continuousOn
      polynomial.differentiableOn fun place inside => ?_
    rw [interior_Icc] at inside
    rw [Polynomial.deriv]
    exact slope place inside.1.le inside.2.le
  exact monotone ⟨nonneg, ordered.trans at_most⟩ ⟨nonneg.trans ordered, at_most⟩ ordered

theorem fitPolynomial_le {s t : ℝ} (nonneg : 0 ≤ s) (ordered : s ≤ t) (at_most : t ≤ 1) :
    fitPolynomial.eval s ≤ fitPolynomial.eval t :=
  eval_le_eval (fun _ => derivative_fitPolynomial_nonneg) nonneg ordered at_most

theorem eval_fitPolynomial_one : fitPolynomial.eval 1 = 1.26551226 := by
  simp only [fitPolynomial, eval_mul, eval_add, eval_X, eval_C]
  norm_num

/-- The polynomial falls at most twice as fast as its argument. -/
theorem fitPolynomial_ge {t : ℝ} (nonneg : 0 ≤ t) (at_most : t ≤ 1) :
    1.26551226 - 2 * (1 - t) ≤ fitPolynomial.eval t := by
  have slope (place : ℝ) (place_nonneg : 0 ≤ place) (place_le : place ≤ 1) :
      0 ≤ (2 * X - fitPolynomial).derivative.eval place := by
    simpa using derivative_fitPolynomial_le place_nonneg place_le
  have ordered := eval_le_eval slope nonneg at_most le_rfl
  simp only [eval_sub, eval_mul, eval_ofNat, eval_X, eval_fitPolynomial_one] at ordered
  linarith

/-! ## The error function -/

/-- The scalar that the fit puts in the place of a nonnegative argument. -/
noncomputable def nearness (x : ℝ) : ℝ := 1 / (1 + x / 2)

section Nonneg

variable {x y : ℝ} (nonneg : 0 ≤ x)

include nonneg

theorem nearness_pos : 0 < nearness x := by
  rw [nearness]
  positivity

theorem nearness_le_one : nearness x ≤ 1 :=
  div_le_one_of_le₀ (by linarith) (by linarith)

theorem nearness_le (ordered : x ≤ y) : nearness y ≤ nearness x :=
  one_div_le_one_div_of_le (by linarith) (by linarith)

theorem nearness_mul : nearness x * (1 + x / 2) = 1 :=
  one_div_mul_cancel (by linarith)

theorem erfc_of_nonneg : erfc x = nearness x * Real.exp (fitExponent x (nearness x)) := by
  have weight_eq : (1.0 : ℝ) / (1.0 + 0.5 * |x|) = nearness x := by
    rw [abs_of_nonneg nonneg, nearness]
    norm_num
    ring
  have forward : (0.0 : ℝ) ≤ x := Scalar.zero_eq.trans_le nonneg
  simp only [erfc, if_pos forward, Elementary.abs, Elementary.exp, weight_eq]
  rw [abs_of_nonneg nonneg]

theorem erfc_pos : 0 < erfc x := by
  rw [erfc_of_nonneg nonneg]
  exact mul_pos (nearness_pos nonneg) (Real.exp_pos _)

theorem erfc_le (ordered : x ≤ y) : erfc y ≤ erfc x := by
  have nonneg_y : 0 ≤ y := nonneg.trans ordered
  have nearer := nearness_le nonneg ordered
  have fit_le := fitPolynomial_le (nearness_pos nonneg_y).le nearer (nearness_le_one nonneg)
  have square_le : x * x ≤ y * y := mul_self_le_mul_self nonneg ordered
  have exponent_le : fitExponent y (nearness y) ≤ fitExponent x (nearness x) := by
    rw [fitExponent_eq, fitExponent_eq]
    linarith
  rw [erfc_of_nonneg nonneg, erfc_of_nonneg nonneg_y]
  exact mul_le_mul nearer (Real.exp_le_exp.mpr exponent_le) (Real.exp_pos _).le
    (nearness_pos nonneg).le

/-- The fit exceeds the weight of its argument by no more than it does at zero. -/
theorem erfc_le_nearness : erfc x ≤ nearness x * Real.exp 3e-8 := by
  have fit_le := fitPolynomial_le (nearness_pos nonneg).le (nearness_le_one nonneg) le_rfl
  have exponent_le : fitExponent x (nearness x) ≤ 3e-8 := by
    rw [fitExponent_eq]
    rw [eval_fitPolynomial_one] at fit_le
    have square_nonneg := mul_self_nonneg x
    have excess_eq : (1.26551226 : ℝ) - 1.26551223 = 3e-8 := by norm_num
    linarith
  rw [erfc_of_nonneg nonneg]
  exact mul_le_mul_of_nonneg_left (Real.exp_le_exp.mpr exponent_le) (nearness_pos nonneg).le

/-- Near zero the fit is above one. -/
theorem le_erfc (small : x ≤ 0.01) : 1 + 3e-8 - 1.6 * x ≤ erfc x := by
  have weight_pos := nearness_pos nonneg
  have whole := nearness_mul nonneg
  have weight_le := nearness_le_one nonneg
  have weight_ge : 1 - x / 2 ≤ nearness x := by
    have scaled := mul_le_mul_of_nonneg_right weight_le (div_nonneg nonneg zero_le_two)
    linarith
  have fit_ge := fitPolynomial_ge weight_pos.le weight_le
  have exponent_ge : 3e-8 - x * x - x ≤ fitExponent x (nearness x) := by
    rw [fitExponent_eq]
    linarith
  have power_ge : 1 + 3e-8 - x * x - x ≤ Real.exp (fitExponent x (nearness x)) := by
    have tangent := Real.add_one_le_exp (fitExponent x (nearness x))
    linarith
  have square_le : x * x ≤ 0.01 * x := mul_le_mul_of_nonneg_right small nonneg
  rw [erfc_of_nonneg nonneg]
  calc 1 + 3e-8 - 1.6 * x ≤ (1 - x / 2) * (1 + 3e-8 - x * x - x) := by nlinarith
    _ ≤ nearness x * Real.exp (fitExponent x (nearness x)) :=
        mul_le_mul weight_ge power_ge (by nlinarith) weight_pos.le

end Nonneg

theorem erfc_neg {x : ℝ} (positive : 0 < x) : erfc (-x) = 2 - erfc x := by
  have forward : (0.0 : ℝ) ≤ x := Scalar.zero_eq.trans_le positive.le
  have backward : ¬(0.0 : ℝ) ≤ -x := by
    rw [Scalar.zero_eq, not_le]
    exact neg_lt_zero.mpr positive
  have two_eq : (2.0 : ℝ) = 2 := by norm_num
  simp only [erfc, Elementary.abs, abs_neg, if_pos forward, if_neg backward, two_eq]

/-! ## The tails -/

/-- The probability of the tail above a point that is not negative. -/
noncomputable def upperTail (z : ℝ) : ℝ := 0.5 * erfc (z / 1.4142135623730951)

theorem cdf_eq (z : ℝ) :
    cdf z = Scalar.clamp (upperTail (-z)) 2.2250738585072014e-308 1.0 := rfl

section Nonneg

variable {z other : ℝ} (nonneg : 0 ≤ z)

include nonneg

theorem argument_nonneg : 0 ≤ z / 1.4142135623730951 := div_nonneg nonneg (by norm_num)

theorem upperTail_pos : 0 < upperTail z := mul_pos (by norm_num) (erfc_pos (argument_nonneg nonneg))

theorem upperTail_le (ordered : z ≤ other) : upperTail other ≤ upperTail z := by
  refine mul_le_mul_of_nonneg_left (erfc_le (argument_nonneg nonneg) ?_) (by norm_num)
  exact div_le_div_of_nonneg_right ordered (by norm_num)

end Nonneg

theorem upperTail_neg {z : ℝ} (positive : 0 < z) : upperTail (-z) = 1 - upperTail z := by
  rw [upperTail, upperTail, neg_div, erfc_neg (div_pos positive (by norm_num))]
  ring

theorem exp_excess_le : Real.exp 3e-8 * (1 - 3e-8) ≤ 1 := by
  have below := Real.add_one_le_exp (-3e-8 : ℝ)
  calc Real.exp 3e-8 * (1 - 3e-8) ≤ Real.exp 3e-8 * Real.exp (-3e-8) :=
        mul_le_mul_of_nonneg_left (by linarith) (Real.exp_pos _).le
    _ = 1 := by rw [← Real.exp_add, add_neg_cancel, Real.exp_zero]

theorem upperTail_le_nearness {z : ℝ} (nonneg : 0 ≤ z) :
    2 * upperTail z * (1 - 3e-8) ≤ nearness (z / 1.4142135623730951) := by
  have tail_le := erfc_le_nearness (argument_nonneg nonneg)
  have weight_pos := nearness_pos (argument_nonneg nonneg)
  have scaled := mul_le_mul_of_nonneg_left exp_excess_le weight_pos.le
  rw [upperTail]
  linarith

theorem upperTail_lt {z : ℝ} (nonneg : 0 ≤ z) : upperTail z < 0.6 := by
  have weight_le := nearness_le_one (argument_nonneg nonneg)
  have tail_le := upperTail_le_nearness nonneg
  linarith

/-! ## The distribution function -/

theorem cdf_of_nonpos {z : ℝ} (nonpos : z ≤ 0) :
    cdf z = max (upperTail (-z)) 2.2250738585072014e-308 := by
  have below := upperTail_lt (neg_nonneg.mpr nonpos)
  rw [cdf_eq, Scalar.clamp_eq_max (by linarith)]

theorem cdf_of_pos {z : ℝ} (positive : 0 < z) : cdf z = 1 - upperTail z := by
  have above := upperTail_pos positive.le
  have below := upperTail_lt positive.le
  have least_le : (2.2250738585072014e-308 : ℝ) ≤ 0.1 := least_le
  rw [cdf_eq, upperTail_neg positive, Scalar.clamp_eq_max (by linarith), max_eq_left (by linarith)]

/-- The two tails that are cut off by a pair of points around zero are together more than the
whole. -/
def TailsOverlap (left right : ℝ) : Prop :=
  left ≤ 0 ∧ 0 < right ∧ 1 < cdf left + cdf (-right)

theorem tailsOverlap_iff {left right : ℝ} (nonpos : left ≤ 0) (positive : 0 < right) :
    TailsOverlap left right ↔ 1 < upperTail (-left) + upperTail right := by
  have left_lt := upperTail_lt (neg_nonneg.mpr nonpos)
  have right_lt := upperTail_lt positive.le
  have least_le : (2.2250738585072014e-308 : ℝ) ≤ 0.1 := least_le
  rw [TailsOverlap, cdf_of_nonpos nonpos, cdf_of_nonpos (neg_nonpos.mpr positive.le), neg_neg]
  constructor
  · rintro ⟨-, -, overlap⟩
    -- A tail that is raised to the least value leaves the sum far below one.
    rcases max_choice (upperTail (-left)) 2.2250738585072014e-308 with left_eq | left_eq <;>
      rcases max_choice (upperTail right) 2.2250738585072014e-308 with right_eq | right_eq <;>
      rw [left_eq, right_eq] at overlap <;> linarith
  · intro overlap
    exact ⟨nonpos, positive, overlap.trans_le (add_le_add (le_max_left _ _) (le_max_left _ _))⟩

/-- The distribution function keeps the order of two points exactly where their tails do not
overlap. -/
theorem cdf_le_cdf_iff {left right : ℝ} (ordered : left ≤ right) :
    cdf left ≤ cdf right ↔ ¬TailsOverlap left right := by
  rcases le_or_gt right 0 with nonpos | positive
  · -- Both points are in the left half.
    refine iff_of_true ?_ fun overlap => nonpos.not_gt overlap.2.1
    rw [cdf_of_nonpos (ordered.trans nonpos), cdf_of_nonpos nonpos]
    exact max_le_max_right _ (upperTail_le (neg_nonneg.mpr nonpos) (neg_le_neg ordered))
  · rcases le_or_gt left 0 with left_nonpos | left_pos
    · -- The points are on either side of zero, the right one too far from the end to be clamped.
      rw [tailsOverlap_iff left_nonpos positive, cdf_of_nonpos left_nonpos, cdf_of_pos positive,
        max_le_iff, not_lt, le_sub_iff_add_le, and_iff_left]
      have below := upperTail_lt positive.le
      have least_le : (2.2250738585072014e-308 : ℝ) ≤ 0.1 := least_le
      linarith
    · refine iff_of_true ?_ fun overlap => overlap.1.not_gt left_pos
      rw [cdf_of_pos left_pos, cdf_of_pos positive]
      exact sub_le_sub_left (upperTail_le left_pos.le ordered) 1

theorem arguments_add (left right : ℝ) :
    -left / 1.4142135623730951 + right / 1.4142135623730951 =
      (right - left) / 1.4142135623730951 := by
  ring

/-- Tails overlap wherever their points are close enough to zero. -/
theorem tailsOverlap_of_sub_le {left right : ℝ} (nonpos : left ≤ 0) (positive : 0 < right)
    (close : right - left ≤ 5e-8) : TailsOverlap left right := by
  have left_nonneg := argument_nonneg (neg_nonneg.mpr nonpos)
  have right_nonneg := argument_nonneg positive.le
  have sum_eq := arguments_add left right
  have sum_le : (right - left) / 1.4142135623730951 ≤ 3.6e-8 := by
    rw [div_le_iff₀ (by norm_num)]
    linarith
  have left_tail := le_erfc left_nonneg (by linarith)
  have right_tail := le_erfc right_nonneg (by linarith)
  rw [tailsOverlap_iff nonpos positive, upperTail, upperTail]
  linarith

/-- An argument that the fit puts little less than one in the place of is small. -/
theorem small_of_near {x : ℝ} (nonneg : 0 ≤ x) (near : 1 - 6e-8 ≤ nearness x) :
    x / 2 * (1 - 6e-8) ≤ 1 - nearness x := by
  have whole := nearness_mul nonneg
  have scaled := mul_le_mul_of_nonneg_left near (div_nonneg nonneg zero_le_two)
  linarith

/-- Tails overlap only where their points are close to each other. -/
theorem TailsOverlap.sub_lt {left right : ℝ} (overlap : TailsOverlap left right) :
    right - left < 1.7e-7 := by
  obtain ⟨nonpos, positive, -⟩ := id overlap
  have tails := (tailsOverlap_iff nonpos positive).mp overlap
  have left_nonneg := argument_nonneg (neg_nonneg.mpr nonpos)
  have right_nonneg := argument_nonneg positive.le
  have left_tail := upperTail_le_nearness (neg_nonneg.mpr nonpos)
  have right_tail := upperTail_le_nearness positive.le
  have left_le := nearness_le_one left_nonneg
  have right_le := nearness_le_one right_nonneg
  have left_small := small_of_near left_nonneg (by linarith)
  have right_small := small_of_near right_nonneg (by linarith)
  have sum_eq := arguments_add left right
  have sum_lt : (right - left) / 1.4142135623730951 < 1.2000001e-7 := by
    rw [← sum_eq]
    linarith
  rw [div_lt_iff₀ (by norm_num)] at sum_lt
  linarith

end Normal

end EconModel
