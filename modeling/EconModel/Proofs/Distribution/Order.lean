import EconModel.Proofs.Distribution.Quantile

/-!
# The order of draws

Every family draws by a function of the standard normal draw that keeps its order wherever the
standard normal distribution function does.  That function steps down between two points around zero
whose tails overlap; the families that use it swap their draws there, and nowhere else.
-/

namespace EconModel

namespace Distribution

/-! ## Triangular distributions -/

section Triangular

variable {α : Type} [Field α] [LinearOrder α] [IsStrictOrderedRing α]
  {min mode max probability other x y : α}

theorem Rises.lt_rises (corners : Corners min mode max) (less : probability < other)
    (rises : Rises min mode max probability x) (later : Rises min mode max other y) : x < y := by
  have height_pos : 0 < mode - min := sub_pos.mpr (rises.above.trans_le rises.below)
  have square_lt : (x - min) ^ 2 < (y - min) ^ 2 := by
    rw [rises.square_eq, later.square_eq]
    have width_pos := corners.width_pos
    gcongr
  have part_nonneg : 0 ≤ y - min := sub_nonneg.mpr later.above.le
  exact (sub_lt_sub_iff_right min).mp (lt_of_pow_lt_pow_left₀ 2 part_nonneg square_lt)

theorem Falls.lt_falls (corners : Corners min mode max) (less : probability < other)
    (apart : mode < max) (falls : Falls min mode max probability x)
    (later : Falls min mode max other y) : x < y := by
  have depth_pos : 0 < max - mode := sub_pos.mpr apart
  have square_lt : (max - y) ^ 2 < (max - x) ^ 2 := by
    rw [falls.square_eq, later.square_eq]
    have width_pos := corners.width_pos
    gcongr
  have rest_nonneg : 0 ≤ max - x := sub_nonneg.mpr falls.below
  exact (sub_lt_sub_iff_left max).mp (lt_of_pow_lt_pow_left₀ 2 rest_nonneg square_lt)

theorem Rises.lt_mode (corners : Corners min mode max)
    (early : probability < (mode - min) / (max - min))
    (rises : Rises min mode max probability x) : x < mode := by
  have part := corners.lt_split_iff.mp early
  have height_pos : 0 < mode - min := sub_pos.mpr (rises.above.trans_le rises.below)
  have square_lt : (x - min) ^ 2 < (mode - min) ^ 2 := by
    rw [rises.square_eq, pow_two]
    exact mul_lt_mul_of_pos_right part height_pos
  exact (sub_lt_sub_iff_right min).mp (lt_of_pow_lt_pow_left₀ 2 height_pos.le square_lt)

variable [Elementary α] [ExactElementary α]

/-- The quantiles of a triangular distribution are in the order of their probabilities. -/
theorem Corners.triangularQuantile_lt (corners : Corners min mode max) (positive : 0 < probability)
    (less : probability < other) (at_most : other ≤ 1) :
    triangularQuantile min mode max probability < triangularQuantile min mode max other := by
  have other_pos := positive.trans less
  have below := less.le.trans at_most
  rw [triangularQuantile, triangularQuantile]
  split_ifs with early other_early other_early
  · exact (corners.rises_of_lt positive early).lt_rises corners less
      (corners.rises_of_lt other_pos other_early)
  · have rises := corners.rises_of_lt positive early
    have falls := corners.falls_of_not_lt at_most other_early
    exact (rises.lt_mode corners early).trans_le falls.above
  · exact absurd (less.trans other_early) early
  · -- Where the mode is the right end, only the probability one is left.
    have apart : mode < max := by
      refine corners.right.lt_of_ne fun mode_eq => ?_
      rw [mode_eq, div_self corners.width_pos.ne', not_lt] at early
      exact (less.trans_le at_most).not_ge early
    exact (corners.falls_of_not_lt below early).lt_falls corners less apart
      (corners.falls_of_not_lt at_most other_early)

theorem Corners.triangularQuantile_le_iff (corners : Corners min mode max)
    (positive : 0 < probability) (at_most : probability ≤ 1) (other_pos : 0 < other)
    (other_le : other ≤ 1) :
    triangularQuantile min mode max probability ≤ triangularQuantile min mode max other ↔
      probability ≤ other := by
  constructor
  · intro quantiles
    by_contra less
    exact quantiles.not_gt (corners.triangularQuantile_lt other_pos (not_le.mp less) at_most)
  · intro ordered
    rcases ordered.eq_or_lt with rfl | less
    · exact le_rfl
    · exact (corners.triangularQuantile_lt positive less other_le).le

end Triangular

/-! ## Draws -/

/-- The distribution swaps the draws of two standard normal draws that are in order. -/
def Swaps (marginal : Distribution ℝ) (left right : ℝ) : Prop :=
  match marginal with
  | .normal _ _ | .logNormal _ _ | .fixed _ => False
  | .uniform _ _ | .triangular _ _ _ => Normal.TailsOverlap left right
  | .exponential _ => Normal.TailsOverlap (-right) (-left)

variable {left right : ℝ}

theorem draw_le_draw_iff {marginal : Distribution ℝ} (valid : marginal.validate = .ok ())
    (ordered : left ≤ right) :
    marginal.fromStandardNormal left ≤ marginal.fromStandardNormal right ↔
      ¬marginal.Swaps left right := by
  cases marginal with
  | normal mean deviation =>
      have scaled := mul_le_mul_of_nonneg_left ordered (deviation_nonneg_of_validate valid)
      exact iff_of_true (add_le_add_right scaled mean) id
  | logNormal mu sigma =>
      have scaled := mul_le_mul_of_nonneg_left ordered (sigma_nonneg_of_validate valid)
      exact iff_of_true (Real.exp_le_exp.mpr (add_le_add_right scaled mu)) id
  | fixed value => exact iff_of_true le_rfl id
  | uniform min max =>
      have width_pos : 0 < max - min := sub_pos.mpr (lt_of_validate_uniform valid)
      have shares_iff : (uniform min max).fromStandardNormal left ≤
          (uniform min max).fromStandardNormal right ↔ Normal.cdf left ≤ Normal.cdf right :=
        (add_le_add_iff_left min).trans (mul_le_mul_iff_right₀ width_pos)
      exact shares_iff.trans (Normal.cdf_le_cdf_iff ordered)
  | triangular min mode max =>
      have corners := corners_of_validate valid
      have shares_iff : (triangular min mode max).fromStandardNormal left ≤
          (triangular min mode max).fromStandardNormal right ↔
            Normal.cdf left ≤ Normal.cdf right :=
        corners.triangularQuantile_le_iff (Normal.cdf_pos left) (Normal.cdf_le_one left)
          (Normal.cdf_pos right) (Normal.cdf_le_one right)
      exact shares_iff.trans (Normal.cdf_le_cdf_iff ordered)
  | exponential rate =>
      have rate_pos := rate_pos_of_validate valid
      have tails_iff : (exponential rate).fromStandardNormal left ≤
          (exponential rate).fromStandardNormal right ↔
            Normal.cdf (-right) ≤ Normal.cdf (-left) :=
        (div_le_div_iff_of_pos_right rate_pos).trans <| neg_le_neg_iff.trans <|
          Real.log_le_log_iff (Normal.cdf_pos (-right)) (Normal.cdf_pos (-left))
      exact tails_iff.trans (Normal.cdf_le_cdf_iff (neg_le_neg ordered))

/-- In exact arithmetic the draws of a valid distribution keep the order of the standard normal
draws, unless these stand on either side of zero and their tails overlap there.  They do wherever
they are within `5e-8` of each other, and nowhere further apart than `1.7e-7`. -/
theorem fromStandardNormal_le_iff (ordered : left ≤ right) :
    (Normal.cdf left ≤ Normal.cdf right ↔ ¬Normal.TailsOverlap left right) ∧
    (∀ marginal : Distribution ℝ, marginal.validate = .ok () →
      (marginal.fromStandardNormal left ≤ marginal.fromStandardNormal right ↔
        ¬marginal.Swaps left right)) ∧
    (left ≤ 0 → 0 < right → right - left ≤ 5e-8 → Normal.TailsOverlap left right) ∧
    (Normal.TailsOverlap left right → right - left < 1.7e-7) :=
  ⟨Normal.cdf_le_cdf_iff ordered, fun _ valid => draw_le_draw_iff valid ordered,
    Normal.tailsOverlap_of_sub_le, Normal.TailsOverlap.sub_lt⟩

theorem validate_uniform_unit : (uniform (0 : ℝ) 1).validate = .ok () := by
  have apart : ¬(1 : ℝ) ≤ 0 := by norm_num
  exact if_neg apart

/-- On one side of zero the draws are in order. -/
theorem fromStandardNormal_le_iff_unit :
    (1 : ℝ) ≤ 2 ∧ (uniform (0 : ℝ) 1).validate = .ok () ∧
      (uniform (0 : ℝ) 1).fromStandardNormal 1 ≤ (uniform (0 : ℝ) 1).fromStandardNormal 2 := by
  have ordered : (1 : ℝ) ≤ 2 := by norm_num
  obtain ⟨-, draws_iff, -, -⟩ := fromStandardNormal_le_iff ordered
  refine ⟨ordered, validate_uniform_unit, (draws_iff _ validate_uniform_unit).mpr ?_⟩
  rintro ⟨nonpos, -, -⟩
  linarith

/-- A draw just above zero is below the draw at zero, as far as the distribution function steps
down. -/
theorem swapped_draws_unit :
    (uniform (0 : ℝ) 1).validate = .ok () ∧ (0 : ℝ) ≤ 1e-9 ∧
      Normal.cdf (1e-9 : ℝ) < Normal.cdf 0 ∧
      (uniform (0 : ℝ) 1).fromStandardNormal 1e-9 < (uniform (0 : ℝ) 1).fromStandardNormal 0 := by
  have ordered : (0 : ℝ) ≤ 1e-9 := by norm_num
  have overlap : Normal.TailsOverlap 0 1e-9 :=
    Normal.tailsOverlap_of_sub_le le_rfl (by norm_num) (by norm_num)
  refine ⟨validate_uniform_unit, ordered, ?_, ?_⟩
  · exact not_le.mp fun kept => (Normal.cdf_le_cdf_iff ordered).mp kept overlap
  · exact not_le.mp fun kept => (draw_le_draw_iff validate_uniform_unit ordered).mp kept overlap

end Distribution

end EconModel
