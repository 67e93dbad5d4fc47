import EconModel.Distribution
import EconModel.Proofs.Normal

/-!
# Draws as quantiles

Three families of distributions are drawn by the inverse of their distribution function.  Here these
functions are written down, and it is shown that in exact arithmetic a draw lies where the
distribution function takes the probability of its standard normal draw.  The exponential family is
drawn by its upper tail.
-/

namespace EconModel

variable {α : Type}

namespace Distribution

/-! ## Valid distributions -/

/-- What a check refuses does not hold where it has passed, and the rest of it has passed too. -/
theorem not_and_rest_of_checked {condition : Prop} [Decidable condition]
    {first rest : Except (Defect α) Unit} {defect : Defect α}
    (passed : (first >>= fun _ => if condition then .error defect else rest) = .ok ()) :
    ¬condition ∧ rest = .ok () := by
  cases first with
  | error found => cases passed
  | ok _ =>
      replace passed : (if condition then .error defect else rest) = .ok () := passed
      split at passed
      · cases passed
      · exact ⟨‹_›, passed⟩

section Valid

variable [Field α] [LinearOrder α] [Elementary α]

theorem lt_of_validate_uniform {min max : α} (valid : (uniform min max).validate = .ok ()) :
    min < max := not_le.mp (not_and_rest_of_checked valid).1

theorem rate_pos_of_validate [CharZero α] {rate : α}
    (valid : (exponential rate).validate = .ok ()) : 0 < rate :=
  Scalar.zero_eq.ge.trans_lt (not_le.mp (not_and_rest_of_checked valid).1)

theorem deviation_nonneg_of_validate [CharZero α] {mean deviation : α}
    (valid : (normal mean deviation).validate = .ok ()) : 0 ≤ deviation :=
  Scalar.zero_eq.ge.trans (not_lt.mp (not_and_rest_of_checked valid).1)

theorem sigma_nonneg_of_validate [CharZero α] {mu sigma : α}
    (valid : (logNormal mu sigma).validate = .ok ()) : 0 ≤ sigma :=
  Scalar.zero_eq.ge.trans (not_lt.mp (not_and_rest_of_checked valid).1)

/-- The corners of a triangular density. -/
structure Corners (min mode max : α) : Prop where
  lt : min < max
  left : min ≤ mode
  right : mode ≤ max

theorem corners_of_validate {min mode max : α}
    (valid : (triangular min mode max).validate = .ok ()) : Corners min mode max := by
  obtain ⟨apart, inside⟩ := not_and_rest_of_checked valid
  split at inside
  · next within =>
    simp only [Scalar.within, Bool.and_eq_true, decide_eq_true_eq] at within
    exact ⟨not_le.mp apart, within.1, within.2⟩
  · cases inside

end Valid

variable [Field α] [LinearOrder α]

/-! ## Distribution functions -/

/-- The probability that a uniform distribution yields at most `x`. -/
def uniformShare (min max x : α) : α :=
  if x ≤ min then 0 else if x < max then (x - min) / (max - min) else 1

/-- The probability that a triangular distribution yields at most `x`. -/
def triangularShare (min mode max x : α) : α :=
  if x ≤ min then 0
  else if x ≤ mode then (x - min) ^ 2 / ((max - min) * (mode - min))
  else if x < max then 1 - (max - x) ^ 2 / ((max - min) * (max - mode))
  else 1

/-- The probability that an exponential distribution yields more than `x`. -/
def exponentialTail [Elementary α] (rate x : α) : α :=
  if x ≤ 0 then 1 else Elementary.exp (-(rate * x))

/-! ## The uniform family -/

theorem uniform_quantile [IsStrictOrderedRing α] {min max probability : α} (range : min < max)
    (positive : 0 < probability) (at_most : probability ≤ 1) :
    min + (max - min) * probability ∈ Set.Icc min max ∧
      uniformShare min max (min + (max - min) * probability) = probability := by
  have width_pos : 0 < max - min := sub_pos.mpr range
  have above : min < min + (max - min) * probability :=
    lt_add_of_pos_right min (mul_pos width_pos positive)
  have below : (max - min) * probability ≤ max - min := mul_le_of_le_one_right width_pos.le at_most
  refine ⟨⟨above.le, by linarith⟩, ?_⟩
  rw [uniformShare, if_neg above.not_ge]
  split
  · rw [add_sub_cancel_left, mul_div_cancel_left₀ _ width_pos.ne']
  · next reached =>
    have whole : (max - min) * 1 ≤ (max - min) * probability := by linarith
    exact (le_of_mul_le_mul_left whole width_pos).antisymm at_most

/-! ## The triangular family -/

section Triangular

variable {min mode max probability x : α}

/-- What makes a place the one before the mode that belongs to a probability. -/
structure Rises (min mode max probability x : α) : Prop where
  above : min < x
  below : x ≤ mode
  square_eq : (x - min) ^ 2 = probability * (max - min) * (mode - min)

/-- What makes a place the one behind the mode that belongs to a probability. -/
structure Falls (min mode max probability x : α) : Prop where
  above : mode ≤ x
  below : x ≤ max
  square_eq : (max - x) ^ 2 = (1 - probability) * (max - min) * (max - mode)

namespace Corners

variable [IsStrictOrderedRing α] (corners : Corners min mode max)

include corners

theorem width_pos : 0 < max - min := sub_pos.mpr corners.lt

theorem lt_split_iff :
    probability < (mode - min) / (max - min) ↔ probability * (max - min) < mode - min :=
  lt_div_iff₀ corners.width_pos

theorem triangularShare_of_rises (rises : Rises min mode max probability x) :
    triangularShare min mode max x = probability := by
  have height_pos : 0 < mode - min := sub_pos.mpr (rises.above.trans_le rises.below)
  rw [triangularShare, if_neg rises.above.not_ge, if_pos rises.below, rises.square_eq, mul_assoc]
  exact mul_div_cancel_right₀ _ (mul_pos corners.width_pos height_pos).ne'

/-- Where the place is the mode itself, the probability is the part of the range before it. -/
theorem split_eq_of_falls (at_most : probability ≤ 1)
    (split : mode - min ≤ probability * (max - min))
    (falls : Falls min mode max probability mode) : mode - min = probability * (max - min) := by
  refine split.antisymm ?_
  have product_eq : (max - mode) * (max - mode) = (1 - probability) * (max - min) * (max - mode) :=
    (pow_two _).symm.trans falls.square_eq
  rcases mul_eq_mul_right_iff.mp product_eq with height_eq | flat
  · linarith
  · have most := mul_le_mul_of_nonneg_right at_most corners.width_pos.le
    linarith

theorem triangularShare_of_falls (positive : 0 < probability) (at_most : probability ≤ 1)
    (split : mode - min ≤ probability * (max - min)) (falls : Falls min mode max probability x) :
    triangularShare min mode max x = probability := by
  have width_pos := corners.width_pos
  have product_pos : 0 < probability * (max - min) := mul_pos positive width_pos
  rw [triangularShare]
  split_ifs with outside before inside
  · -- The place would be the left end, and the mode with it, at the probability zero.
    obtain rfl : mode = x := falls.above.antisymm (outside.trans corners.left)
    have split_eq := corners.split_eq_of_falls at_most split falls
    linarith
  · obtain rfl : mode = x := falls.above.antisymm before
    have split_eq := corners.split_eq_of_falls at_most split falls
    rw [split_eq, pow_two, mul_div_mul_right _ _ product_pos.ne', mul_div_cancel_right₀]
    exact width_pos.ne'
  · have depth_pos : 0 < max - mode := sub_pos.mpr ((not_le.mp before).trans inside)
    rw [falls.square_eq, mul_assoc, mul_div_cancel_right₀ _ (mul_pos width_pos depth_pos).ne',
      sub_sub_cancel]
  · obtain rfl : x = max := falls.below.antisymm (not_lt.mp inside)
    have depth_pos : 0 < x - mode := sub_pos.mpr (not_le.mp before)
    have square_eq := falls.square_eq
    rw [sub_self, zero_pow two_ne_zero, mul_assoc] at square_eq
    rcases mul_eq_zero.mp square_eq.symm with rest_eq | product_eq
    · exact sub_eq_zero.mp rest_eq
    · exact absurd product_eq (mul_pos width_pos depth_pos).ne'

end Corners

variable [Elementary α]

/-- The place before the mode that belongs to a probability. -/
def risingQuantile (min mode max probability : α) : α :=
  min + Elementary.sqrt (probability * (max - min) * (mode - min))

/-- The place behind the mode that belongs to a probability. -/
def fallingQuantile (min mode max probability : α) : α :=
  max - Elementary.sqrt ((1.0 - probability) * (max - min) * (max - mode))

def triangularQuantile (min mode max probability : α) : α :=
  if probability < (mode - min) / (max - min) then risingQuantile min mode max probability
  else fallingQuantile min mode max probability

theorem fromStandardNormal_triangular (z : α) :
    (triangular min mode max).fromStandardNormal z =
      triangularQuantile min mode max (Normal.cdf z) := rfl

namespace Corners

variable (corners : Corners min mode max)

include corners

variable [IsStrictOrderedRing α] [ExactElementary α]

theorem rises_of_lt (positive : 0 < probability)
    (early : probability < (mode - min) / (max - min)) :
    Rises min mode max probability (risingQuantile min mode max probability) := by
  have part := corners.lt_split_iff.mp early
  have product_pos : 0 < probability * (max - min) := mul_pos positive corners.width_pos
  have height_pos : 0 < mode - min := product_pos.trans part
  have square_pos : 0 < probability * (max - min) * (mode - min) := mul_pos product_pos height_pos
  have root_eq := ExactScalar.sqrt_mul_self square_pos
  have root_le : Elementary.sqrt (probability * (max - min) * (mode - min)) ≤ mode - min := by
    refine nonneg_le_nonneg_of_sq_le_sq height_pos.le ?_
    rw [root_eq]
    exact mul_le_mul_of_nonneg_right part.le height_pos.le
  refine ⟨lt_add_of_pos_right _ (ExactScalar.sqrt_pos square_pos), ?_, ?_⟩
  · exact le_sub_iff_add_le'.mp root_le
  · rw [risingQuantile, add_sub_cancel_left, pow_two, root_eq]

theorem falls_of_not_lt (at_most : probability ≤ 1)
    (late : ¬probability < (mode - min) / (max - min)) :
    Falls min mode max probability (fallingQuantile min mode max probability) := by
  rw [corners.lt_split_iff, not_lt] at late
  have depth_nonneg : 0 ≤ max - mode := sub_nonneg.mpr corners.right
  have square_nonneg : 0 ≤ (1.0 - probability) * (max - min) * (max - mode) := by
    rw [Scalar.one_eq]
    exact mul_nonneg (mul_nonneg (sub_nonneg.mpr at_most) corners.width_pos.le) depth_nonneg
  have root_eq := sqrt_mul_sqrt square_nonneg
  have root_le : Elementary.sqrt ((1.0 - probability) * (max - min) * (max - mode)) ≤
      max - mode := by
    refine nonneg_le_nonneg_of_sq_le_sq depth_nonneg ?_
    rw [root_eq, Scalar.one_eq]
    refine mul_le_mul_of_nonneg_right ?_ depth_nonneg
    linarith
  refine ⟨?_, sub_le_self _ (sqrt_nonneg square_nonneg), ?_⟩
  · exact le_sub_comm.mp root_le
  · rw [fallingQuantile, sub_sub_cancel, pow_two, root_eq, Scalar.one_eq]

/-- A quantile of a triangular distribution stands on the side of the mode that its probability
belongs to, and its share is that probability. -/
theorem triangular_quantile (positive : 0 < probability) (at_most : probability ≤ 1) :
    triangularShare min mode max (triangularQuantile min mode max probability) = probability ∧
      if probability < (mode - min) / (max - min) then
        triangularQuantile min mode max probability ∈ Set.Icc min mode
      else triangularQuantile min mode max probability ∈ Set.Icc mode max := by
  rw [triangularQuantile]
  split
  · next early =>
    have rises := corners.rises_of_lt positive early
    exact ⟨corners.triangularShare_of_rises rises, rises.above.le, rises.below⟩
  · next late =>
    have falls := corners.falls_of_not_lt at_most late
    rw [corners.lt_split_iff, not_lt] at late
    exact ⟨corners.triangularShare_of_falls positive at_most late falls, falls.above, falls.below⟩

/-- The two parts of the quantile function meet at the mode. -/
theorem quantiles_meet :
    risingQuantile min mode max ((mode - min) / (max - min)) = mode ∧
      fallingQuantile min mode max ((mode - min) / (max - min)) = mode := by
  have width_ne := corners.width_pos.ne'
  constructor
  · rw [risingQuantile, div_mul_cancel₀ _ width_ne,
      sqrt_of_mul_self (sub_nonneg.mpr corners.left), add_sub_cancel]
  · have depth_eq : (1.0 - (mode - min) / (max - min)) * (max - min) = max - mode := by
      rw [Scalar.one_eq, sub_mul, one_mul, div_mul_cancel₀ _ width_ne, sub_sub_sub_cancel_right]
    rw [fallingQuantile, depth_eq, sqrt_of_mul_self (sub_nonneg.mpr corners.right), sub_sub_cancel]

end Corners

end Triangular

/-! ## The exponential family -/

variable [IsStrictOrderedRing α] [Elementary α] [ExactElementary α]

theorem exponential_quantile {rate probability : α} (rate_pos : 0 < rate)
    (positive : 0 < probability) (at_most : probability ≤ 1) :
    0 ≤ -(Elementary.log probability) / rate ∧
      exponentialTail rate (-(Elementary.log probability) / rate) = probability := by
  rcases at_most.eq_or_lt with rfl | below
  · rw [ExactElementary.log_one, neg_zero, zero_div]
    exact ⟨le_rfl, if_pos le_rfl⟩
  · have log_neg : Elementary.log probability < 0 :=
      (ExactElementary.log_lt_log positive below).trans_eq ExactElementary.log_one
    have draw_pos : 0 < -(Elementary.log probability) / rate :=
      div_pos (neg_pos.mpr log_neg) rate_pos
    refine ⟨draw_pos.le, ?_⟩
    rw [exponentialTail, if_neg draw_pos.not_ge, mul_div_cancel₀ _ rate_pos.ne', neg_neg,
      ExactElementary.exp_log positive]

/-! ## Draws -/

/-- In exact arithmetic a draw is the quantile of its distribution at the probability of the
standard normal draw. -/
theorem fromStandardNormal_isQuantile (z : α) :
    (0 < Normal.cdf z ∧ Normal.cdf z ≤ 1) ∧
    (∀ min max : α, (uniform min max).validate = .ok () →
      (uniform min max).fromStandardNormal z ∈ Set.Icc min max ∧
        uniformShare min max ((uniform min max).fromStandardNormal z) = Normal.cdf z) ∧
    (∀ min mode max : α, (triangular min mode max).validate = .ok () →
      (triangular min mode max).fromStandardNormal z ∈ Set.Icc min max ∧
        triangularShare min mode max ((triangular min mode max).fromStandardNormal z) =
          Normal.cdf z ∧
        (if Normal.cdf z < (mode - min) / (max - min) then
          (triangular min mode max).fromStandardNormal z ∈ Set.Icc min mode
        else (triangular min mode max).fromStandardNormal z ∈ Set.Icc mode max) ∧
        risingQuantile min mode max ((mode - min) / (max - min)) = mode ∧
        fallingQuantile min mode max ((mode - min) / (max - min)) = mode) ∧
    ∀ rate : α, (exponential rate).validate = .ok () →
      0 ≤ (exponential rate).fromStandardNormal z ∧
        exponentialTail rate ((exponential rate).fromStandardNormal z) = Normal.cdf (-z) := by
  have positive := Normal.cdf_pos z
  have at_most := Normal.cdf_le_one z
  refine ⟨⟨positive, at_most⟩, ?_, ?_, ?_⟩
  · exact fun min max valid => uniform_quantile (lt_of_validate_uniform valid) positive at_most
  · intro min mode max valid
    have corners := corners_of_validate valid
    obtain ⟨share_eq, side⟩ := corners.triangular_quantile positive at_most
    refine ⟨?_, share_eq, side, corners.quantiles_meet⟩
    rw [fromStandardNormal_triangular]
    split at side
    · exact ⟨side.1, side.2.trans corners.right⟩
    · exact ⟨corners.left.trans side.1, side.2⟩
  · intro rate valid
    exact exponential_quantile (rate_pos_of_validate valid) (Normal.cdf_pos (-z))
      (Normal.cdf_le_one (-z))

/-- The peak of a triangular distribution may be at its left end. -/
theorem fromStandardNormal_isQuantile_steep :
    (triangular (0 : ℝ) 0 1).validate = .ok () ∧
      triangularShare 0 0 1 ((triangular (0 : ℝ) 0 1).fromStandardNormal 0) = Normal.cdf 0 ∧
      (exponential (2 : ℝ)).validate = .ok () ∧
      exponentialTail 2 ((exponential (2 : ℝ)).fromStandardNormal 0) = Normal.cdf (-0) := by
  have steep : (triangular (0 : ℝ) 0 1).validate = .ok () := by
    have apart : ¬(1 : ℝ) ≤ 0 := by norm_num
    have within : Scalar.within (0 : ℝ) 1 0 = true := by simp [Scalar.within]
    exact (if_neg apart).trans (if_pos within)
  have quick : (exponential (2 : ℝ)).validate = .ok () := by
    have positive : ¬(2 : ℝ) ≤ 0.0 := by norm_num
    exact if_neg positive
  obtain ⟨-, -, triangular_draw, exponential_draw⟩ := fromStandardNormal_isQuantile (0 : ℝ)
  exact ⟨steep, (triangular_draw 0 0 1 steep).2.1, quick, (exponential_draw 2 quick).2⟩

end Distribution

end EconModel
