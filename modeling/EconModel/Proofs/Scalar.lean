import EconModel.Scalar
import Mathlib

/-!
# Exact scalars

The numerical parts of the library can be read over any ordered field in which positive scalars have
square roots, and logarithms where these are used; there nothing is rounded.  The real numbers are
such a field.
-/

namespace EconModel

/-- Roots and absolute values are what they are in exact arithmetic. -/
class ExactScalar (α : Type) [Field α] [LinearOrder α] [IsStrictOrderedRing α] [Elementary α] :
    Prop where
  sqrt_mul_self : ∀ {x : α}, 0 < x → Elementary.sqrt x * Elementary.sqrt x = x
  sqrt_pos : ∀ {x : α}, 0 < x → 0 < Elementary.sqrt x
  abs_eq : ∀ x : α, Elementary.abs x = |x|

/-- The logarithm and the exponential function, too, are what they are in exact arithmetic. -/
class ExactElementary (α : Type) [Field α] [LinearOrder α] [IsStrictOrderedRing α]
    [Elementary α] : Prop extends ExactScalar α where
  sqrt_zero : Elementary.sqrt (0 : α) = 0
  log_one : Elementary.log (1 : α) = 0
  log_lt_log : ∀ {x y : α}, 0 < x → x < y → Elementary.log x < Elementary.log y
  exp_log : ∀ {x : α}, 0 < x → Elementary.exp (Elementary.log x) = x

/-- Natural numbers are scalars, and scalars are cut to natural numbers, without loss. -/
class ExactCount (α : Type) [Field α] [LinearOrder α] [IsStrictOrderedRing α] [Elementary α] :
    Prop where
  ofCount_eq : ∀ count : ℕ, (Elementary.ofCount count : α) = count
  le_floor_iff : ∀ {x : α} {count : ℕ}, 0 ≤ x → (count ≤ Elementary.floor x ↔ (count : α) ≤ x)
  ceil_le_iff : ∀ {x : α} {count : ℕ}, 0 ≤ x → (Elementary.ceil x ≤ count ↔ x ≤ (count : α))

noncomputable instance : Elementary ℝ where
  sqrt := Real.sqrt
  exp := Real.exp
  log := Real.log
  abs x := |x|
  isFinite _ := true
  ofCount := Nat.cast
  floor := Nat.floor
  ceil := Nat.ceil

@[simp]
theorem sqrt_real (x : ℝ) : Elementary.sqrt x = Real.sqrt x := rfl

instance : ExactScalar ℝ where
  sqrt_mul_self positive := Real.mul_self_sqrt positive.le
  sqrt_pos := Real.sqrt_pos.mpr
  abs_eq _ := rfl

instance : ExactElementary ℝ where
  sqrt_zero := Real.sqrt_zero
  log_one := Real.log_one
  log_lt_log := Real.log_lt_log
  exp_log := Real.exp_log

instance : ExactCount ℝ where
  ofCount_eq _ := rfl
  le_floor_iff := Nat.le_floor_iff
  ceil_le_iff _ := Nat.ceil_le

section Roots

variable {α : Type} [Field α] [LinearOrder α] [IsStrictOrderedRing α] [Elementary α]
  [ExactElementary α] {x : α}

theorem sqrt_nonneg (nonneg : 0 ≤ x) : 0 ≤ Elementary.sqrt x := by
  rcases nonneg.eq_or_lt with rfl | positive
  · exact ExactElementary.sqrt_zero.ge
  · exact (ExactScalar.sqrt_pos positive).le

theorem sqrt_mul_sqrt (nonneg : 0 ≤ x) : Elementary.sqrt x * Elementary.sqrt x = x := by
  rcases nonneg.eq_or_lt with rfl | positive
  · rw [ExactElementary.sqrt_zero, mul_zero]
  · exact ExactScalar.sqrt_mul_self positive

theorem sqrt_of_mul_self (nonneg : 0 ≤ x) : Elementary.sqrt (x * x) = x := by
  have square_nonneg : 0 ≤ x * x := mul_self_nonneg x
  exact (mul_self_inj (sqrt_nonneg square_nonneg) nonneg).mp (sqrt_mul_sqrt square_nonneg)

end Roots

section Counts

variable {α : Type} [Field α] [LinearOrder α] [IsStrictOrderedRing α] [Elementary α] [ExactCount α]
  {x y : α}

theorem floor_le_self (nonneg : 0 ≤ x) : (Elementary.floor x : α) ≤ x :=
  (ExactCount.le_floor_iff nonneg).mp le_rfl

theorem lt_floor_add_one (nonneg : 0 ≤ x) : x < Elementary.floor x + 1 := by
  have above := mt (ExactCount.le_floor_iff nonneg).mpr (Nat.not_succ_le_self (Elementary.floor x))
  rwa [not_le, Nat.cast_succ] at above

theorem self_le_ceil (nonneg : 0 ≤ x) : x ≤ Elementary.ceil x :=
  (ExactCount.ceil_le_iff nonneg).mp le_rfl

theorem floor_le_ceil (nonneg : 0 ≤ x) : Elementary.floor x ≤ Elementary.ceil x := by
  exact_mod_cast (floor_le_self nonneg).trans (self_le_ceil nonneg)

theorem ceil_le_floor_add_one (nonneg : 0 ≤ x) : Elementary.ceil x ≤ Elementary.floor x + 1 := by
  rw [ExactCount.ceil_le_iff nonneg, Nat.cast_succ]
  exact (lt_floor_add_one nonneg).le

theorem floor_mono (nonneg : 0 ≤ x) (le : x ≤ y) : Elementary.floor x ≤ Elementary.floor y :=
  (ExactCount.le_floor_iff (nonneg.trans le)).mpr ((floor_le_self nonneg).trans le)

theorem ceil_mono (nonneg : 0 ≤ x) (le : x ≤ y) : Elementary.ceil x ≤ Elementary.ceil y :=
  (ExactCount.ceil_le_iff nonneg).mpr (le.trans (self_le_ceil (nonneg.trans le)))

/-- A whole scalar is not cut. -/
theorem floor_natCast (count : ℕ) : Elementary.floor (count : α) = count := by
  refine le_antisymm ?_ ((ExactCount.le_floor_iff (Nat.cast_nonneg count)).mpr le_rfl)
  exact_mod_cast floor_le_self (Nat.cast_nonneg (α := α) count)

theorem ceil_natCast (count : ℕ) : Elementary.ceil (count : α) = count := by
  refine le_antisymm ((ExactCount.ceil_le_iff (Nat.cast_nonneg count)).mpr le_rfl) ?_
  exact_mod_cast self_le_ceil (Nat.cast_nonneg (α := α) count)

end Counts

namespace Scalar

section Clamp

variable {α : Type} [LinearOrder α] {low high : α}

theorem low_le_clamp (ordered : low ≤ high) (x : α) : low ≤ clamp x low high := by
  unfold clamp
  split
  · exact le_rfl
  · split
    · exact ordered
    · exact not_lt.mp ‹_›

theorem clamp_le_high (ordered : low ≤ high) (x : α) : clamp x low high ≤ high := by
  unfold clamp
  split
  · exact ordered
  · split
    · exact le_rfl
    · exact not_lt.mp ‹_›

theorem clamp_eq_max {x : α} (at_most : x ≤ high) : clamp x low high = max x low := by
  unfold clamp
  split
  · next below => exact (max_eq_right below.le).symm
  · next inside => rw [if_neg at_most.not_gt, max_eq_left (not_lt.mp inside)]

end Clamp

theorem within_iff {α : Type} [LE α] [DecidableLE α] {low high x : α} :
    within low high x = true ↔ low ≤ x ∧ x ≤ high := by
  rw [within, Bool.and_eq_true, decide_eq_true_iff, decide_eq_true_iff]

variable {α : Type} [Field α]

theorem zero_eq [CharZero α] : (0.0 : α) = 0 := by
  norm_num

theorem one_eq [CharZero α] : (1.0 : α) = 1 := by
  norm_num

/-- What is left of a scalar when terms are taken off one after another. -/
theorem foldl_sub_eq {β : Type} (term : β → α) (entries : List β) (start : α) :
    entries.foldl (fun rest entry => rest - term entry) start =
      start - (entries.map term).sum := by
  induction entries generalizing start with
  | nil => simp
  | cons entry rest ih => rw [List.foldl_cons, ih, List.map_cons, List.sum_cons, sub_sub]

/-- In exact arithmetic a sum does not depend on the order in which it is taken. -/
theorem sum_eq [CharZero α] (terms : List α) : sum terms = terms.sum := by
  rw [sum, zero_eq, neg_zero, List.sum_eq_foldl]

end Scalar

end EconModel
