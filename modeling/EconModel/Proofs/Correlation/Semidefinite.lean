import EconModel.Proofs.Correlation.Factor

/-!
# Semidefinite matrices

A correlation matrix is positive semidefinite if no weighted sum of its parameters has a negative
variance.  Taking the contribution of a column off such a matrix leaves it semidefinite on the rows
that are still to come, so no pivot is negative and what is left below a pivot is at most its root.
The search refuses a semidefinite matrix in one case only: a pivot that is small enough to count as
zero, with something left below it that does not.
-/

namespace EconModel

namespace SquareMatrix

open Matrix

variable {α : Type} [Field α] {n count : ℕ}

/-! ## Quadratic forms -/

section Forms

variable {form : Matrix (Fin n) (Fin n) α}

theorem form_sub_vecMulVec (column weights : Fin n → α) :
    weights ⬝ᵥ (form - vecMulVec column column) *ᵥ weights =
      weights ⬝ᵥ form *ᵥ weights - (weights ⬝ᵥ column) ^ 2 := by
  rw [sub_mulVec, dotProduct_sub, vecMulVec_mulVec]
  simp [dotProduct_comm column, sq]

theorem form_add_smul_single (symmetric : form.IsSymm) (weights : Fin n → α) (scale : α)
    (index : Fin n) :
    (weights + scale • Pi.single index 1) ⬝ᵥ form *ᵥ (weights + scale • Pi.single index 1) =
      weights ⬝ᵥ form *ᵥ weights + 2 * scale * (weights ⬝ᵥ form.col index) +
        scale ^ 2 * form index index := by
  have side : (form *ᵥ weights) index = weights ⬝ᵥ form.col index := by
    rw [mulVec, dotProduct_comm]
    exact congrArg _ (funext fun row => symmetric.apply row index)
  simp [mulVec_add, mulVec_smul, add_dotProduct, dotProduct_add, side]
  ring

theorem vanish_single {index : Fin n} (behind : count ≤ index.val) (other : Fin n)
    (before : other.val < count) : (Pi.single index 1 : Fin n → α) other = 0 :=
  Pi.single_eq_of_ne (fun same => (same ▸ before).not_ge behind) 1

variable [LinearOrder α]

/-- A form is nonnegative for weights that vanish in front of an index. -/
def SemidefiniteFrom (count : ℕ) (form : Matrix (Fin n) (Fin n) α) : Prop :=
  ∀ weights : Fin n → α, (∀ index : Fin n, index.val < count → weights index = 0) →
    0 ≤ weights ⬝ᵥ form *ᵥ weights

theorem SemidefiniteFrom.succ (semidefinite : SemidefiniteFrom count form) :
    SemidefiniteFrom (count + 1) form :=
  fun weights vanish => semidefinite weights fun index before =>
    vanish index (Nat.lt_succ_of_lt before)

/-- A form stays nonnegative behind an index when the column that the index determines is taken
off. -/
theorem SemidefiniteFrom.sub_column {index : Fin n} (semidefinite : SemidefiniteFrom index form)
    (symmetric : form.IsSymm) {column : Fin n → α} (positive : 0 < column index)
    (product : ∀ row, index ≤ row → column row * column index = form row index) :
    SemidefiniteFrom (index + 1) (form - vecMulVec column column) := by
  intro weights vanish
  have side : weights ⬝ᵥ form.col index = (weights ⬝ᵥ column) * column index := by
    rw [dotProduct, dotProduct, Finset.sum_mul]
    refine Finset.sum_congr rfl fun row _ => ?_
    rcases lt_or_ge row index with before | behind
    · rw [vanish row (Nat.lt_succ_of_lt before), zero_mul, zero_mul, zero_mul]
    · rw [Matrix.col_apply, ← product row behind, mul_assoc]
  -- With this weight on the index the form is least: less by what the column takes off.
  have completed := semidefinite
    (weights + (-(weights ⬝ᵥ column) / column index) • Pi.single index 1) fun other before => by
      rw [Pi.add_apply, Pi.smul_apply, vanish_single le_rfl other before, smul_zero, add_zero]
      exact vanish other (Nat.lt_succ_of_lt before)
  rw [form_add_smul_single symmetric, side, ← product index le_rfl] at completed
  rw [form_sub_vecMulVec]
  have nonzero := positive.ne'
  refine completed.trans_eq ?_
  field_simp
  ring

theorem SemidefiniteFrom.diagonal_nonneg (semidefinite : SemidefiniteFrom count form)
    {index : Fin n} (behind : count ≤ index.val) : 0 ≤ form index index := by
  simpa using semidefinite (Pi.single index 1) (vanish_single behind)

variable [IsStrictOrderedRing α]

/-- What an entry is at most, from the discriminant of the form along the line of two indices. -/
theorem SemidefiniteFrom.sq_le (semidefinite : SemidefiniteFrom count form)
    (symmetric : form.IsSymm) {row index : Fin n} (behind_row : count ≤ row.val)
    (behind : count ≤ index.val) : form row index ^ 2 ≤ form index index * form row row := by
  have along (scale : α) : 0 ≤ form index index * (scale * scale) +
      2 * form row index * scale + form row row := by
    have nonneg := semidefinite (Pi.single row 1 + scale • Pi.single index 1) fun other before => by
      rw [Pi.add_apply, Pi.smul_apply, vanish_single behind_row other before,
        vanish_single behind other before, smul_zero, add_zero]
    rw [form_add_smul_single symmetric] at nonneg
    simp only [mulVec_single_one, single_dotProduct, col_apply, one_mul] at nonneg
    linarith
  have discriminant := discrim_le_zero along
  rw [discrim] at discriminant
  linarith

end Forms

/-! ## Correlation matrices -/

section Search

variable [LinearOrder α] {matrix : SquareMatrix α n}

/-- The entries of a matrix are those of a correlation matrix. -/
structure IsCorrelation (matrix : SquareMatrix α n) : Prop where
  range : ∀ row column, -1 ≤ matrix.entry row column ∧ matrix.entry row column ≤ 1
  symmetric : ∀ row column, matrix.entry row column = matrix.entry column row
  diagonal : ∀ index, matrix.entry index index = 1

/-- No weighted sum of the parameters has a negative variance. -/
def IsPositiveSemidefinite (matrix : SquareMatrix α n) : Prop :=
  ∀ weights : Fin n → α, 0 ≤ weights ⬝ᵥ Matrix.of matrix.entry *ᵥ weights

/-- What some columns leave of a matrix. -/
def left (matrix : SquareMatrix α n) (columns : Vector (Vector α n) count) :
    Matrix (Fin n) (Fin n) α :=
  Matrix.of (matrix.residual columns)

omit [LinearOrder α] in
theorem left_push (columns : Vector (Vector α n) count) (next : Vector α n) :
    matrix.left (columns.push next) = matrix.left columns - vecMulVec next.get next.get := by
  ext row column
  exact residual_push columns next row column

theorem IsCorrelation.isSymm_left (valid : matrix.IsCorrelation)
    (columns : Vector (Vector α n) count) : (matrix.left columns).IsSymm := by
  refine Matrix.IsSymm.ext fun row column => ?_
  simp only [left, Matrix.of_apply, residual_eq, valid.symmetric column row, mul_comm]

theorem semidefiniteFrom_push (valid : matrix.IsCorrelation)
    {columns : Vector (Vector α n) count} {index : Fin n} {column : Vector α n}
    (finds : matrix.Finds columns index column)
    (semidefinite : SemidefiniteFrom index (matrix.left columns)) :
    SemidefiniteFrom (index + 1) (matrix.left (columns.push column)) := by
  rw [left_push]
  cases finds with
  | skipped _ _ _ zero =>
    have none_taken : column.get = 0 := funext zero
    rw [none_taken, zero_vecMulVec, sub_zero]
    exact semidefinite.succ
  | divided _ _ positive product =>
    exact semidefinite.sub_column (valid.isSymm_left columns) positive product

variable [IsStrictOrderedRing α]

theorem IsCorrelation.nearCorrelation (valid : matrix.IsCorrelation) : matrix.NearCorrelation where
  range := valid.range
  symmetric row column := by
    rw [valid.symmetric, sub_self, abs_zero]
    norm_num
  diagonal index := by
    rw [valid.diagonal, sub_self, abs_zero]
    norm_num

theorem IsCorrelation.residual_le_one (valid : matrix.IsCorrelation)
    (columns : Vector (Vector α n) count) (row : Fin n) : matrix.residual columns row row ≤ 1 := by
  rw [residual_eq, valid.diagonal, sub_le_self_iff]
  refine List.sum_nonneg fun square taken => ?_
  obtain ⟨column, -, rfl⟩ := List.mem_map.mp taken
  exact mul_self_nonneg _

variable [Elementary α] [ExactScalar α]

/-- Taking columns off a semidefinite matrix leaves it semidefinite on the rows behind them. -/
theorem semidefiniteFrom_left (valid : matrix.IsCorrelation)
    (semidefinite : matrix.IsPositiveSemidefinite) {bound : count ≤ n}
    {columns : Vector (Vector α n) count} (found : matrix.leadingColumns count bound = .ok columns) :
    SemidefiniteFrom count (matrix.left columns) := by
  induction count with
  | zero =>
    intro weights _
    obtain rfl : columns = #v[] := Vector.eq_empty
    exact semidefinite weights
  | succ count ih =>
    obtain ⟨earlier, column, found_earlier, found_column, rfl⟩ :=
      leadingColumns_succ_eq_ok_iff.mp found
    have finds := finds_of_nextColumn found_column
    exact semidefiniteFrom_push valid finds (ih found_earlier)

/-- The search gives up at an index although its pivot is positive: the pivot counts as zero, but
something that is left below it does not. -/
def StrandsAt (matrix : SquareMatrix α n) (index : Fin n) (pivot : α) : Prop :=
  ∃ earlier : Vector (Vector α n) index, matrix.leadingColumns index index.isLt.le = .ok earlier ∧
    pivot = matrix.residual earlier index index ∧ 1e-16 < pivot ∧ pivot ≤ 1e-12 ∧
      ∃ row, index < row ∧ 1e-8 < |matrix.residual earlier row index|

theorem refuses_iff_of_semidefinite (valid : matrix.IsCorrelation)
    (semidefinite : matrix.IsPositiveSemidefinite) {index : Fin n}
    {earlier : Vector (Vector α n) index}
    (found : matrix.leadingColumns index index.isLt.le = .ok earlier) :
    matrix.Refuses earlier index ↔ 1e-16 < matrix.residual earlier index index ∧
      matrix.residual earlier index index ≤ 1e-12 ∧
        ∃ row, index < row ∧ 1e-8 < |matrix.residual earlier row index| := by
  have behind := semidefiniteFrom_left valid semidefinite found
  have nonneg : 0 ≤ matrix.residual earlier index index := behind.diagonal_nonneg le_rfl
  have not_negative : ¬ matrix.residual earlier index index < -1e-10 :=
    not_lt.mpr (le_trans (by norm_num) nonneg)
  rw [Refuses, or_iff_right not_negative, iff_and_self]
  -- What is left below a pivot is at most its root, so it cannot be large below the pivot zero.
  rintro ⟨-, row, below, large⟩
  calc (1e-16 : α) = 1e-8 ^ 2 := by norm_num
    _ < |matrix.residual earlier row index| ^ 2 := pow_lt_pow_left₀ large (by norm_num) two_ne_zero
    _ = matrix.residual earlier row index ^ 2 := sq_abs _
    _ ≤ matrix.residual earlier index index * matrix.residual earlier row row :=
      behind.sq_le (valid.isSymm_left earlier) below.le le_rfl
    _ ≤ matrix.residual earlier index index :=
      mul_le_of_le_one_right nonneg (valid.residual_le_one earlier row)

theorem cholesky_eq_error_iff_strandsAt (valid : matrix.IsCorrelation)
    (semidefinite : matrix.IsPositiveSemidefinite) {defect : CorrelationDefect α} :
    matrix.cholesky = .error defect ↔
      ∃ index pivot, matrix.StrandsAt index pivot ∧
        defect = .notPositiveSemiDefinite index pivot := by
  rw [cholesky_eq_error_iff valid.nearCorrelation, leadingColumns_eq_error_iff]
  constructor
  · rintro ⟨index, earlier, -, found, refuses, rfl⟩
    have stranded := (refuses_iff_of_semidefinite valid semidefinite found).mp refuses
    exact ⟨index, _, ⟨earlier, found, rfl, stranded⟩, rfl⟩
  · rintro ⟨index, _, ⟨earlier, found, rfl, stranded⟩, rfl⟩
    exact ⟨index, earlier, index.isLt, found,
      (refuses_iff_of_semidefinite valid semidefinite found).mpr stranded, rfl⟩

/-- A semidefinite correlation matrix is accepted unless the search strands on it. -/
theorem semidefinite_accepted_iff (valid : matrix.IsCorrelation)
    (semidefinite : matrix.IsPositiveSemidefinite) :
    ((∃ factor, matrix.cholesky = .ok factor) ∧ matrix.validate = .ok () ↔
      ∀ index pivot, ¬ matrix.StrandsAt index pivot) ∧
    ∀ index pivot, matrix.StrandsAt index pivot →
      matrix.cholesky = .error (.notPositiveSemiDefinite index pivot) ∧
        matrix.validate = .error (.notPositiveSemiDefinite index pivot) := by
  have refused (index : Fin n) (pivot : α) (stranded : matrix.StrandsAt index pivot) :
      matrix.cholesky = .error (.notPositiveSemiDefinite index pivot) :=
    (cholesky_eq_error_iff_strandsAt valid semidefinite).mpr ⟨index, pivot, stranded, rfl⟩
  refine ⟨⟨?_, fun never => ?_⟩, fun index pivot stranded =>
    ⟨refused index pivot stranded, validate_eq_error_iff.mpr (refused index pivot stranded)⟩⟩
  · rintro ⟨⟨factor, found⟩, -⟩ index pivot stranded
    rw [refused index pivot stranded] at found
    contradiction
  · cases found : matrix.cholesky with
    | error defect =>
      obtain ⟨index, pivot, stranded, -⟩ :=
        (cholesky_eq_error_iff_strandsAt valid semidefinite).mp found
      exact absurd stranded (never index pivot)
    | ok factor => exact ⟨⟨factor, rfl⟩, validate_eq_ok_iff.mpr ⟨factor, found⟩⟩

end Search

theorem semidefinite_accepted_iff_perfectPair :
    perfectPair.IsCorrelation ∧ perfectPair.IsPositiveSemidefinite ∧
      (∃ factor, perfectPair.cholesky = .ok factor) ∧ perfectPair.validate = .ok () := by
  have valid : perfectPair.IsCorrelation := by
    constructor <;> intros <;> norm_num [perfectPair]
  have semidefinite : perfectPair.IsPositiveSemidefinite := by
    intro weights
    have square : weights ⬝ᵥ Matrix.of perfectPair.entry *ᵥ weights =
        (weights 0 + weights 1) ^ 2 := by
      simp [perfectPair, mulVec, dotProduct, Fin.sum_univ_two]
      ring
    rw [square]
    exact sq_nonneg _
  refine ⟨valid, semidefinite, (semidefinite_accepted_iff valid semidefinite).1.mpr ?_⟩
  rintro index _ ⟨earlier, -, rfl, -, small, row, below, -⟩
  obtain rfl : index = 0 := by omega
  obtain rfl : earlier = #v[] := Vector.eq_empty
  norm_num [residual, perfectPair] at small

/-! ## A semidefinite matrix that is refused -/

/-- Three parameters in a row: neighbours have the given coefficients, the outer ones none. -/
def chain (first second : ℝ) : SquareMatrix ℝ 3 :=
  ⟨#v[#v[1, first, 0], #v[first, 1, second], #v[0, second, 1]]⟩

section Chain

variable {first second : ℝ}

theorem isCorrelation_chain (inside : first ^ 2 + second ^ 2 ≤ 1) :
    (chain first second).IsCorrelation := by
  have first_range := abs_le.mp (sq_le_one_iff_abs_le_one first |>.mp (by nlinarith))
  have second_range := abs_le.mp (sq_le_one_iff_abs_le_one second |>.mp (by nlinarith))
  constructor
  · simp [chain, entry, Fin.forall_fin_succ, first_range, second_range]
  · simp [chain, entry, Fin.forall_fin_succ]
  · simp [chain, entry, Fin.forall_fin_succ]

theorem isPositiveSemidefinite_chain (inside : first ^ 2 + second ^ 2 ≤ 1) :
    (chain first second).IsPositiveSemidefinite := by
  intro weights
  have squares : weights ⬝ᵥ Matrix.of (chain first second).entry *ᵥ weights =
      (weights 0 + first * weights 1) ^ 2 + (weights 2 + second * weights 1) ^ 2 +
        (1 - (first ^ 2 + second ^ 2)) * weights 1 ^ 2 := by
    simp [chain, entry, mulVec, dotProduct, Fin.sum_univ_three]
    ring
  have slack : 0 ≤ 1 - (first ^ 2 + second ^ 2) := sub_nonneg.mpr inside
  rw [squares]
  positivity

theorem cholesky_chain (inside : first ^ 2 + second ^ 2 ≤ 1) (small : 1 - first ^ 2 ≤ 1e-12)
    (large : 1e-8 < |second|) : (chain first second).cholesky =
      .error (.notPositiveSemiDefinite 1 (1 - first ^ 2)) := by
  have column : (chain first second).nextColumn #v[] 0 = .ok #v[1, first, 0] := by
    norm_num [nextColumn, residual, entry, chain]
    rfl
  have found : (chain first second).leadingColumns 1 (by omega) = .ok #v[#v[1, first, 0]] :=
    leadingColumns_succ_eq_ok_iff.mpr ⟨#v[], _, rfl, column, rfl⟩
  have pivot : (chain first second).residual #v[#v[1, first, 0]] 1 1 = 1 - first ^ 2 := by
    simp [residual, entry, chain, sq]
  have below : (chain first second).residual #v[#v[1, first, 0]] 2 1 = second := by
    simp [residual, entry, chain]
  have refuses : (chain first second).Refuses #v[#v[1, first, 0]] 1 :=
    .inr ⟨pivot.trans_le small, 2, by omega, by rwa [below]⟩
  have near := (isCorrelation_chain inside).nearCorrelation
  refine (cholesky_eq_error_iff near).mpr (leadingColumns_eq_error_iff.mpr ?_)
  exact ⟨1, _, by omega, found, refuses, congrArg _ pivot.symm⟩

end Chain

theorem semidefinite_refused_chain :
    (chain (1 - 1 / 2 ^ 41) (1 / 2 ^ 21)).IsCorrelation ∧
      (chain (1 - 1 / 2 ^ 41) (1 / 2 ^ 21)).IsPositiveSemidefinite ∧
      (chain (1 - 1 / 2 ^ 41) (1 / 2 ^ 21)).cholesky =
        .error (.notPositiveSemiDefinite 1 (1 - (1 - 1 / 2 ^ 41) ^ 2)) ∧
      (chain (1 - 1 / 2 ^ 41) (1 / 2 ^ 21)).validate =
        .error (.notPositiveSemiDefinite 1 (1 - (1 - 1 / 2 ^ 41) ^ 2)) := by
  have inside : (1 - 1 / 2 ^ 41 : ℝ) ^ 2 + (1 / 2 ^ 21) ^ 2 ≤ 1 := by norm_num
  have refused := cholesky_chain inside (by norm_num) (by norm_num)
  exact ⟨isCorrelation_chain inside, isPositiveSemidefinite_chain inside, refused,
    validate_eq_error_iff.mpr refused⟩

end SquareMatrix

end EconModel
