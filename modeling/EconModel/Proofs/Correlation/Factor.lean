import EconModel.Proofs.Correlation.Columns

/-!
# Factors

A factor that the search finds is lower triangular with a nonnegative diagonal, and its product with
its own transpose is the correlation matrix, up to the tolerances of the checks.  No rounding is
involved: what separates the two are the columns that are skipped and the rows above the diagonal,
which the search never reads.
-/

namespace EconModel

open Finset (Iio)

variable {α : Type} [Field α] {n : ℕ}

namespace CholeskyFactor

variable {factor : CholeskyFactor α n}

/-- What the columns in front of an index leave of an entry. -/
def remainder (factor : CholeskyFactor α n) (matrix : SquareMatrix α n) (index row column : Fin n) :
    α :=
  matrix.entry row column - ∑ k ∈ Iio index, factor.entry row k * factor.entry column k

/-- What the columns in front of an index leave of its entry on the diagonal. -/
def pivot (factor : CholeskyFactor α n) (matrix : SquareMatrix α n) (index : Fin n) : α :=
  factor.remainder matrix index index index

theorem reconstruct_eq [CharZero α] (row column : Fin n) : factor.reconstruct row column =
    ∑ k, factor.entry row k * factor.entry column k := by
  rw [reconstruct, Scalar.sum_eq, Fin.sum_univ_def]

theorem reconstruct_comm [CharZero α] (row column : Fin n) :
    factor.reconstruct row column = factor.reconstruct column row := by
  simp only [reconstruct_eq, mul_comm]

/-- The columns behind a row do not contribute to a sum along it. -/
theorem sum_Iic_of_lower (lower : ∀ row column, row < column → factor.entry row column = 0)
    (row : Fin n) (weight : Fin n → α) :
    ∑ column ∈ Finset.Iic row, factor.entry row column * weight column =
      ∑ column, factor.entry row column * weight column := by
  refine Finset.sum_subset (Finset.subset_univ _) fun column _ behind => ?_
  rw [Finset.mem_Iic, not_le] at behind
  rw [lower row column behind, zero_mul]

theorem apply_eq [CharZero α] (lower : ∀ row column, row < column → factor.entry row column = 0)
    (draws : Vector α n) : factor.apply draws.toList =
      List.ofFn fun row => ∑ column, factor.entry row column * draws.get column := by
  rw [apply_toList]
  refine congrArg List.ofFn (funext fun row => ?_)
  have upTo : Finset.univ.filter (fun column : Fin n => column.val < row + 1) = Finset.Iic row := by
    ext column
    rw [Finset.mem_filter_univ, Finset.mem_Iic, Fin.le_def, Nat.lt_succ_iff]
  rw [coordinate, products, Scalar.sum_eq, List.sum_take_ofFn, upTo, sum_Iic_of_lower lower]

variable [LinearOrder α] [IsStrictOrderedRing α] [Elementary α] [ExactScalar α]
  {matrix : SquareMatrix α n}

/-- Every column of a factor has been found behind the ones in front of it. -/
theorem exists_finds (found : matrix.cholesky = .ok factor) (index : Fin n) :
    ∃ earlier : Vector (Vector α n) index, matrix.Finds earlier index (factor.columns.get index) ∧
      ∀ row column, matrix.residual earlier row column =
        factor.remainder matrix index row column := by
  have found_all := (SquareMatrix.cholesky_eq_ok_iff.mp found).2
  obtain ⟨earlier, -, taken, finds⟩ := SquareMatrix.exists_leadingColumns found_all index.isLt
  refine ⟨earlier, finds, fun row column => ?_⟩
  have front : Finset.univ.filter (fun k : Fin n => k.val < index) = Iio index := by
    ext k
    rw [Finset.mem_filter_univ, Finset.mem_Iio, Fin.lt_def]
  rw [SquareMatrix.residual_eq, taken, toList_eq_ofFn_get, List.map_take, List.map_ofFn,
    List.sum_take_ofFn, front]
  rfl

/-- A factor of a matrix, up to the tolerances with which matrices are accepted. -/
structure Factors (factor : CholeskyFactor α n) (matrix : SquareMatrix α n) : Prop where
  lower : ∀ row column, row < column → factor.entry row column = 0
  diagonal_nonneg : ∀ index, 0 ≤ factor.entry index index
  close : ∀ row column, |factor.reconstruct row column - matrix.entry row column| ≤ 1e-8 + 1e-12
  /-- The columns of small pivots are skipped, and these are all that are zero. -/
  skipped : ∀ index, (∀ row, factor.entry row index = 0) ↔ factor.pivot matrix index ≤ 1e-12
  apply_eq : ∀ draws : Vector α n, factor.apply draws.toList =
    List.ofFn fun row => ∑ column, factor.entry row column * draws.get column

theorem lower_of_cholesky (found : matrix.cholesky = .ok factor) (row column : Fin n)
    (above : row < column) : factor.entry row column = 0 := by
  obtain ⟨earlier, finds, -⟩ := exists_finds found column
  cases finds with
  | skipped _ _ _ zero => exact zero row
  | divided _ zero_above _ _ => exact zero_above row above

theorem diagonal_nonneg_of_cholesky (found : matrix.cholesky = .ok factor) (index : Fin n) :
    0 ≤ factor.entry index index := by
  obtain ⟨earlier, finds, -⟩ := exists_finds found index
  cases finds with
  | skipped _ _ _ zero => exact (zero index).ge
  | divided _ _ positive _ => exact positive.le

theorem skipped_iff_of_cholesky (found : matrix.cholesky = .ok factor) (index : Fin n) :
    (∀ row, factor.entry row index = 0) ↔ factor.pivot matrix index ≤ 1e-12 := by
  obtain ⟨earlier, finds, left⟩ := exists_finds found index
  rw [pivot, ← left]
  cases finds with
  | skipped _ small _ zero => exact iff_of_true zero small
  | divided large _ positive _ =>
    exact iff_of_false (fun zero => positive.ne' (zero index)) large.not_ge

/-- Below the diagonal the entry and its reconstruction differ by what is left of the entry when its
column has been found. -/
theorem entry_sub_reconstruct (found : matrix.cholesky = .ok factor) (row column : Fin n) :
    matrix.entry row column - factor.reconstruct row column =
      factor.remainder matrix column row column -
        factor.entry row column * factor.entry column column := by
  have upTo := sum_Iic_of_lower (lower_of_cholesky found) column (factor.entry row)
  rw [← Finset.Iio_insert, Finset.sum_insert Finset.notMem_Iio_self] at upTo
  rw [reconstruct_comm, reconstruct_eq, ← upTo, remainder]
  simp only [mul_comm (factor.entry row _)]
  ring

theorem close_of_cholesky_of_le (found : matrix.cholesky = .ok factor) {row column : Fin n}
    (below : column ≤ row) :
    |factor.reconstruct row column - matrix.entry row column| ≤ 1e-8 := by
  obtain ⟨earlier, finds, left⟩ := exists_finds found column
  rw [abs_sub_comm, entry_sub_reconstruct found, ← left]
  cases finds with
  | skipped lower upper rest zero =>
    have column_zero : factor.entry row column = 0 := zero row
    rw [column_zero, zero_mul, sub_zero]
    rcases below.eq_or_lt with rfl | strictly
    · exact abs_le.mpr ⟨le_trans (by norm_num) lower, upper.trans (by norm_num)⟩
    · exact rest row strictly
  | divided _ _ _ product =>
    have divides : factor.entry row column * factor.entry column column =
      matrix.residual earlier row column := product row below
    rw [divides, sub_self, abs_zero]
    norm_num

theorem close_of_cholesky (found : matrix.cholesky = .ok factor) (row column : Fin n) :
    |factor.reconstruct row column - matrix.entry row column| ≤ 1e-8 + 1e-12 := by
  have symmetric := (SquareMatrix.cholesky_eq_ok_iff.mp found).1.symmetric
  rcases le_total column row with below | above
  · exact (close_of_cholesky_of_le found below).trans (by norm_num)
  · rw [reconstruct_comm]
    calc |factor.reconstruct column row - matrix.entry row column|
        ≤ |factor.reconstruct column row - matrix.entry column row| +
            |matrix.entry column row - matrix.entry row column| := abs_sub_le _ _ _
      _ ≤ 1e-8 + 1e-12 := add_le_add (close_of_cholesky_of_le found above) (symmetric column row)

end CholeskyFactor

namespace SquareMatrix

open CholeskyFactor

variable [LinearOrder α] [IsStrictOrderedRing α] [Elementary α] [ExactScalar α]
  {matrix : SquareMatrix α n}

/-- Two parameters that always move together. -/
def perfectPair : SquareMatrix ℝ 2 := ofEntries fun _ _ => 1

theorem nearCorrelation_perfectPair : perfectPair.NearCorrelation := by
  constructor <;> intros <;> norm_num [perfectPair]

theorem cholesky_perfectPair : perfectPair.cholesky = .ok ⟨#v[#v[1, 1], #v[0, 0]]⟩ := by
  have first : perfectPair.nextColumn #v[] 0 = .ok #v[1, 1] := by
    norm_num [nextColumn, residual, perfectPair]
    rfl
  have second : perfectPair.nextColumn #v[#v[1, 1]] 1 = .ok #v[0, 0] := by
    norm_num [nextColumn, residual, perfectPair]
    rfl
  refine cholesky_eq_ok_iff.mpr ⟨nearCorrelation_perfectPair, ?_⟩
  refine leadingColumns_succ_eq_ok_iff.mpr ⟨#v[#v[1, 1]], _, ?_, second, rfl⟩
  exact leadingColumns_succ_eq_ok_iff.mpr ⟨#v[], _, rfl, first, rfl⟩

/-- What the search finds is a factor of the matrix. -/
theorem cholesky_factors {factor : CholeskyFactor α n} (found : matrix.cholesky = .ok factor) :
    factor.Factors matrix where
  lower := lower_of_cholesky found
  diagonal_nonneg := diagonal_nonneg_of_cholesky found
  close := close_of_cholesky found
  skipped := skipped_iff_of_cholesky found
  apply_eq := CholeskyFactor.apply_eq (lower_of_cholesky found)

theorem cholesky_factors_perfectPair :
    perfectPair.cholesky = .ok ⟨#v[#v[1, 1], #v[0, 0]]⟩ ∧
      CholeskyFactor.Factors ⟨#v[#v[1, 1], #v[0, 0]]⟩ perfectPair :=
  ⟨cholesky_perfectPair, cholesky_factors cholesky_perfectPair⟩

end SquareMatrix

end EconModel
