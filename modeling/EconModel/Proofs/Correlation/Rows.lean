import EconModel.Correlation.Matrix
import Mathlib

/-!
# Rows of a factor

What holds of a factor whether its entries are rounded or not: it is zero above the diagonal, so a
row of its product with a vector is a sum along the row up to the diagonal, and depends on nothing
of the vector behind it.
-/

namespace EconModel

theorem toList_eq_ofFn_get {α : Type} {n : ℕ} (entries : Vector α n) :
    entries.toList = List.ofFn entries.get := by
  rw [← Vector.toList_ofFn]
  exact congrArg Vector.toList Vector.ofFn_getElem.symm

namespace SquareMatrix

variable {α : Type} {n count : ℕ} {matrix : SquareMatrix α n} [Sub α] [Mul α] [Div α] [Neg α]
  [LT α] [LE α] [DecidableLT α] [DecidableLE α] [OfScientific α] [Elementary α]

theorem leadingColumns_succ_eq_ok_iff {bound : count + 1 ≤ n}
    {columns : Vector (Vector α n) (count + 1)} :
    matrix.leadingColumns (count + 1) bound = .ok columns ↔
      ∃ earlier column, matrix.leadingColumns count (Nat.le_of_succ_le bound) = .ok earlier ∧
        matrix.nextColumn earlier ⟨count, bound⟩ = .ok column ∧ columns = earlier.push column := by
  rw [leadingColumns]
  cases matrix.leadingColumns count (Nat.le_of_succ_le bound) with
  | error defect => simp [bind, Except.bind]
  | ok earlier =>
    cases found : matrix.nextColumn earlier ⟨count, bound⟩ with
    | error defect => simp [found, bind, Except.bind]
    | ok column => simp [found, bind, Except.bind, pure, Except.pure, eq_comm]

/-- A column is zero above the diagonal, whether it is skipped or divided. -/
theorem get_eq_zero_of_nextColumn {columns : Vector (Vector α n) count} {index : Fin n}
    {column : Vector α n} (found : matrix.nextColumn columns index = .ok column) {row : Fin n}
    (above : row < index) : column.get row = 0.0 := by
  unfold nextColumn at found
  dsimp only at found
  split at found
  · cases found
  · split at found
    · split at found
      · cases found
      · cases found
        simp [Vector.get_eq_getElem]
    · cases found
      simp [Vector.get_eq_getElem, above]

theorem get_eq_zero_of_leadingColumns {bound : count ≤ n} {columns : Vector (Vector α n) count}
    (found : matrix.leadingColumns count bound = .ok columns) {row : Fin n} {place : Fin count}
    (above : row.val < place.val) : (columns.get place).get row = 0.0 := by
  induction count with
  | zero => exact place.elim0
  | succ count ih =>
    obtain ⟨earlier, column, found_earlier, found_column, rfl⟩ :=
      leadingColumns_succ_eq_ok_iff.mp found
    rcases Nat.lt_succ_iff_lt_or_eq.mp place.isLt with before | here
    · have kept : (earlier.push column).get place = earlier.get ⟨place, before⟩ := by
        simp [Vector.get_eq_getElem, before]
      rw [kept]
      exact ih found_earlier above
    · have last : (earlier.push column).get place = column := by
        simp [Vector.get_eq_getElem, here]
      rw [last]
      exact get_eq_zero_of_nextColumn found_column (show row.val < count from here ▸ above)

theorem leadingColumns_of_cholesky {factor : CholeskyFactor α n}
    (found : matrix.cholesky = .ok factor) :
    matrix.leadingColumns n (Nat.le_refl n) = .ok factor.columns := by
  unfold cholesky at found
  cases checked : matrix.checkEntries with
  | error defect => simp [checked, bind, Except.bind] at found
  | ok _ =>
    cases columns_eq : matrix.leadingColumns n (Nat.le_refl n) with
    | error defect => simp [checked, columns_eq, bind, Except.bind] at found
    | ok columns =>
      simp only [checked, columns_eq, bind, Except.bind, pure, Except.pure] at found
      cases found
      rfl

/-- A factor is lower triangular. -/
theorem entry_eq_zero_of_cholesky {factor : CholeskyFactor α n}
    (found : matrix.cholesky = .ok factor) {row column : Fin n} (above : row < column) :
    factor.entry row column = 0.0 :=
  get_eq_zero_of_leadingColumns (leadingColumns_of_cholesky found) above

end SquareMatrix

namespace CholeskyFactor

variable {α : Type} {n : ℕ} {factor : CholeskyFactor α n}

theorem leadingRow_eq_take (row : Fin n) :
    factor.leadingRow row = (List.ofFn (factor.entry row)).take (row + 1) := by
  have front : ((List.finRange n).take (row + 1)).filter (fun column => decide (column ≤ row)) =
      (List.finRange n).take (row + 1) := by
    refine List.filter_eq_self.mpr fun column front => ?_
    obtain ⟨place, inside, rfl⟩ := List.mem_take_iff_getElem.mp front
    rw [List.getElem_finRange, decide_eq_true_eq, Fin.le_def]
    exact Nat.lt_succ_iff.mp (lt_min_iff.mp inside).1
  have back : ((List.finRange n).drop (row + 1)).filter (fun column => decide (column ≤ row)) =
      [] := by
    refine List.filter_eq_nil_iff.mpr fun column back => ?_
    obtain ⟨place, inside, rfl⟩ := List.mem_drop_iff_getElem.mp back
    rw [List.getElem_finRange, decide_eq_true_eq, Fin.le_def]
    exact Nat.not_le_of_lt (Nat.lt_of_succ_le (Nat.le_add_right _ _))
  rw [leadingRow, ← List.take_append_drop (row + 1) (List.finRange n), List.filter_append, front,
    back, List.append_nil, List.ofFn_eq_map, List.map_take]

variable [Mul α]

/-- The products along a row up to the diagonal. -/
def products (factor : CholeskyFactor α n) (draws : Vector α n) (row : Fin n) : List α :=
  (List.ofFn fun column => factor.entry row column * draws.get column).take (row + 1)

theorem zipWith_leadingRow (draws : Vector α n) (row : Fin n) :
    List.zipWith (· * ·) (factor.leadingRow row) draws.toList = factor.products draws row := by
  rw [leadingRow_eq_take, products]
  apply List.ext_getElem <;> simp [Vector.get_eq_getElem]

variable [Add α] [Neg α] [OfScientific α]

/-- A coordinate of the product of a factor with a vector. -/
def coordinate (factor : CholeskyFactor α n) (draws : Vector α n) (row : Fin n) : α :=
  Scalar.sum (factor.products draws row)

theorem apply_toList (draws : Vector α n) :
    factor.apply draws.toList = List.ofFn (factor.coordinate draws) := by
  simp only [apply, zipWith_leadingRow, List.ofFn_eq_map]
  rfl

/-- A coordinate does not depend on what is behind it in the vector. -/
theorem coordinate_congr {draws other : Vector α n} {row : Fin n}
    (agree : ∀ column ≤ row, draws.get column = other.get column) :
    factor.coordinate draws row = factor.coordinate other row := by
  have same : factor.products draws row = factor.products other row := by
    refine List.ext_getElem (by simp [products]) fun place inside _ => ?_
    have upTo : place ≤ row := by
      simp only [products, List.length_take, List.length_ofFn] at inside
      omega
    simp only [products, List.getElem_take, List.getElem_ofFn]
    rw [agree _ upTo]
  rw [coordinate, coordinate, same]

end CholeskyFactor

end EconModel
