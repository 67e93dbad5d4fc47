import EconModel.Proofs.Correlation.Rows
import EconModel.Proofs.Scalar

/-!
# Columns of a factor

The factor of a correlation matrix is found column by column.  A column is determined by what the
ones in front of it have left of the matrix, and it is found in one of two ways: divided by the root
of its pivot, or skipped.  This file says once when each happens, and when the search ends.
-/

namespace EconModel

namespace SquareMatrix

variable {α : Type} [Field α] {n count : ℕ} {matrix : SquareMatrix α n}

/-! ## What is left of the entries -/

theorem residual_eq (columns : Vector (Vector α n) count) (row column : Fin n) :
    matrix.residual columns row column = matrix.entry row column -
      (columns.toList.map fun done => done.get row * done.get column).sum :=
  Scalar.foldl_sub_eq _ _ _

@[simp]
theorem residual_push (columns : Vector (Vector α n) count) (next : Vector α n)
    (row column : Fin n) : matrix.residual (columns.push next) row column =
      matrix.residual columns row column - next.get row * next.get column := by
  simp [residual, Vector.get_eq_getElem]

variable [LinearOrder α] [IsStrictOrderedRing α]

/-! ## Checks of the entries -/

/-- The entries of a matrix are those of a correlation matrix, up to a tolerance. -/
structure NearCorrelation (matrix : SquareMatrix α n) : Prop where
  range : ∀ row column, -1 ≤ matrix.entry row column ∧ matrix.entry row column ≤ 1
  symmetric : ∀ row column,
    |matrix.entry row column - matrix.entry column row| ≤ 1e-12
  diagonal : ∀ index, |matrix.entry index index - 1| ≤ 1e-12

theorem mem_places (row column : Fin n) : (row, column) ∈ places n := by
  simp [places]

theorem rangeDefect?_eq_none_iff : matrix.rangeDefect? = none ↔
    ∀ row column, -1 ≤ matrix.entry row column ∧ matrix.entry row column ≤ 1 := by
  rw [rangeDefect?, List.findSome?_eq_none_iff, Prod.forall]
  refine forall₂_congr fun row column => ?_
  simp [mem_places, Scalar.within, Scalar.one_eq]

variable [Elementary α] [ExactScalar α]

theorem symmetryDefect?_eq_none_iff : matrix.symmetryDefect? = none ↔
    ∀ row column, |matrix.entry row column - matrix.entry column row| ≤ 1e-12 := by
  -- Only the entries above the diagonal are looked at.
  have above : matrix.symmetryDefect? = none ↔ ∀ row column, row < column →
      |matrix.entry row column - matrix.entry column row| ≤ 1e-12 := by
    rw [symmetryDefect?, List.findSome?_eq_none_iff, Prod.forall]
    refine forall₂_congr fun row column => ?_
    simp [mem_places, tolerance, ExactScalar.abs_eq]
  rw [above]
  refine ⟨fun upper row column => ?_, fun all row column _ => all row column⟩
  rcases lt_trichotomy row column with less | rfl | greater
  · exact upper row column less
  · rw [sub_self, abs_zero]
    norm_num
  · rw [abs_sub_comm]
    exact upper column row greater

theorem diagonalDefect?_eq_none_iff : matrix.diagonalDefect? = none ↔
    ∀ index, |matrix.entry index index - 1| ≤ 1e-12 := by
  rw [diagonalDefect?, List.findSome?_eq_none_iff]
  refine forall_congr' fun index => ?_
  simp [tolerance, ExactScalar.abs_eq, Scalar.one_eq]

theorem checkEntries_eq_ok_iff : matrix.checkEntries = .ok () ↔ matrix.NearCorrelation := by
  have none_iff : matrix.rangeDefect?.or (matrix.symmetryDefect?.or matrix.diagonalDefect?) = none ↔
      matrix.NearCorrelation := by
    rw [Option.or_eq_none_iff, Option.or_eq_none_iff, rangeDefect?_eq_none_iff,
      symmetryDefect?_eq_none_iff, diagonalDefect?_eq_none_iff]
    exact ⟨fun ⟨range, symmetric, diagonal⟩ => ⟨range, symmetric, diagonal⟩,
      fun near => ⟨near.range, near.symmetric, near.diagonal⟩⟩
  rw [← none_iff, checkEntries]
  split
  · next defect found => simp [found]
  · next none_found => exact iff_of_true rfl none_found

/-! ## One column -/

/-- How the column of an index is found behind some columns.  If its pivot vanishes, what is left
below the pivot has to vanish too, and the column is zero.  Otherwise the products of its entries
with the one on the diagonal are what is left of the matrix. -/
inductive Finds (matrix : SquareMatrix α n) (columns : Vector (Vector α n) count) (index : Fin n)
    (column : Vector α n) : Prop where
  | skipped (lower : -1e-10 ≤ matrix.residual columns index index)
      (upper : matrix.residual columns index index ≤ 1e-12)
      (below : ∀ row, index < row → |matrix.residual columns row index| ≤ 1e-8)
      (zero : ∀ row : Fin n, column.get row = 0)
  | divided (large : 1e-12 < matrix.residual columns index index)
      (above : ∀ row : Fin n, row < index → column.get row = 0)
      (diagonal : 0 < column.get index)
      (product : ∀ row : Fin n, index ≤ row →
        column.get row * column.get index = matrix.residual columns row index)

/-- The pivot of an index is negative, or it vanishes and what is left below it does not. -/
def Refuses (matrix : SquareMatrix α n) (columns : Vector (Vector α n) count) (index : Fin n) :
    Prop :=
  matrix.residual columns index index < -1e-10 ∨
    matrix.residual columns index index ≤ 1e-12 ∧
      ∃ row, index < row ∧ 1e-8 < |matrix.residual columns row index|

theorem any_below_iff {columns : Vector (Vector α n) count} {index : Fin n} :
    ((List.finRange n).any fun row => decide (index < row) &&
      decide (1e-8 < Elementary.abs (matrix.residual columns row index))) = true ↔
        ∃ row, index < row ∧ 1e-8 < |matrix.residual columns row index| := by
  simp [ExactScalar.abs_eq]

theorem nextColumn_of_refuses {columns : Vector (Vector α n) count} {index : Fin n}
    (refuses : matrix.Refuses columns index) : matrix.nextColumn columns index =
      .error (.notPositiveSemiDefinite index (matrix.residual columns index index)) := by
  rw [nextColumn]
  rcases refuses with negative | ⟨small, left⟩
  · rw [if_pos negative]
  · rw [if_pos small, if_pos (any_below_iff.mpr left), ite_self]

theorem finds_divided {columns : Vector (Vector α n) count} {index : Fin n}
    (large : 1e-12 < matrix.residual columns index index) :
    matrix.Finds columns index (Vector.ofFn fun row =>
      if row < index then 0.0
      else if row = index then Elementary.sqrt (matrix.residual columns index index)
      else matrix.residual columns row index /
        Elementary.sqrt (matrix.residual columns index index)) := by
  have positive : 0 < matrix.residual columns index index := lt_trans (by norm_num) large
  have root_pos := ExactScalar.sqrt_pos positive
  refine .divided large ?_ ?_ ?_
  · intro row above
    simp [above, Scalar.zero_eq]
  · simpa using root_pos
  · intro row notAbove
    rcases notAbove.eq_or_lt with rfl | below
    · simpa using ExactScalar.sqrt_mul_self positive
    · simp [below.not_gt, below.ne', root_pos.ne']

/-- Either a column is found or the matrix is refused. -/
theorem refuses_or_finds (columns : Vector (Vector α n) count) (index : Fin n) :
    matrix.Refuses columns index ∨
      ∃ column, matrix.nextColumn columns index = .ok column ∧ matrix.Finds columns index column := by
  by_cases refuses : matrix.Refuses columns index
  · exact .inl refuses
  · right
    rw [Refuses, not_or, not_lt, not_and] at refuses
    obtain ⟨lower, vanishes⟩ := refuses
    rw [nextColumn, if_neg lower.not_gt]
    by_cases upper : matrix.residual columns index index ≤ 1e-12
    · have below : ∀ row, index < row → |matrix.residual columns row index| ≤ 1e-8 :=
        fun row below => not_lt.mp fun large => vanishes upper ⟨row, below, large⟩
      rw [if_pos upper, if_neg (any_below_iff.not.mpr (vanishes upper))]
      exact ⟨_, rfl, .skipped lower upper below fun row => by simp [Scalar.zero_eq]⟩
    · rw [if_neg upper]
      exact ⟨_, rfl, finds_divided (not_le.mp upper)⟩

theorem nextColumn_eq_error_iff {columns : Vector (Vector α n) count} {index : Fin n}
    {defect : CorrelationDefect α} : matrix.nextColumn columns index = .error defect ↔
      matrix.Refuses columns index ∧
        defect = .notPositiveSemiDefinite index (matrix.residual columns index index) := by
  constructor
  · intro failed
    rcases matrix.refuses_or_finds columns index with refuses | ⟨column, found, _⟩
    · rw [nextColumn_of_refuses refuses, Except.error.injEq] at failed
      exact ⟨refuses, failed.symm⟩
    · rw [found] at failed
      contradiction
  · rintro ⟨refuses, rfl⟩
    exact nextColumn_of_refuses refuses

theorem finds_of_nextColumn {columns : Vector (Vector α n) count} {index : Fin n}
    {column : Vector α n} (found : matrix.nextColumn columns index = .ok column) :
    matrix.Finds columns index column := by
  rcases matrix.refuses_or_finds columns index with refuses | ⟨other, found_other, finds⟩
  · rw [nextColumn_of_refuses refuses] at found
    contradiction
  · rw [found, Except.ok.injEq] at found_other
    exact found_other ▸ finds

/-! ## All columns -/

omit [IsStrictOrderedRing α] [ExactScalar α] in
theorem leadingColumns_succ_eq_error_iff {bound : count + 1 ≤ n} {defect : CorrelationDefect α} :
    matrix.leadingColumns (count + 1) bound = .error defect ↔
      matrix.leadingColumns count (Nat.le_of_succ_le bound) = .error defect ∨
        ∃ earlier, matrix.leadingColumns count (Nat.le_of_succ_le bound) = .ok earlier ∧
          matrix.nextColumn earlier ⟨count, bound⟩ = .error defect := by
  rw [leadingColumns]
  cases matrix.leadingColumns count (Nat.le_of_succ_le bound) with
  | error defect => simp [bind, Except.bind]
  | ok earlier =>
    cases found : matrix.nextColumn earlier ⟨count, bound⟩ with
    | error defect => simp [found, bind, Except.bind]
    | ok column => simp [found, bind, Except.bind, pure, Except.pure]

/-- Every column has been found behind the ones in front of it. -/
theorem exists_leadingColumns {bound : count ≤ n} {columns : Vector (Vector α n) count}
    (found : matrix.leadingColumns count bound = .ok columns) {index : Fin n}
    (inside : index.val < count) :
    ∃ earlier : Vector (Vector α n) index, matrix.leadingColumns index index.isLt.le = .ok earlier ∧
      earlier.toList = columns.toList.take index ∧
      matrix.Finds earlier index columns[index] := by
  induction count with
  | zero => exact absurd inside (Nat.not_lt_zero _)
  | succ count ih =>
    obtain ⟨earlier, column, found_earlier, found_column, rfl⟩ :=
      leadingColumns_succ_eq_ok_iff.mp found
    rcases Nat.lt_succ_iff_lt_or_eq.mp inside with before | here
    · obtain ⟨first, found_first, taken, finds⟩ := ih found_earlier before
      refine ⟨first, found_first, ?_, ?_⟩
      · rw [taken, Vector.toList_push, List.take_append_of_le_length]
        simpa using before.le
      · simpa [before] using finds
    · obtain rfl : index = ⟨count, bound⟩ := Fin.ext here
      refine ⟨earlier, found_earlier, ?_, ?_⟩
      · rw [Vector.toList_push, List.take_left' earlier.length_toList]
      · simpa using finds_of_nextColumn found_column

/-- The search ends at the first index that is refused. -/
theorem leadingColumns_eq_error_iff {bound : count ≤ n} {defect : CorrelationDefect α} :
    matrix.leadingColumns count bound = .error defect ↔
      ∃ (index : Fin n) (earlier : Vector (Vector α n) index), index.val < count ∧
        matrix.leadingColumns index index.isLt.le = .ok earlier ∧ matrix.Refuses earlier index ∧
        defect = .notPositiveSemiDefinite index (matrix.residual earlier index index) := by
  induction count with
  | zero => simp [leadingColumns]
  | succ count ih =>
    rw [leadingColumns_succ_eq_error_iff, ih]
    constructor
    · rintro (⟨index, earlier, inside, rest⟩ | ⟨earlier, found, refused⟩)
      · exact ⟨index, earlier, Nat.lt_succ_of_lt inside, rest⟩
      · exact ⟨⟨count, bound⟩, earlier, Nat.lt_succ_self count, found,
          nextColumn_eq_error_iff.mp refused⟩
    · rintro ⟨index, earlier, inside, found, refused⟩
      rcases Nat.lt_succ_iff_lt_or_eq.mp inside with before | here
      · exact .inl ⟨index, earlier, before, found, refused⟩
      · obtain rfl : index = ⟨count, bound⟩ := Fin.ext here
        exact .inr ⟨earlier, found, nextColumn_eq_error_iff.mpr refused⟩

theorem cholesky_eq_ok_iff {factor : CholeskyFactor α n} : matrix.cholesky = .ok factor ↔
    matrix.NearCorrelation ∧ matrix.leadingColumns n le_rfl = .ok factor.columns := by
  rw [cholesky, ← checkEntries_eq_ok_iff]
  cases matrix.checkEntries with
  | error defect => simp [bind, Except.bind]
  | ok _ =>
    cases matrix.leadingColumns n le_rfl with
    | error defect => simp [bind, Except.bind]
    | ok columns => cases factor; simp [bind, Except.bind, pure, Except.pure]

theorem cholesky_eq_error_iff (near : matrix.NearCorrelation) {defect : CorrelationDefect α} :
    matrix.cholesky = .error defect ↔ matrix.leadingColumns n le_rfl = .error defect := by
  rw [cholesky, checkEntries_eq_ok_iff.mpr near]
  cases matrix.leadingColumns n le_rfl <;> simp [bind, Except.bind, pure, Except.pure]

omit [IsStrictOrderedRing α] [ExactScalar α] in
theorem validate_eq_ok_iff : matrix.validate = .ok () ↔ ∃ factor, matrix.cholesky = .ok factor := by
  rw [validate]
  cases matrix.cholesky <;> simp [bind, Except.bind, pure, Except.pure]

omit [IsStrictOrderedRing α] [ExactScalar α] in
theorem validate_eq_error_iff {defect : CorrelationDefect α} :
    matrix.validate = .error defect ↔ matrix.cholesky = .error defect := by
  rw [validate]
  cases matrix.cholesky <;> simp [bind, Except.bind, pure, Except.pure]

end SquareMatrix

end EconModel
