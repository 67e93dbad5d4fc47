import EconModel.Correlation.Defect
import EconModel.Scalar

/-!
# Correlation matrices

Square matrices of correlation coefficients and their lower triangular factors.  A factor is found
column by column; a column whose pivot vanishes is zero, provided that what is left below the pivot
vanishes as well, so matrices of lower rank are accepted.
-/

namespace EconModel

/-- A square matrix. -/
structure SquareMatrix (α : Type) (n : Nat) where
  rows : Vector (Vector α n) n

namespace SquareMatrix

variable {α : Type} {n : Nat}

/-- The entry in a row and a column. -/
def entry (matrix : SquareMatrix α n) (row column : Fin n) : α := matrix.rows[row][column]

/-- The matrix with given entries. -/
def ofEntries (entries : Fin n → Fin n → α) : SquareMatrix α n :=
  ⟨Vector.ofFn fun row => Vector.ofFn fun column => entries row column⟩

@[simp]
theorem entry_ofEntries (entries : Fin n → Fin n → α) (row column : Fin n) :
    (ofEntries entries).entry row column = entries row column := by
  simp [entry, ofEntries]

/-- The matrix with given rows, which all have to be as long as there are rows. -/
def ofRows (rows : List (List α)) :
    Except (CorrelationDefect α) ((n : Nat) × SquareMatrix α n) :=
  match ragged : rows.findIdx? fun row => row.length != rows.length with
  | some index => .error (.notSquare index (rows.getD index []).length rows.length)
  | none =>
      .ok ⟨rows.length, ofEntries fun row column =>
        rows[row].get ⟨column.val, by
          have length_eq := List.findIdx?_eq_none_iff.1 ragged rows[row]
            (List.getElem_mem row.isLt)
          simp only [bne_eq_false_iff_eq] at length_eq
          exact length_eq.symm ▸ column.isLt⟩⟩

/-- All places of a matrix, row by row. -/
def places (n : Nat) : List (Fin n × Fin n) :=
  (List.finRange n).flatMap fun row => (List.finRange n).map fun column => (row, column)

variable [Add α] [Sub α] [Mul α] [Div α] [Neg α] [LT α] [LE α] [DecidableLT α] [DecidableLE α]
  [OfScientific α] [Elementary α]

/-- The matrix of independent parameters. -/
def identity (n : Nat) : SquareMatrix α n :=
  ofEntries fun row column => if row = column then 1.0 else 0.0

/-- Whether every entry off the diagonal is zero. -/
def isIdentity [BEq α] (matrix : SquareMatrix α n) : Bool :=
  (places n).all fun (row, column) => row = column || matrix.entry row column == 0.0

/-! ## Checks -/

/-- How far two coefficients may lie apart that should agree. -/
def tolerance : α := 1e-12

/-- The first entry that is not a coefficient. -/
def rangeDefect? (matrix : SquareMatrix α n) : Option (CorrelationDefect α) :=
  (places n).findSome? fun (row, column) =>
    let value := matrix.entry row column
    if Scalar.within (-1.0) 1.0 value then none else some (.outOfRange row column value)

/-- The first entry above the diagonal that differs from the one below it. -/
def symmetryDefect? (matrix : SquareMatrix α n) : Option (CorrelationDefect α) :=
  (places n).findSome? fun (row, column) =>
    if row < column ∧
        tolerance < Elementary.abs (matrix.entry row column - matrix.entry column row) then
      some (.notSymmetric row column)
    else none

/-- The first entry on the diagonal that is not one. -/
def diagonalDefect? (matrix : SquareMatrix α n) : Option (CorrelationDefect α) :=
  (List.finRange n).findSome? fun index =>
    let value := matrix.entry index index
    if tolerance < Elementary.abs (value - 1.0) then some (.nonUnitDiagonal index value) else none

/-- Check the range of the entries, then symmetry, then the diagonal. -/
def checkEntries (matrix : SquareMatrix α n) : Except (CorrelationDefect α) Unit :=
  match matrix.rangeDefect?.or (matrix.symmetryDefect?.or matrix.diagonalDefect?) with
  | some defect => .error defect
  | none => .ok ()

/-! ## Factors -/

/-- What is left of an entry when the contributions of some columns are taken off. -/
def residual (matrix : SquareMatrix α n) {count : Nat} (columns : Vector (Vector α n) count)
    (row column : Fin n) : α :=
  columns.toList.foldl (fun rest done => rest - done[row] * done[column])
    (matrix.entry row column)

/-- The column of the factor behind the given ones. -/
def nextColumn (matrix : SquareMatrix α n) {count : Nat} (columns : Vector (Vector α n) count)
    (index : Fin n) : Except (CorrelationDefect α) (Vector α n) :=
  let pivot := matrix.residual columns index index
  if pivot < -1e-10 then .error (.notPositiveSemiDefinite index pivot)
  else if pivot ≤ 1e-12 then
    if (List.finRange n).any fun row =>
        decide (index < row) && decide (1e-8 < Elementary.abs (matrix.residual columns row index))
    then .error (.notPositiveSemiDefinite index pivot)
    else .ok (Vector.replicate n 0.0)
  else
    let diagonal := Elementary.sqrt pivot
    .ok <| Vector.ofFn fun row =>
      if row < index then 0.0
      else if row = index then diagonal
      else matrix.residual columns row index / diagonal

/-- The first columns of the factor. -/
def leadingColumns (matrix : SquareMatrix α n) :
    (count : Nat) → count ≤ n → Except (CorrelationDefect α) (Vector (Vector α n) count)
  | 0, _ => .ok #v[]
  | count + 1, bound => do
      let columns ← leadingColumns matrix count (Nat.le_of_succ_le bound)
      let column ← matrix.nextColumn columns ⟨count, bound⟩
      return columns.push column

end SquareMatrix

/-- A lower triangular factor of a correlation matrix, which is its product with its own
transpose. -/
structure CholeskyFactor (α : Type) (n : Nat) where
  columns : Vector (Vector α n) n

namespace CholeskyFactor

variable {α : Type} {n : Nat}

/-- The entry in a row and a column; it is zero above the diagonal. -/
def entry (factor : CholeskyFactor α n) (row column : Fin n) : α := factor.columns[column][row]

variable [Add α] [Mul α] [Neg α] [OfScientific α]

/-- The entries of a row up to the diagonal. -/
def leadingRow (factor : CholeskyFactor α n) (row : Fin n) : List α :=
  ((List.finRange n).filter fun column => decide (column ≤ row)).map fun column =>
    factor.entry row column

/-- The product of a factor with a vector; what a short vector lacks is left out of the sums. -/
def apply (factor : CholeskyFactor α n) (z : List α) : List α :=
  (List.finRange n).map fun row => Scalar.sum (List.zipWith (· * ·) (factor.leadingRow row) z)

/-- An entry of the product of a factor with its own transpose. -/
def reconstruct (factor : CholeskyFactor α n) (row column : Fin n) : α :=
  Scalar.sum <| (List.finRange n).map fun k => factor.entry row k * factor.entry column k

end CholeskyFactor

namespace SquareMatrix

variable {α : Type} {n : Nat} [Add α] [Sub α] [Mul α] [Div α] [Neg α] [LT α] [LE α] [DecidableLT α]
  [DecidableLE α] [OfScientific α] [Elementary α]

/-- The lower triangular factor of a correlation matrix. -/
def cholesky (matrix : SquareMatrix α n) : Except (CorrelationDefect α) (CholeskyFactor α n) := do
  matrix.checkEntries
  return ⟨← matrix.leadingColumns n (Nat.le_refl n)⟩

/-- Check range, symmetry, diagonal and positive semi-definiteness; the first defect is returned. -/
def validate (matrix : SquareMatrix α n) : Except (CorrelationDefect α) Unit := do
  let _ ← matrix.cholesky
  return ()

end SquareMatrix

end EconModel
