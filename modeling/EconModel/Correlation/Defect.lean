import EconModel.Decimal.Layout

/-!
# Defects of correlation matrices

Why a set of correlations cannot be sampled from.
-/

namespace EconModel

/-- Why a set of correlations cannot be sampled from. -/
inductive CorrelationDefect (α : Type) where
  /-- A row has the wrong length. -/
  | notSquare (row length expected : Nat)
  /-- A coefficient is outside the interval from minus one to one. -/
  | outOfRange (row column : Nat) (value : α)
  /-- Two coefficients that face each other across the diagonal differ. -/
  | notSymmetric (row column : Nat)
  /-- A coefficient of a parameter with itself is not one. -/
  | nonUnitDiagonal (index : Nat) (value : α)
  /-- The coefficients contradict one another. -/
  | notPositiveSemiDefinite (index : Nat) (pivot : α)
  /-- A pair is declared twice with different coefficients. -/
  | conflicting (first second : String) (earlier later : α)
  /-- A correlation names a parameter that does not exist. -/
  | unknownParameter (name : String)
  /-- A correlation names a parameter that is not drawn. -/
  | notStochastic (name : String)
  deriving DecidableEq

/-- The name of the kind of a defect, by which programs tell them apart. -/
def CorrelationDefect.code {α : Type} : CorrelationDefect α → String
  | .notSquare _ _ _ => "NotSquare"
  | .outOfRange _ _ _ => "CoefficientOutOfRange"
  | .notSymmetric _ _ => "NotSymmetric"
  | .nonUnitDiagonal _ _ => "NonUnitDiagonal"
  | .notPositiveSemiDefinite _ _ => "NotPositiveSemiDefinite"
  | .conflicting _ _ _ _ => "ConflictingCoefficient"
  | .unknownParameter _ => "UnknownParameter"
  | .notStochastic _ => "NotStochastic"

/-- The text that describes a defect. -/
def CorrelationDefect.message : CorrelationDefect Float → String
  | .notSquare row length expected =>
      "Correlation matrix is not square: row " ++ toString row ++ " has " ++ toString length ++
        " entries, expected " ++ toString expected
  | .outOfRange row column value =>
      "Correlation coefficient " ++ Decimal.prose value ++ " at (" ++ toString row ++ ", " ++
        toString column ++ ") is outside [-1, 1]"
  | .notSymmetric row column =>
      "Correlation matrix is not symmetric at (" ++ toString row ++ ", " ++ toString column ++ ")"
  | .nonUnitDiagonal index value =>
      "Correlation matrix diagonal entry " ++ toString index ++ " is " ++ Decimal.prose value ++
        ", expected 1"
  | .notPositiveSemiDefinite index pivot =>
      "Correlation matrix is not positive semi-definite (pivot " ++ Decimal.prose pivot ++
        " at index " ++ toString index ++ ")"
  | .conflicting first second earlier later =>
      "Conflicting correlation coefficients for '" ++ first ++ "' and '" ++ second ++ "': " ++
        Decimal.prose earlier ++ " vs " ++ Decimal.prose later
  | .unknownParameter name => "Correlation references unknown parameter '" ++ name ++ "'"
  | .notStochastic name => "Correlation references '" ++ name ++ "', which has no distribution"

end EconModel
