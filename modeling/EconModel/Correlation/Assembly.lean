import EconModel.Correlation.Matrix
import EconModel.Model

/-!
# Assembly of correlations

The correlations that a model declares are put together into one matrix over its stochastic
parameters.  Pairs that are not declared are independent; a pair may be declared again as long as
its coefficient stays the same.
-/

namespace EconModel

/-- A declared pair: two names and their coefficient. -/
structure CorrelatedPair (α : Type) where
  first : String
  second : String
  coefficient : α

namespace Correlation

variable {α : Type} {n : Nat} [Sub α] [LT α] [DecidableLT α] [OfScientific α] [Elementary α]

/-- The last position of a name. -/
def position? (names : Vector String n) (name : String) : Option (Fin n) :=
  (List.finRange n).reverse.find? fun index => names.get index = name

/-- Coefficients that have been assigned to two positions, the smaller position in front. -/
abbrev Assigned (α : Type) (n : Nat) := List ((Fin n × Fin n) × α)

/-- The coefficient assigned to two positions. -/
def Assigned.find? (assigned : Assigned α n) (place : Fin n × Fin n) : Option α :=
  (List.find? (fun entry => decide (entry.1 = place)) assigned).map Prod.snd

/-- Two positions, the smaller one in front. -/
def ordered (first second : Fin n) : Fin n × Fin n :=
  if first ≤ second then (first, second) else (second, first)

/-- The position of a name that has to be known. -/
def position (names : Vector String n) (name : String) : Except (CorrelationDefect α) (Fin n) :=
  match position? names name with
  | some index => .ok index
  | none => .error (.unknownParameter name)

/-- Take up one declared pair.  Of a pair that is declared again, the first coefficient counts. -/
def assign (names : Vector String n) (assigned : Assigned α n) (pair : CorrelatedPair α) :
    Except (CorrelationDefect α) (Assigned α n) := do
  let first ← position names pair.first
  let second ← position names pair.second
  if first = second then
    if SquareMatrix.tolerance < Elementary.abs (pair.coefficient - 1.0) then
      .error (.nonUnitDiagonal first pair.coefficient)
    else return assigned
  else
    let place := ordered first second
    match assigned.find? place with
    | some earlier =>
        if SquareMatrix.tolerance < Elementary.abs (earlier - pair.coefficient) then
          .error (.conflicting names[place.1] names[place.2] earlier pair.coefficient)
        else return assigned
    | none => return assigned ++ [(place, pair.coefficient)]

/-- The matrix that carries the assigned coefficients. -/
def matrixOf (assigned : Assigned α n) : SquareMatrix α n :=
  SquareMatrix.ofEntries fun row column =>
    if row = column then 1.0 else (assigned.find? (ordered row column)).getD 0.0

/-- The correlation matrix over some names that is declared by pairs. -/
def ofPairs (names : Vector String n) (pairs : List (CorrelatedPair α)) :
    Except (CorrelationDefect α) (SquareMatrix α n) := do
  return matrixOf (← pairs.foldlM (assign names) [])

/-! ## Correlations of a model -/

/-- Check that a name is that of a stochastic parameter. -/
def checkReference (model : Model) (name : String) : Except (CorrelationDefect Float) Unit :=
  match model.parameter? name with
  | none => .error (.unknownParameter name)
  | some parameter => if parameter.isStochastic then .ok () else .error (.notStochastic name)

/-- The pairs that the model declares, after a check of their names. -/
def modelPairs (model : Model) : Except (CorrelationDefect Float) (List (CorrelatedPair Float)) :=
  model.correlations.mapM fun spec => do
    checkReference model spec.first
    checkReference model spec.second
    return ⟨spec.first, spec.second, spec.coefficient⟩

/-- The pairs that a parameter declares, after a check of their names. -/
def parameterPairs (model : Model) (parameter : Parameter) :
    Except (CorrelationDefect Float) (List (CorrelatedPair Float)) :=
  parameter.partners.mapM fun partner => do
    checkReference model partner.parameter
    return ⟨parameter.name, partner.parameter, partner.coefficient⟩

/-- All declared pairs of a model: its own, then those of its parameters in order. -/
def declaredPairs (model : Model) :
    Except (CorrelationDefect Float) (List (CorrelatedPair Float)) := do
  let declared ← modelPairs model
  let inline ← model.parameters.mapM (parameterPairs model)
  return declared ++ inline.flatten

/-- The names of the stochastic parameters of a model. -/
def stochasticNames (model : Model) : Vector String model.stochasticParameters.length :=
  Vector.ofFn fun index => model.stochasticParameters[index].1

/-- The correlation matrix over the stochastic parameters of a model. -/
def ofModel (model : Model) :
    Except (CorrelationDefect Float) (SquareMatrix Float model.stochasticParameters.length) := do
  ofPairs (stochasticNames model) (← declaredPairs model)

end Correlation

end EconModel
