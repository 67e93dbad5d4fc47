import EconModel.Decimal.Layout

/-!
# Failures of evaluation

Why the value of an expression could not be had.  Such a failure never ends a run: it defers an
equation to a later pass or becomes a diagnostic.
-/

namespace EconModel

/-- Why the value of an expression could not be had. -/
inductive EvalError where
  /-- A variable has no value at a timestep, or not yet. -/
  | missingDependency (name : String) (timestep : Nat)
  /-- A name is neither a parameter, a scalar nor a variable. -/
  | unknownIdentifier (name : String)
  | unknownFunction (function : String)
  /-- An operand is of the wrong kind. -/
  | typeMismatch (expected found : String)
  /-- A number that was to be stored is infinite or undefined. -/
  | nonFinite (value : Float)
  | divisionByZero
  /-- A variable is asked for before the start of the run. -/
  | timeOutOfRange (name : String) (requested : Int64)
  /-- A function refuses its arguments. -/
  | callFailed (function reason : String)
  /-- Action blocks stand too deep inside one another. -/
  | blockDepthExceeded (limit : UInt64)
  deriving DecidableEq

namespace EvalError

/-- The name of the kind of a failure, by which programs tell them apart. -/
def code : EvalError → String
  | .missingDependency _ _ => "MissingDependency"
  | .unknownIdentifier _ => "UnknownIdentifier"
  | .unknownFunction _ => "UnknownFunction"
  | .typeMismatch _ _ => "TypeMismatch"
  | .nonFinite _ => "NonFinite"
  | .divisionByZero => "DivisionByZero"
  | .timeOutOfRange _ _ => "TimeOutOfRange"
  | .callFailed _ _ => "Function"
  | .blockDepthExceeded _ => "BlockDepthExceeded"

/-- The text that describes a failure. -/
def message : EvalError → String
  | .missingDependency name timestep =>
      "'" ++ name ++ "' has no value at timestep " ++ toString timestep ++ " yet"
  | .unknownIdentifier name => "Unknown identifier '" ++ name ++ "'"
  | .unknownFunction function => "Unknown function '" ++ function ++ "'"
  | .typeMismatch expected found => "Type mismatch: expected " ++ expected ++ ", found " ++ found
  | .nonFinite value =>
      "Expression evaluated to a non-finite number (" ++ Decimal.prose value ++ ")"
  | .divisionByZero => "Division by zero"
  | .timeOutOfRange name requested =>
      "'" ++ name ++ "' referenced at timestep " ++ toString requested.toInt ++
        ", before the start of the run"
  | .callFailed function reason => "Function '" ++ function ++ "' failed: " ++ reason
  | .blockDepthExceeded limit => "Action blocks nested deeper than " ++ toString limit.toNat

/-- Whether a failure says that a value is not available yet. -/
def isMissingDependency : EvalError → Bool
  | .missingDependency _ _ => true
  | _ => false

end EvalError

end EconModel
