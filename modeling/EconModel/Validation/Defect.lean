import EconModel.Distribution
import EconModel.Model

/-!
# Defects of models

Why a model cannot be run.  Most defects are found before a run starts; the last two show while the
values that a run starts from are computed.
-/

namespace EconModel

/-- A kind of named thing that a model declares. -/
inductive Declaration where
  | parameter
  | constraint
  | policy
  /-- A variable or a scalar. -/
  | variable
  | event
  deriving DecidableEq, Repr

def Declaration.name : Declaration → String
  | .parameter => "parameter"
  | .constraint => "constraint"
  | .policy => "policy"
  | .variable => "variable"
  | .event => "event"

/-- Why a model cannot be run. -/
inductive ModelDefect where
  /-- The name of the model is blank. -/
  | emptyModelName
  | zeroHorizon
  | emptyName (declaration : Declaration)
  | duplicateName (declaration : Declaration) (name : String)
  /-- A variable has two equations of one kind. -/
  | duplicateEquation (target : String) (kind : EquationKind)
  /-- A name is both a parameter and a variable. -/
  | nameCollision (name : String)
  | unknownIdentifier (location name : String)
  /-- A name that is not a variable is referred to at a time. -/
  | notAVariable (location name : String)
  | unknownFunction (location function : String)
  /-- An initial value refers to an earlier time. -/
  | laggedInitialReference (target name : String)
  /-- A recurrence has nothing to start from. -/
  | missingStartingValue (target : String)
  /-- A policy assigns to a name that is not a variable. -/
  | invalidAssignTarget (policy target : String)
  /-- The blocks of a policy stand too deep inside one another. -/
  | blockTooDeep (policy : String) (limit : UInt64)
  /-- The numbers of a distribution are wrong. -/
  | invalidDistribution (parameter : String) (defect : Distribution.Defect Float)
  | unresolvedInitialValues (targets : List String)
  | unresolvedScalars (targets : List String)

/-- The name of the kind of a defect, by which programs tell them apart. -/
def ModelDefect.code : ModelDefect → String
  | .emptyModelName => "EmptyModelName"
  | .zeroHorizon => "ZeroHorizon"
  | .emptyName _ => "EmptyName"
  | .duplicateName _ _ => "DuplicateName"
  | .duplicateEquation _ _ => "DuplicateEquation"
  | .nameCollision _ => "NameCollision"
  | .unknownIdentifier _ _ => "UnknownIdentifier"
  | .notAVariable _ _ => "NotAVariable"
  | .unknownFunction _ _ => "UnknownFunction"
  | .laggedInitialReference _ _ => "LaggedInitialReference"
  | .missingStartingValue _ => "MissingStartingValue"
  | .invalidAssignTarget _ _ => "InvalidAssignTarget"
  | .blockTooDeep _ _ => "BlockTooDeep"
  | .invalidDistribution _ _ => "InvalidDistribution"
  | .unresolvedInitialValues _ => "UnresolvedInitialValues"
  | .unresolvedScalars _ => "UnresolvedScalars"

/-- The text that describes a defect. -/
def ModelDefect.message : ModelDefect → String
  | .emptyModelName => "Model name cannot be empty"
  | .zeroHorizon => "Horizon must be at least 1 timestep"
  | .emptyName declaration => declaration.name ++ " name cannot be empty"
  | .duplicateName declaration name => "Duplicate " ++ declaration.name ++ " '" ++ name ++ "'"
  | .duplicateEquation target kind =>
      "Variable '" ++ target ++ "' has more than one " ++ kind.name ++ " equation"
  | .nameCollision name => "'" ++ name ++ "' is declared as both a parameter and a variable"
  | .unknownIdentifier location name =>
      location ++ " references unknown identifier '" ++ name ++ "'"
  | .notAVariable location name =>
      location ++ " uses time-indexed reference to '" ++ name ++ "', which is not a variable"
  | .unknownFunction location function =>
      location ++ " calls unknown function '" ++ function ++ "'"
  | .laggedInitialReference target name =>
      "Initial equation for '" ++ target ++ "' references '" ++ name ++
        "' at a lag; initial values may only use parameters and other initial values"
  | .missingStartingValue target =>
      "Variable '" ++ target ++
        "' has a recurrence but no initial or current equation, so it has no value at t=0"
  | .invalidAssignTarget policy target =>
      "Policy '" ++ policy ++ "' assigns to '" ++ target ++ "', which is not a variable"
  | .blockTooDeep policy limit =>
      "Policy '" ++ policy ++ "' nests action blocks deeper than " ++ toString limit.toNat
  | .invalidDistribution parameter defect =>
      "Parameter '" ++ parameter ++ "' has an invalid distribution: " ++ defect.message
  | .unresolvedInitialValues targets =>
      "Initial values could not be computed for: " ++ ", ".intercalate targets
  | .unresolvedScalars targets =>
      "Scalar equations could not be computed for: " ++ ", ".intercalate targets

end EconModel
