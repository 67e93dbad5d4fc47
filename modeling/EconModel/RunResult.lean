import EconModel.Log
import EconModel.RunId

/-!
# Results of runs

Everything that a run produces.  A result carries no clock readings, and its tables keep the order
of declaration, so the same model, parameters, seed and index always give the same result.
-/

namespace EconModel

/-- Which run of which model a result belongs to. -/
structure RunMetadata where
  id : RunId
  modelName : String
  fingerprint : String
  /-- The seed of the run, or of its batch. -/
  seed : UInt64
  /-- The index within a batch. -/
  index : Option UInt64
  /-- The number of timesteps of the model. -/
  horizon : UInt64
  deriving DecidableEq

/-- How a run ended. -/
inductive RunStatus where
  /-- At the horizon. -/
  | completed
  /-- At a timestep where a fatal constraint was violated. -/
  | halted (timestep : UInt64)
  deriving DecidableEq, Repr

/-- Everything that a run produces. -/
structure RunResult where
  metadata : RunMetadata
  /-- How it ended. -/
  status : RunStatus
  parameters : Bindings Value
  scalars : Bindings Value
  /-- The committed values of every variable. -/
  series : Bindings (List Value)
  log : Log

namespace RunResult

/-- Whether a run reached the horizon. -/
def isCompleted (result : RunResult) : Bool := result.status == .completed

/-- The timestep at which a run was halted. -/
def haltedAt? (result : RunResult) : Option UInt64 :=
  match result.status with
  | .completed => none
  | .halted timestep => some timestep

/-- The number of committed timesteps. -/
def timesteps (result : RunResult) : Nat :=
  match result.series.entries with
  | [] => 0
  | (_, values) :: _ => values.length

/-- The values of a variable. -/
def series? (result : RunResult) (name : String) : Option (List Value) := result.series.get? name

/-- The value of a variable at a timestep. -/
def value? (result : RunResult) (name : String) (timestep : Nat) : Option Value :=
  (result.series? name).bind (·[timestep]?)

/-- The number that a variable is at a timestep. -/
def number? (result : RunResult) (name : String) (timestep : Nat) : Option Float :=
  (result.value? name timestep).bind Value.number?

end RunResult

end EconModel
