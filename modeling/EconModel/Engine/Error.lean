import EconModel.Config
import EconModel.Correlation.Defect
import EconModel.Validation.Defect

/-!
# Errors of the engine

Why there is no result: the model is defective, its correlations cannot be sampled from, or the
execution itself fails.
-/

namespace EconModel

/-- Why a run is stopped from outside. -/
inductive Interruption where
  | cancelled
  /-- It took longer than a number of milliseconds. -/
  | timedOut (budget : UInt64)
  deriving DecidableEq, Repr

/-- Why an execution fails. -/
inductive ExecutionError where
  /-- A run was stopped at a timestep. -/
  | interrupted (cause : Interruption) (index timestep : UInt64)
  /-- Outcomes of runs were lost. -/
  | outcomesLost
  | invalidConfig (defect : ConfigDefect)
  /-- A batch without runs was asked for. -/
  | emptyBatch
  deriving DecidableEq, Repr

namespace ExecutionError

/-- The text that describes a failure. -/
def message : ExecutionError → String
  | .interrupted .cancelled index timestep =>
      "Run " ++ toString index.toNat ++ " was cancelled at timestep " ++ toString timestep.toNat
  | .interrupted (.timedOut budget) index timestep =>
      "Run " ++ toString index.toNat ++ " exceeded its budget of " ++ toString budget.toNat ++
        "ms at timestep " ++ toString timestep.toNat
  | .outcomesLost => "Worker pool disconnected"
  | .invalidConfig defect => "Invalid engine configuration: " ++ defect.message
  | .emptyBatch =>
      "Invalid engine configuration: Monte Carlo mode requires at least one run"

/-- Whether a run was stopped from outside. -/
def isInterruption : ExecutionError → Bool
  | .interrupted _ _ _ => true
  | _ => false

end ExecutionError

/-- Why there is no result. -/
inductive EngineError where
  | invalidModel (defect : ModelDefect)
  /-- The correlations cannot be sampled from. -/
  | correlation (defect : CorrelationDefect Float)
  | execution (error : ExecutionError)

namespace EngineError

/-- The text that describes the cause of an error. -/
def message : EngineError → String
  | .invalidModel defect => defect.message
  | .correlation defect => defect.message
  | .execution error => error.message

/-- The text that describes an error, with its kind in front. -/
def fullMessage : EngineError → String
  | .invalidModel defect => "Invalid IR: " ++ defect.message
  | .correlation defect => "Correlation matrix error: " ++ defect.message
  | .execution error => "Execution error: " ++ error.message

/-- Whether a run was stopped from outside. -/
def isInterruption : EngineError → Bool
  | .execution error => error.isInterruption
  | _ => false

end EngineError

end EconModel
