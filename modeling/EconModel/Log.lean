import EconModel.Model

/-!
# The log of a run

What a run records besides its series: violated constraints, emitted events, fired policies, and
diagnostics of failures that do not end it.  Every record carries the timestep it belongs to.
-/

namespace EconModel

/-- The two sides of a comparison that did not hold. -/
structure Shortfall where
  /-- The value of the left side. -/
  actual : Option Float
  /-- The value of the right side. -/
  expected : Option Float
  /-- The symbol of the comparison. -/
  operator : Option String
  /-- The distance by which the left side misses. -/
  amount : Option Float

/-- The shortfall of a condition that is no comparison of two numbers. -/
def Shortfall.none : Shortfall := ⟨.none, .none, .none, .none⟩

/-- A violated constraint. -/
structure Violation where
  timestep : UInt64
  constraint : String
  severity : Severity
  message : Option String
  /-- By how much the condition is missed. -/
  shortfall : Shortfall

/-- An event that a policy emitted. -/
structure EmittedEvent where
  name : String
  arguments : Bindings Value
  timestep : UInt64
  policy : String

/-- A policy that fired. -/
structure PolicyFiring where
  policy : String
  timestep : UInt64
  deriving DecidableEq, Repr

/-- Equations of a timestep that stayed unresolved. -/
structure ConvergenceWarning where
  timestep : UInt64
  /-- The number of passes. -/
  iterations : UInt64
  /-- The variables with the texts of their last failures. -/
  unresolved : Bindings String

/-- A failure that does not end a run. -/
inductive Diagnostic where
  | convergence (warning : ConvergenceWarning)
  /-- A zero divisor was replaced by zero. -/
  | divisionByZero (timestep : UInt64) (location : String)
  /-- A recurrence has no value for the next timestep. -/
  | recurrenceFailed (timestep : UInt64) (target reason : String)
  | constraintSkipped (timestep : UInt64) (constraint reason : String)
  /-- The trigger or the action of a policy failed. -/
  | policyFailed (timestep : UInt64) (policy reason : String)

namespace Diagnostic

def timestep : Diagnostic → UInt64
  | .convergence warning => warning.timestep
  | .divisionByZero timestep _ => timestep
  | .recurrenceFailed timestep _ _ => timestep
  | .constraintSkipped timestep _ _ => timestep
  | .policyFailed timestep _ _ => timestep

/-- The diagnostic of an evaluation that is marked, if it is marked. -/
def ofMark (dividedByZero : Bool) (timestep : UInt64) (location : String) : List Diagnostic :=
  if dividedByZero then [.divisionByZero timestep location] else []

/-- The warning that a diagnostic carries. -/
def convergenceWarning? : Diagnostic → Option ConvergenceWarning
  | .convergence warning => some warning
  | _ => none

end Diagnostic

/-- What a run, or a part of it, records. -/
structure Log where
  violations : List Violation
  events : List EmittedEvent
  firings : List PolicyFiring
  diagnostics : List Diagnostic

namespace Log

/-- The log without records. -/
def empty : Log := ⟨[], [], [], []⟩

/-- The log with diagnostics only. -/
def ofDiagnostics (diagnostics : List Diagnostic) : Log := ⟨[], [], [], diagnostics⟩

/-- The records of an earlier part and of a later part of a run. -/
def append (earlier later : Log) : Log where
  violations := earlier.violations ++ later.violations
  events := earlier.events ++ later.events
  firings := earlier.firings ++ later.firings
  diagnostics := earlier.diagnostics ++ later.diagnostics

instance : Append Log := ⟨append⟩

theorem empty_append (log : Log) : empty ++ log = log := rfl

theorem append_empty (log : Log) : log ++ empty = log := by
  change append log empty = log
  simp [append, empty]

theorem append_assoc (first second third : Log) :
    first ++ second ++ third = first ++ (second ++ third) := by
  change append (append first second) third = append first (append second third)
  simp [append]

/-- The violations that halt a run. -/
def fatalViolations (log : Log) : List Violation :=
  log.violations.filter fun violation => violation.severity.isFatal

/-- The warnings about unresolved equations. -/
def convergenceWarnings (log : Log) : List ConvergenceWarning :=
  log.diagnostics.filterMap Diagnostic.convergenceWarning?

end Log

end EconModel
