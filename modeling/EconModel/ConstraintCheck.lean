import EconModel.Evaluation
import EconModel.Log
import EconModel.Template

/-!
# Checking constraints

The constraints of a model are checked in order against a settled timestep.  A condition that is
false is a violation, one that cannot be evaluated is skipped, and a violation of a fatal constraint
ends the check.
-/

namespace EconModel

namespace BinaryOp

/-- The distance by which `actual` has to move for a comparison with `expected` to hold.  It is
positive where the comparison fails by that much; an inequality has no such distance, which counts
as zero. -/
def violationAmount? {α : Type} [Sub α] [OfScientific α] (op : BinaryOp) (actual expected : α) :
    Option α :=
  match op with
  | .gt | .ge => some (expected - actual)
  | .lt | .le | .eq => some (actual - expected)
  | .ne => some 0.0
  | _ => none

end BinaryOp

/-- What a check of constraints yields. -/
structure ConstraintReport where
  violations : List Violation
  /-- The constraints that were skipped, in order. -/
  skipped : List Diagnostic
  /-- Whether a zero divisor was replaced by zero on the way. -/
  dividedByZero : Bool

namespace ConstraintReport

/-- Whether the check ended at a fatal constraint. -/
def isFatal (report : ConstraintReport) : Bool :=
  match report.violations.getLast? with
  | some violation => violation.severity.isFatal
  | none => false

end ConstraintReport

namespace Context

/-- The timestep of a context as it is recorded. -/
def stamp (context : Context) : UInt64 := UInt64.ofNat context.timestep

/-- By how much a condition is missed: for a comparison whose two sides are finite numbers.  Both
sides have been evaluated as parts of the condition, so that they are evaluated again marks nothing
new. -/
def shortfall (context : Context) (condition : Expr) : Shortfall :=
  match condition with
  | .binary op left right =>
      if op.isComparison then
        match (context.evalNumber left).result, (context.evalNumber right).result with
        | .ok x, .ok y => ⟨some x, some y, some op.symbol, op.violationAmount? x y⟩
        | _, _ => .none
      else .none
  | _ => .none

/-- The violation of a constraint whose condition is false. -/
def violation (context : Context) (constraint : Constraint) : Violation where
  timestep := context.stamp
  constraint := constraint.name
  severity := constraint.severity
  message := constraint.message.map context.render
  shortfall := context.shortfall constraint.condition

/-- Check constraints in order up to the first fatal one that is violated. -/
def check (context : Context) : List Constraint → ConstraintReport
  | [] => ⟨[], [], false⟩
  | constraint :: rest =>
      let condition := context.evalBoolean constraint.condition
      let later :=
        match condition.result with
        | .error error =>
            let later := check context rest
            { later with
              skipped := .constraintSkipped context.stamp constraint.name error.message ::
                later.skipped }
        | .ok true => check context rest
        | .ok false =>
            if constraint.severity.isFatal then ⟨[context.violation constraint], [], false⟩
            else
              let later := check context rest
              { later with violations := context.violation constraint :: later.violations }
      { later with dividedByZero := condition.dividedByZero || later.dividedByZero }

end Context

end EconModel
