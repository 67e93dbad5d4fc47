import EconModel.Expr
import EconModel.Functions
import EconModel.State

/-!
# Evaluation

An expression is evaluated at a timestep, against the parameters and scalars of a run and the state
so far.  An evaluation yields a value or a failure, and next to it the mark that a zero divisor was
replaced by zero on the way.  The mark does not depend on whether the evaluation succeeds.
-/

namespace EconModel

/-- What a zero divisor does. -/
inductive ZeroDivision where
  | zero
  /-- The quotient is zero, and the evaluation is marked. -/
  | warn
  | error
  deriving DecidableEq, Repr

/-- The outcome of an evaluation. -/
structure Evaluation (α : Type) where
  /-- The value, or why there is none. -/
  result : Except EvalError α
  /-- Whether a zero divisor was replaced by zero. -/
  dividedByZero : Bool

namespace Evaluation

variable {α β : Type}

/-- The evaluation that fails. -/
def fail (error : EvalError) : Evaluation α := ⟨.error error, false⟩

/-- The evaluation with a given result and no mark. -/
def ofResult (result : Except EvalError α) : Evaluation α := ⟨result, false⟩

/-- Go on with the value of an evaluation.  The mark of either part marks the whole. -/
def andThen (first : Evaluation α) (next : α → Evaluation β) : Evaluation β :=
  match first.result with
  | .ok value =>
      let second := next value
      ⟨second.result, first.dividedByZero || second.dividedByZero⟩
  | .error error => ⟨.error error, first.dividedByZero⟩

instance : Monad Evaluation where
  pure value := ⟨.ok value, false⟩
  bind := andThen

/-- Refuse a number that is infinite or undefined. -/
def finite (evaluation : Evaluation Value) : Evaluation Value :=
  evaluation.andThen fun value =>
    match value with
    | .number x => if x.isFinite then pure (.number x) else fail (.nonFinite x)
    | other => pure other

/-- The number that a value has to be. -/
def number (value : Value) : Evaluation Float :=
  match value.number? with
  | some x => pure x
  | none => fail (.typeMismatch "number" value.typeName)

/-- The truth value that a value has to be. -/
def boolean (value : Value) : Evaluation Bool :=
  match value.boolean? with
  | some truth => pure truth
  | none => fail (.typeMismatch "bool" value.typeName)

end Evaluation

/-- What does not change during a run. -/
structure Environment where
  parameters : Bindings Value
  scalars : Bindings Value
  functions : FunctionRegistry
  /-- What a zero divisor does. -/
  zeroDivision : ZeroDivision

/-- What an expression is evaluated against. -/
structure Context where
  environment : Environment
  state : SimulationState
  timestep : Nat

namespace Context

/-- The value of a variable `lag` timesteps back. -/
def lookup (context : Context) (name : String) (lag : UInt64) : Except EvalError Value :=
  if context.state.hasVariable name then
    if lag.toNat ≤ context.timestep then
      match context.state.valueAt? name (context.timestep - lag.toNat) with
      | none | some .undefined =>
          .error (.missingDependency name (context.timestep - lag.toNat))
      | some value => .ok value
    else .error (.timeOutOfRange name (Int64.ofNat context.timestep - lag.toInt64))
  else .error (.unknownIdentifier name)

/-- The value of an identifier: of a parameter, else of a scalar, else of a variable now. -/
def resolve (context : Context) (name : String) : Except EvalError Value :=
  match context.environment.parameters.get? name with
  | some value => .ok value
  | none =>
      match context.environment.scalars.get? name with
      | some value => .ok value
      | none => context.lookup name 0

/-- A quotient or remainder, where a zero divisor is treated as the environment says. -/
def divide (context : Context) (quotient : Float → Float → Float) (x y : Float) :
    Evaluation Float :=
  if y != 0.0 then pure (quotient x y)
  else
    match context.environment.zeroDivision with
    | .zero => pure 0.0
    | .warn => ⟨.ok 0.0, true⟩
    | .error => .fail .divisionByZero

/-- The value of an operator on two numbers; the operators that do not look at numbers have none. -/
def arithmetic (context : Context) (op : BinaryOp) (x y : Float) : Evaluation Value :=
  match op with
  | .add => pure (.number (x + y))
  | .sub => pure (.number (x - y))
  | .mul => pure (.number (x * y))
  | .div => do return .number (← context.divide (· / ·) x y)
  | .rem => do return .number (← context.divide Binary64.remainder x y)
  | .pow => pure (.number (x.pow y))
  | .lt => pure (.boolean (x < y))
  | .le => pure (.boolean (x ≤ y))
  | .gt => pure (.boolean (y < x))
  | .ge => pure (.boolean (y ≤ x))
  | .eq => pure (.boolean (x == y))
  | .ne => pure (.boolean (x != y))
  | .and | .or => .fail (.typeMismatch "bool" "number")

/-- The value of an operator whose operands are both evaluated. -/
def strict (context : Context) (op : BinaryOp) (left right : Value) : Evaluation Value :=
  match op with
  | .eq => pure (.boolean (left.same right))
  | .ne => pure (.boolean (!left.same right))
  | op => do
      let x ← Evaluation.number left
      let y ← Evaluation.number right
      context.arithmetic op x y

mutual

/-- The value of an expression. -/
def eval (context : Context) : Expr → Evaluation Value
  | .number value => pure (.number value)
  | .boolean value => pure (.boolean value)
  | .text value => pure (.text value)
  | .time => pure (.number (Float.ofNat context.timestep))
  | .ident name => .ofResult (context.resolve name)
  | .lagged name lag => .ofResult (context.lookup name lag)
  | .unary .neg operand => do
      return .number (-(← Evaluation.number (← eval context operand)))
  | .unary .not operand => do
      return .boolean (!(← Evaluation.boolean (← eval context operand)))
  | .binary .and left right => do
      if ← Evaluation.boolean (← eval context left) then
        return .boolean (← Evaluation.boolean (← eval context right))
      else return .boolean false
  | .binary .or left right => do
      if ← Evaluation.boolean (← eval context left) then return .boolean true
      else return .boolean (← Evaluation.boolean (← eval context right))
  | .binary op left right => do
      let leftValue ← eval context left
      let rightValue ← eval context right
      context.strict op leftValue rightValue
  | .conditional condition whenTrue whenFalse => do
      if ← Evaluation.boolean (← eval context condition) then eval context whenTrue
      else eval context whenFalse
  | .call function arguments => do
      let values ← evalAll context arguments
      .ofResult (context.environment.functions.call function values)

/-- The values of arguments, which have to be finite. -/
def evalAll (context : Context) : List Expr → Evaluation (List Value)
  | [] => pure []
  | argument :: rest => do
      let value ← (eval context argument).finite
      let values ← evalAll context rest
      return value :: values

end

/-- The value of an expression that is about to be stored: a number has to be finite. -/
def evalFinite (context : Context) (expr : Expr) : Evaluation Value :=
  (context.eval expr).finite

/-- The truth value of an expression. -/
def evalBoolean (context : Context) (expr : Expr) : Evaluation Bool := do
  Evaluation.boolean (← context.eval expr)

/-- The finite number that an expression denotes. -/
def evalNumber (context : Context) (expr : Expr) : Evaluation Float := do
  Evaluation.number (← context.evalFinite expr)

end Context

end EconModel
