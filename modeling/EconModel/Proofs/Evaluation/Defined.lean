import EconModel.Proofs.Evaluation.Correspondence
import EconModel.Proofs.Evaluation.Extension

/-!
# Evaluations that yield no undefined value

An undefined slot is not a value: asking for it fails.  So where parameters, scalars and functions
yield no undefined value, neither does an expression.
-/

namespace EconModel

/-- Parameters, scalars and functions yield no undefined value. -/
structure Environment.Defined (environment : Environment) : Prop where
  /-- Parameters do not. -/
  parameters : ∀ name, environment.parameters.get? name ≠ some .undefined
  /-- Scalars do not. -/
  scalars : ∀ name, environment.scalars.get? name ≠ some .undefined
  /-- Functions do not. -/
  functions : ∀ function arguments,
    environment.functions.call function arguments ≠ .ok .undefined

namespace Evaluation

variable {α : Type}

/-- An evaluation does not yield the undefined value. -/
def Defined (evaluation : Evaluation Value) : Prop := evaluation.result ≠ .ok .undefined

theorem defined_pure {value : Value} (defined : value ≠ .undefined) :
    Defined (pure value : Evaluation Value) := by
  intro found
  cases found
  exact defined rfl

theorem defined_fail (error : EvalError) : Defined (fail error) := by
  intro found
  cases found

theorem defined_andThen {first : Evaluation α} {next : α → Evaluation Value}
    (defined : ∀ value, first.result = .ok value → Defined (next value)) :
    Defined (first.andThen next) := by
  intro found
  obtain ⟨middle, found_first, found_next⟩ := andThen_eq_ok_iff.mp found
  exact defined middle found_first found_next

theorem Defined.finite {evaluation : Evaluation Value} (defined : evaluation.Defined) :
    evaluation.finite.Defined := by
  apply defined_andThen
  intro value found
  cases value with
  | number x =>
      change Defined (if x.isFinite then _ else _)
      split
      · exact defined_pure nofun
      · exact defined_fail _
  | undefined => exact (defined found).elim
  | boolean | text | structured => exact defined_pure nofun

end Evaluation

namespace Context

open Evaluation

variable {context : Context}

theorem resolve_ne_undefined (defined : context.environment.Defined) (name : String) :
    context.resolve name ≠ .ok .undefined := by
  intro found
  unfold resolve at found
  split at found
  · next parameter =>
    cases found
    exact defined.parameters name parameter
  · split at found
    · next scalar =>
      cases found
      exact defined.scalars name scalar
    · exact (lookup_eq_ok_iff.mp found).2.1 rfl

theorem defined_strict (op : BinaryOp) (left right : Value) :
    (context.strict op left right).Defined := by
  have arithmetic (x y : Float) : (context.arithmetic op x y).Defined := by
    cases op with
    | div | rem => exact defined_andThen fun _ _ => defined_pure nofun
    | and | or => exact defined_fail _
    | add | sub | mul | pow | lt | le | gt | ge | eq | ne => exact defined_pure nofun
  cases op with
  | eq | ne => exact defined_pure nofun
  | add | sub | mul | div | rem | pow | lt | le | gt | ge | and | or =>
      exact defined_andThen fun x _ => defined_andThen fun y _ => arithmetic x y

theorem defined_eval (defined : context.environment.Defined) (expr : Expr) :
    (context.eval expr).Defined := by
  induction expr with
  | number | boolean | text | time => exact defined_pure nofun
  | ident name => exact resolve_ne_undefined defined name
  | lagged name lag => exact fun found => (lookup_eq_ok_iff.mp found).2.1 rfl
  | unary op operand ih =>
      cases op with
      | neg | not => exact defined_andThen fun _ _ => defined_andThen fun _ _ => defined_pure nofun
  | binary op left right ih_left ih_right =>
      have truth : Defined ((context.eval right).andThen fun value =>
          (Evaluation.boolean value).andThen fun other => pure (.boolean other)) :=
        defined_andThen fun _ _ => defined_andThen fun _ _ => defined_pure nofun
      cases op with
      | and =>
          refine defined_andThen fun value _ => defined_andThen fun other _ => ?_
          cases other with
          | false => exact defined_pure nofun
          | true => exact truth
      | or =>
          refine defined_andThen fun value _ => defined_andThen fun other _ => ?_
          cases other with
          | false => exact truth
          | true => exact defined_pure nofun
      | add | sub | mul | div | rem | pow | lt | le | gt | ge | eq | ne =>
          exact defined_andThen fun x _ => defined_andThen fun y _ => defined_strict _ x y
  | conditional condition whenTrue whenFalse _ ih_true ih_false =>
      refine defined_andThen fun value _ => defined_andThen fun truth _ => ?_
      cases truth with
      | true => exact ih_true
      | false => exact ih_false
  | call function arguments _ =>
      exact defined_andThen fun values _ => defined.functions function values

/-- No undefined value is stored. -/
theorem evalFinite_ne_undefined (defined : context.environment.Defined) (expr : Expr) :
    (context.evalFinite expr).result ≠ .ok .undefined :=
  (defined_eval defined expr).finite

end Context

end EconModel
