import EconModel.Proofs.Evaluation.Correspondence

/-!
# How an evaluation may fail

An evaluation fails because an operator meets values that it cannot take, because a name has no
value, or because a function fails.  So if the failures of the first kind are permitted, and so are
those of the names and the functions of an expression, then it fails in permitted ways only.
-/

namespace EconModel

/-- What operators fail with is permitted. -/
structure PermitsOperators (permitted : EvalError → Prop) : Prop where
  typeMismatch : ∀ expected found, permitted (.typeMismatch expected found)
  nonFinite : ∀ value, permitted (.nonFinite value)
  divisionByZero : permitted .divisionByZero

namespace Evaluation

variable {α β : Type} {permitted : EvalError → Prop}

/-- An evaluation fails in permitted ways only. -/
def FailsWithin (permitted : EvalError → Prop) (evaluation : Evaluation α) : Prop :=
  ∀ error, evaluation.result = .error error → permitted error

theorem failsWithin_pure (value : α) : FailsWithin permitted (pure value : Evaluation α) := by
  intro error failed
  cases failed

theorem failsWithin_fail {error : EvalError} (possible : permitted error) :
    FailsWithin permitted (fail error : Evaluation α) := by
  intro other failed
  cases failed
  exact possible

theorem FailsWithin.andThen {first : Evaluation α} (within : first.FailsWithin permitted)
    {next : α → Evaluation β}
    (within_next : ∀ value, first.result = .ok value → (next value).FailsWithin permitted) :
    (first.andThen next).FailsWithin permitted := by
  intro error failed
  cases found : first.result with
  | error other =>
      rw [andThen_of_error found] at failed
      cases failed
      exact within _ found
  | ok value =>
      rw [andThen_of_ok found] at failed
      exact within_next value found error failed

theorem failsWithin_forAll {evaluate : α → Evaluation β} {entries : List α}
    (each : ∀ entry ∈ entries, (evaluate entry).FailsWithin permitted) :
    (forAll evaluate entries).FailsWithin permitted := by
  induction entries with
  | nil => exact failsWithin_pure []
  | cons entry rest ih =>
      have within_rest := ih fun other member => each other (List.mem_cons_of_mem entry member)
      exact (each entry List.mem_cons_self).andThen fun value _ =>
        within_rest.andThen fun values _ => failsWithin_pure (value :: values)

section Operators

variable (operators : PermitsOperators permitted)

include operators

theorem failsWithin_number (value : Value) : (number value).FailsWithin permitted := by
  cases value with
  | number x => exact failsWithin_pure x
  | boolean | text | undefined | structured => exact failsWithin_fail (operators.typeMismatch _ _)

theorem failsWithin_boolean (value : Value) : (boolean value).FailsWithin permitted := by
  cases value with
  | boolean truth => exact failsWithin_pure truth
  | number | text | undefined | structured => exact failsWithin_fail (operators.typeMismatch _ _)

theorem FailsWithin.finite {evaluation : Evaluation Value}
    (within : evaluation.FailsWithin permitted) : evaluation.finite.FailsWithin permitted := by
  refine within.andThen fun value _ => ?_
  cases value with
  | number x =>
      change FailsWithin permitted (if x.isFinite then pure (.number x) else fail (.nonFinite x) :
        Evaluation Value)
      split
      · exact failsWithin_pure _
      · exact failsWithin_fail (operators.nonFinite x)
  | boolean | text | undefined | structured => exact failsWithin_pure _

theorem failsWithin_strict (context : Context) (op : BinaryOp) (left right : Value) :
    (context.strict op left right).FailsWithin permitted := by
  have divide (quotient : Float → Float → Float) (x y : Float) :
      (context.divide quotient x y).FailsWithin permitted := by
    unfold Context.divide
    split
    · exact failsWithin_pure _
    · cases context.environment.zeroDivision with
      | zero | warn => exact fun error failed => by cases failed
      | error => exact failsWithin_fail operators.divisionByZero
  have arithmetic (x y : Float) : (context.arithmetic op x y).FailsWithin permitted := by
    cases op with
    | div | rem => exact (divide _ x y).andThen fun _ _ => failsWithin_pure _
    | and | or => exact failsWithin_fail (operators.typeMismatch _ _)
    | add | sub | mul | pow | lt | le | gt | ge | eq | ne => exact failsWithin_pure _
  cases op with
  | eq | ne => exact failsWithin_pure _
  | add | sub | mul | div | rem | pow | lt | le | gt | ge | and | or =>
      exact (failsWithin_number operators left).andThen fun x _ =>
        (failsWithin_number operators right).andThen fun y _ => arithmetic x y

end Operators

end Evaluation

namespace Context

open Evaluation

variable {context : Context} {permitted : EvalError → Prop}

/-- What an expression takes from a context fails in permitted ways only. -/
structure Provides (context : Context) (permitted : EvalError → Prop) (expr : Expr) : Prop where
  ident : ∀ name, .ident name ∈ expr.nodes →
    (ofResult (context.resolve name)).FailsWithin permitted
  lagged : ∀ name lag, .lagged name lag ∈ expr.nodes →
    (ofResult (context.lookup name lag)).FailsWithin permitted
  call : ∀ function arguments, .call function arguments ∈ expr.nodes → ∀ values,
    (ofResult (context.environment.functions.call function values)).FailsWithin permitted

theorem Provides.of_subset {part whole : Expr} (provides : context.Provides permitted whole)
    (within : ∀ node ∈ part.nodes, node ∈ whole.nodes) : context.Provides permitted part :=
  ⟨fun name node => provides.ident name (within _ node),
    fun name lag node => provides.lagged name lag (within _ node),
    fun function arguments node => provides.call function arguments (within _ node)⟩

theorem failsWithin_eval (operators : PermitsOperators permitted) {expr : Expr}
    (provides : context.Provides permitted expr) : (context.eval expr).FailsWithin permitted := by
  induction expr with
  | number | boolean | text | time => exact failsWithin_pure _
  | ident name => exact provides.ident name (by simp [Expr.nodes])
  | lagged name lag => exact provides.lagged name lag (by simp [Expr.nodes])
  | unary op operand ih =>
      have within_operand :=
        ih (provides.of_subset fun node member => by simp [Expr.nodes, member])
      cases op with
      | neg =>
          exact within_operand.andThen fun value _ =>
            (failsWithin_number operators value).andThen fun _ _ => failsWithin_pure _
      | not =>
          exact within_operand.andThen fun value _ =>
            (failsWithin_boolean operators value).andThen fun _ _ => failsWithin_pure _
  | binary op left right ih_left ih_right =>
      have within_left :=
        ih_left (provides.of_subset fun node member => by simp [Expr.nodes, member])
      have within_right :=
        ih_right (provides.of_subset fun node member => by simp [Expr.nodes, member])
      have within_truth : FailsWithin permitted ((context.eval right).andThen fun value =>
          (Evaluation.boolean value).andThen fun truth => pure (Value.boolean truth)) :=
        within_right.andThen fun value _ =>
          (failsWithin_boolean operators value).andThen fun _ _ => failsWithin_pure _
      cases op with
      | and =>
          refine within_left.andThen fun value _ =>
            (failsWithin_boolean operators value).andThen fun truth _ => ?_
          cases truth with
          | false => exact failsWithin_pure _
          | true => exact within_truth
      | or =>
          refine within_left.andThen fun value _ =>
            (failsWithin_boolean operators value).andThen fun truth _ => ?_
          cases truth with
          | false => exact within_truth
          | true => exact failsWithin_pure _
      | add | sub | mul | div | rem | pow | lt | le | gt | ge | eq | ne =>
          exact within_left.andThen fun value _ => within_right.andThen fun other _ =>
            failsWithin_strict operators context _ value other
  | conditional condition whenTrue whenFalse ih_condition ih_true ih_false =>
      have within_condition :=
        ih_condition (provides.of_subset fun node member => by simp [Expr.nodes, member])
      refine within_condition.andThen fun value _ =>
        (failsWithin_boolean operators value).andThen fun truth _ => ?_
      cases truth with
      | true => exact ih_true (provides.of_subset fun node member => by simp [Expr.nodes, member])
      | false => exact ih_false (provides.of_subset fun node member => by simp [Expr.nodes, member])
  | call function arguments ih =>
      have within_all : (context.evalAll arguments).FailsWithin permitted := by
        rw [evalAll_eq_forAll]
        refine failsWithin_forAll fun argument argument_mem => FailsWithin.finite operators ?_
        exact ih argument argument_mem
          (provides.of_subset fun _ => Expr.mem_nodes_call argument_mem)
      exact within_all.andThen fun values _ =>
        provides.call function arguments (by simp [Expr.nodes]) values

/-- A value that is stored fails as the evaluation does, or because it is not finite. -/
theorem failsWithin_evalFinite (operators : PermitsOperators permitted) {expr : Expr}
    (provides : context.Provides permitted expr) :
    (context.evalFinite expr).FailsWithin permitted :=
  (failsWithin_eval operators provides).finite operators

end Context

end EconModel
