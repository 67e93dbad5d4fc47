import EconModel.PolicyRun
import EconModel.Proofs.Expr

/-!
# Corresponding evaluations

Two contexts that differ in a controlled way evaluate every expression to corresponding outcomes.
What "corresponding" means is a parameter: it has to hold of what is computed without looking at the
context, and to pass through `Evaluation.andThen`.  It is then enough that the names an expression
refers to, the divisions and the calls correspond.
-/

namespace EconModel

namespace Evaluation

variable {α β : Type}

theorem andThen_of_ok {first : Evaluation α} {value : α} (found : first.result = .ok value)
    (next : α → Evaluation β) :
    first.andThen next =
      ⟨(next value).result, first.dividedByZero || (next value).dividedByZero⟩ := by
  simp only [andThen, found]

theorem andThen_of_error {first : Evaluation α} {error : EvalError}
    (failed : first.result = .error error) (next : α → Evaluation β) :
    first.andThen next = ⟨.error error, first.dividedByZero⟩ := by
  simp only [andThen, failed]

theorem andThen_eq_ok_iff {first : Evaluation α} {next : α → Evaluation β} {value : β} :
    (first.andThen next).result = .ok value ↔
      ∃ middle, first.result = .ok middle ∧ (next middle).result = .ok value := by
  cases found : first.result with
  | error error => simp [andThen_of_error found]
  | ok middle => simp [andThen_of_ok found]

/-- A relation between evaluations that passes through their composition. -/
structure Correspondence where
  /-- The relation, at every type of values. -/
  Rel : ∀ {α : Type}, Evaluation α → Evaluation α → Prop
  /-- A value corresponds to itself. -/
  rel_pure : ∀ {α : Type} (value : α), Rel (pure value : Evaluation α) (pure value)
  /-- A failure corresponds to itself. -/
  rel_fail : ∀ {α : Type} (error : EvalError), Rel (fail error : Evaluation α) (fail error)
  /-- Corresponding evaluations, gone on with in corresponding ways, correspond. -/
  rel_andThen : ∀ {α β : Type} {left right : Evaluation α} {next next' : α → Evaluation β},
    Rel left right → (∀ value, left.result = .ok value → Rel (next value) (next' value)) →
      Rel (left.andThen next) (right.andThen next')

namespace Correspondence

variable (correspondence : Correspondence)

theorem rel_number (value : Value) :
    correspondence.Rel (Evaluation.number value) (Evaluation.number value) := by
  unfold Evaluation.number
  split
  · exact correspondence.rel_pure _
  · exact correspondence.rel_fail _

theorem rel_boolean (value : Value) :
    correspondence.Rel (Evaluation.boolean value) (Evaluation.boolean value) := by
  unfold Evaluation.boolean
  split
  · exact correspondence.rel_pure _
  · exact correspondence.rel_fail _

theorem rel_finite {left right : Evaluation Value} (rel : correspondence.Rel left right) :
    correspondence.Rel left.finite right.finite := by
  refine correspondence.rel_andThen rel fun value _ => ?_
  cases value with
  | number x =>
      change correspondence.Rel (if x.isFinite then _ else _) (if x.isFinite then _ else _)
      split
      · exact correspondence.rel_pure _
      · exact correspondence.rel_fail _
  | boolean | text | undefined | structured => exact correspondence.rel_pure _

theorem rel_forAll {α β : Type} {evaluate evaluate' : α → Evaluation β} {entries : List α}
    (each : ∀ entry ∈ entries, correspondence.Rel (evaluate entry) (evaluate' entry)) :
    correspondence.Rel (forAll evaluate entries) (forAll evaluate' entries) := by
  induction entries with
  | nil => exact correspondence.rel_pure _
  | cons entry rest ih =>
      have rel_entry := each entry List.mem_cons_self
      have rel_rest := ih fun other member => each other (List.mem_cons_of_mem entry member)
      exact correspondence.rel_andThen rel_entry fun _ _ =>
        correspondence.rel_andThen rel_rest fun _ _ => correspondence.rel_pure _

end Correspondence

end Evaluation

namespace Context

open Evaluation

theorem evalAll_eq_forAll (context : Context) (arguments : List Expr) :
    context.evalAll arguments = forAll context.evalFinite arguments := by
  induction arguments with
  | nil => rfl
  | cons argument rest ih => rw [evalAll, forAll, ih, evalFinite]

/-- Two contexts correspond at the names of a set: whatever an expression over these names takes
from its context corresponds. -/
structure Corresponds (correspondence : Correspondence) (named : String → Prop)
    (left right : Context) : Prop where
  timestep_eq : left.timestep = right.timestep
  /-- The identifiers correspond. -/
  rel_resolve : ∀ name, named name →
    correspondence.Rel (ofResult (left.resolve name)) (ofResult (right.resolve name))
  /-- The variables correspond at every lag. -/
  rel_lookup : ∀ name lag, named name →
    correspondence.Rel (ofResult (left.lookup name lag)) (ofResult (right.lookup name lag))
  /-- The divisions correspond. -/
  rel_divide : ∀ quotient x y,
    correspondence.Rel (left.divide quotient x y) (right.divide quotient x y)
  /-- The calls correspond. -/
  rel_call : ∀ function values,
    correspondence.Rel (ofResult (left.environment.functions.call function values))
      (ofResult (right.environment.functions.call function values))

namespace Corresponds

variable {correspondence : Correspondence} {named : String → Prop} {left right : Context}

theorem rel_arithmetic (corresponds : Corresponds correspondence named left right)
    (op : BinaryOp) (x y : Float) :
    correspondence.Rel (left.arithmetic op x y) (right.arithmetic op x y) := by
  cases op with
  | div | rem =>
      exact correspondence.rel_andThen (corresponds.rel_divide _ x y) fun _ _ =>
        correspondence.rel_pure _
  | and | or => exact correspondence.rel_fail _
  | add | sub | mul | pow | lt | le | gt | ge | eq | ne => exact correspondence.rel_pure _

theorem rel_strict (corresponds : Corresponds correspondence named left right)
    (op : BinaryOp) (x y : Value) :
    correspondence.Rel (left.strict op x y) (right.strict op x y) := by
  have arithmetic : correspondence.Rel
      ((Evaluation.number x).andThen fun a => (Evaluation.number y).andThen (left.arithmetic op a))
      ((Evaluation.number x).andThen fun a =>
        (Evaluation.number y).andThen (right.arithmetic op a)) :=
    correspondence.rel_andThen (correspondence.rel_number x) fun a _ =>
      correspondence.rel_andThen (correspondence.rel_number y) fun b _ =>
        corresponds.rel_arithmetic op a b
  cases op with
  | eq | ne => exact correspondence.rel_pure _
  | add | sub | mul | div | rem | pow | lt | le | gt | ge | and | or => exact arithmetic

theorem rel_evalAll {arguments : List Expr}
    (each : ∀ argument ∈ arguments, correspondence.Rel (left.eval argument) (right.eval argument)) :
    correspondence.Rel (left.evalAll arguments) (right.evalAll arguments) := by
  rw [evalAll_eq_forAll, evalAll_eq_forAll]
  exact correspondence.rel_forAll fun argument member =>
    correspondence.rel_finite (each argument member)

theorem rel_eval (corresponds : Corresponds correspondence named left right) (expr : Expr)
    (refers : ∀ name, expr.RefersTo name → named name) :
    correspondence.Rel (left.eval expr) (right.eval expr) := by
  induction expr with
  | number | boolean | text => exact correspondence.rel_pure _
  | time =>
      rw [eval, eval, corresponds.timestep_eq]
      exact correspondence.rel_pure _
  | ident name => exact corresponds.rel_resolve name (refers name (Expr.refersTo_ident name))
  | lagged name lag =>
      exact corresponds.rel_lookup name lag (refers name (Expr.refersTo_lagged name lag))
  | unary op operand ih =>
      have rel_operand := ih fun name found => refers name (Expr.refersTo_unary found)
      cases op with
      | neg =>
          exact correspondence.rel_andThen rel_operand fun value _ =>
            correspondence.rel_andThen (correspondence.rel_number value) fun _ _ =>
              correspondence.rel_pure _
      | not =>
          exact correspondence.rel_andThen rel_operand fun value _ =>
            correspondence.rel_andThen (correspondence.rel_boolean value) fun _ _ =>
              correspondence.rel_pure _
  | binary op left_expr right_expr ih_left ih_right =>
      have rel_left := ih_left fun name found => refers name (Expr.refersTo_binary (.inl found))
      have rel_right := ih_right fun name found => refers name (Expr.refersTo_binary (.inr found))
      have rel_truth := correspondence.rel_andThen rel_right fun value _ =>
        correspondence.rel_andThen (correspondence.rel_boolean value) fun truth _ =>
          correspondence.rel_pure (Value.boolean truth)
      cases op with
      | and =>
          refine correspondence.rel_andThen rel_left fun value _ =>
            correspondence.rel_andThen (correspondence.rel_boolean value) fun truth _ => ?_
          cases truth with
          | false => exact correspondence.rel_pure _
          | true => exact rel_truth
      | or =>
          refine correspondence.rel_andThen rel_left fun value _ =>
            correspondence.rel_andThen (correspondence.rel_boolean value) fun truth _ => ?_
          cases truth with
          | false => exact rel_truth
          | true => exact correspondence.rel_pure _
      | add | sub | mul | div | rem | pow | lt | le | gt | ge | eq | ne =>
          exact correspondence.rel_andThen rel_left fun value _ =>
            correspondence.rel_andThen rel_right fun other _ => corresponds.rel_strict _ value other
  | conditional condition whenTrue whenFalse ih_condition ih_true ih_false =>
      have rel_condition := ih_condition fun name found =>
        refers name (Expr.refersTo_conditional (.inl found))
      refine correspondence.rel_andThen rel_condition fun value _ =>
        correspondence.rel_andThen (correspondence.rel_boolean value) fun truth _ => ?_
      cases truth with
      | true =>
          exact ih_true fun name found =>
            refers name (Expr.refersTo_conditional (.inr (.inl found)))
      | false =>
          exact ih_false fun name found =>
            refers name (Expr.refersTo_conditional (.inr (.inr found)))
  | call function arguments ih =>
      have rel_arguments := rel_evalAll fun argument member =>
        ih argument member fun name found => refers name (Expr.refersTo_call member found)
      exact correspondence.rel_andThen rel_arguments fun values _ =>
        corresponds.rel_call function values

theorem rel_evalFinite (corresponds : Corresponds correspondence named left right) (expr : Expr)
    (refers : ∀ name, expr.RefersTo name → named name) :
    correspondence.Rel (left.evalFinite expr) (right.evalFinite expr) :=
  correspondence.rel_finite (corresponds.rel_eval expr refers)

theorem rel_evalBoolean (corresponds : Corresponds correspondence named left right) (expr : Expr)
    (refers : ∀ name, expr.RefersTo name → named name) :
    correspondence.Rel (left.evalBoolean expr) (right.evalBoolean expr) :=
  correspondence.rel_andThen (corresponds.rel_eval expr refers) fun value _ =>
    correspondence.rel_boolean value

theorem rel_evalNumber (corresponds : Corresponds correspondence named left right) (expr : Expr)
    (refers : ∀ name, expr.RefersTo name → named name) :
    correspondence.Rel (left.evalNumber expr) (right.evalNumber expr) :=
  correspondence.rel_andThen (corresponds.rel_evalFinite expr refers) fun value _ =>
    correspondence.rel_number value

end Corresponds

end Context

end EconModel
