import EconModel.PolicyRun
import EconModel.Proofs.ConstraintCheck

/-!
# Treatments of zero divisors

Where zero divisors are marked, every expression is evaluated to an outcome that tells what any
other treatment makes of it: the same without the mark, or a failure if there is a mark.  So two
contexts that differ in their treatment only are compared through `Evaluation.treat`.
-/

namespace EconModel

namespace ZeroDivision

/-- The mark that a treatment leaves of a mark. -/
def mark (treatment : ZeroDivision) (divided : Bool) : Bool :=
  match treatment with
  | .zero => false
  | .warn | .error => divided

/-- Whether a treatment fails an evaluation with a mark. -/
def Refuses (treatment : ZeroDivision) (divided : Bool) : Prop :=
  treatment = .error ∧ divided = true

theorem Refuses.mono {treatment : ZeroDivision} {part whole : Bool}
    (refused : treatment.Refuses part) (within : part = true → whole = true) :
    treatment.Refuses whole :=
  refused.imp_right within

theorem refuses_or_iff {treatment : ZeroDivision} {first second : Bool} :
    treatment.Refuses (first || second) ↔ treatment.Refuses first ∨ treatment.Refuses second := by
  rw [Refuses, Bool.or_eq_true, and_or_left]
  rfl

@[simp]
theorem mark_false (treatment : ZeroDivision) : treatment.mark false = false := by
  cases treatment <;> rfl

theorem mark_or (treatment : ZeroDivision) (first second : Bool) :
    treatment.mark (first || second) = (treatment.mark first || treatment.mark second) := by
  cases treatment <;> rfl

end ZeroDivision

namespace Evaluation

variable {α β : Type} {treatment : ZeroDivision}

/-- What a treatment makes of an evaluation in which zero divisors are marked. -/
def treat (treatment : ZeroDivision) (evaluation : Evaluation α) : Evaluation α :=
  match treatment with
  | .zero => ⟨evaluation.result, false⟩
  | .warn => evaluation
  | .error => if evaluation.dividedByZero then fail .divisionByZero else evaluation

theorem treat_of_not_refuses {evaluation : Evaluation α}
    (accepted : ¬ treatment.Refuses evaluation.dividedByZero) :
    evaluation.treat treatment = ⟨evaluation.result, treatment.mark evaluation.dividedByZero⟩ := by
  cases treatment with
  | zero | warn => rfl
  | error =>
      have unmarked : ¬ evaluation.dividedByZero = true := fun marked => accepted ⟨rfl, marked⟩
      rw [treat, if_neg unmarked]
      rfl

theorem treat_of_refuses {evaluation : Evaluation α}
    (refused : treatment.Refuses evaluation.dividedByZero) :
    evaluation.treat treatment = fail .divisionByZero := by
  obtain ⟨rfl, marked⟩ := refused
  rw [treat, if_pos marked]

@[simp]
theorem treat_ofResult (treatment : ZeroDivision) (result : Except EvalError α) :
    (ofResult result).treat treatment = ofResult result := by
  cases treatment <;> rfl

/-- A composition is treated part by part. -/
theorem treat_andThen (treatment : ZeroDivision) (first : Evaluation α)
    (next : α → Evaluation β) :
    (first.andThen next).treat treatment =
      (first.treat treatment).andThen fun value => (next value).treat treatment := by
  cases treatment with
  | warn => rfl
  | zero =>
      change Evaluation.mk (first.andThen next).result false = _
      cases found : first.result with
      | error error =>
          have treated : (first.treat .zero).result = .error error := found
          rw [andThen_of_error found, andThen_of_error treated]
          rfl
      | ok value =>
          have treated : (first.treat .zero).result = .ok value := found
          rw [andThen_of_ok found, andThen_of_ok treated]
          rfl
  | error =>
      cases marked : first.dividedByZero with
      | true =>
          have refused : ZeroDivision.error.Refuses first.dividedByZero := ⟨rfl, marked⟩
          have refused_whole : ZeroDivision.error.Refuses (first.andThen next).dividedByZero := by
            refine refused.mono fun _ => ?_
            cases found : first.result with
            | error error => rw [andThen_of_error found, marked]
            | ok value => rw [andThen_of_ok found, marked, Bool.true_or]
          rw [treat_of_refuses refused, treat_of_refuses refused_whole]
          rfl
      | false =>
          have treated : first.treat .error = first := by
            rw [treat, if_neg (by rw [marked]; exact Bool.false_ne_true)]
          rw [treated]
          cases found : first.result with
          | error error =>
              rw [andThen_of_error found, andThen_of_error found, marked]
              rfl
          | ok value =>
              rw [andThen_of_ok found, andThen_of_ok found, marked, Bool.false_or, Bool.false_or]

/-- The right evaluation is what a treatment makes of the left one. -/
def Correspondence.treated (treatment : ZeroDivision) : Correspondence where
  Rel left right := right = left.treat treatment
  rel_pure value := (treat_ofResult treatment (.ok value)).symm
  rel_fail error := (treat_ofResult treatment (.error error)).symm
  rel_andThen := by
    intro α β left right next next' right_eq agree
    rw [right_eq, treat_andThen]
    rcases Classical.em (treatment.Refuses left.dividedByZero) with refused | accepted
    · rw [treat_of_refuses refused]
      rfl
    · rw [treat_of_not_refuses accepted]
      cases found : left.result with
      | error error => rfl
      | ok value =>
          simp only [andThen]
          rw [agree value found]

theorem dividedByZero_finite (evaluation : Evaluation Value) :
    evaluation.finite.dividedByZero = evaluation.dividedByZero := by
  rw [finite]
  cases found : evaluation.result with
  | error error => rw [andThen_of_error found]
  | ok value =>
      rw [andThen_of_ok found]
      cases value with
      | number x =>
          cases finite : x.isFinite with
          | true => simp [finite, pure]
          | false => simp [finite, fail]
      | boolean | text | undefined | structured => exact Bool.or_false _

theorem dividedByZero_number (value : Value) : (number value).dividedByZero = false := by
  cases value <;> rfl

end Evaluation

namespace Context

open Evaluation

/-- The right context evaluates every expression to what a treatment makes of its evaluation in the
left one. -/
structure Treats (treatment : ZeroDivision) (left right : Context) : Prop where
  timestep_eq : right.timestep = left.timestep
  eval_eq : ∀ expr, right.eval expr = (left.eval expr).treat treatment

namespace Treats

variable {treatment : ZeroDivision} {left right : Context}

/-- It is enough that divisions are treated. -/
theorem of_divide (environment : Environment) (zeroDivision : ZeroDivision)
    (state : SimulationState) (timestep : Nat)
    (divide_eq : ∀ quotient x y,
      (Context.mk { environment with zeroDivision } state timestep).divide quotient x y =
        ((Context.mk environment state timestep).divide quotient x y).treat treatment) :
    Treats treatment ⟨environment, state, timestep⟩
      ⟨{ environment with zeroDivision }, state, timestep⟩ where
  timestep_eq := rfl
  eval_eq expr := by
    have corresponds : Corresponds (.treated treatment) (fun _ => True)
        ⟨environment, state, timestep⟩ ⟨{ environment with zeroDivision }, state, timestep⟩ := {
      timestep_eq := rfl
      rel_resolve := fun _ _ => (treat_ofResult treatment _).symm
      rel_lookup := fun _ _ _ => (treat_ofResult treatment _).symm
      rel_divide := divide_eq
      rel_call := fun _ _ => (treat_ofResult treatment _).symm }
    exact corresponds.rel_eval expr fun _ _ => trivial

/-- Zero divisors that are marked can be treated in any way. -/
theorem of_warn (environment : Environment) (treatment : ZeroDivision) (state : SimulationState)
    (timestep : Nat) :
    Treats treatment ⟨{ environment with zeroDivision := .warn }, state, timestep⟩
      ⟨{ environment with zeroDivision := treatment }, state, timestep⟩ := by
  refine .of_divide { environment with zeroDivision := .warn } treatment state timestep
    fun quotient x y => ?_
  unfold divide
  split
  · exact (treat_ofResult treatment _).symm
  · cases treatment <;> rfl

/-- Where zero divisors are not marked, dropping the marks changes nothing. -/
theorem zero_of_ne_warn (environment : Environment) (unmarked : environment.zeroDivision ≠ .warn)
    (state : SimulationState) (timestep : Nat) :
    Treats .zero ⟨environment, state, timestep⟩ ⟨environment, state, timestep⟩ := by
  refine .of_divide environment environment.zeroDivision state timestep fun quotient x y => ?_
  unfold divide
  split
  · exact (treat_ofResult .zero _).symm
  · cases treatment : environment.zeroDivision with
    | warn => exact (unmarked treatment).elim
    | zero | error => rfl

variable (treats : Treats treatment left right)

include treats

theorem stamp_eq : right.stamp = left.stamp := by
  rw [stamp, stamp, treats.timestep_eq]

theorem resolve_eq (name : String) : right.resolve name = left.resolve name := by
  have eval_eq := treats.eval_eq (.ident name)
  change ofResult _ = (ofResult _).treat treatment at eval_eq
  rw [treat_ofResult] at eval_eq
  exact congrArg Evaluation.result eval_eq

theorem evalFinite_eq (expr : Expr) :
    right.evalFinite expr = (left.evalFinite expr).treat treatment :=
  (Correspondence.treated treatment).rel_finite (treats.eval_eq expr)

theorem evalBoolean_eq (expr : Expr) :
    right.evalBoolean expr = (left.evalBoolean expr).treat treatment :=
  (Correspondence.treated treatment).rel_andThen (treats.eval_eq expr) fun value _ =>
    (Correspondence.treated treatment).rel_boolean value

theorem evalNumber_eq (expr : Expr) :
    right.evalNumber expr = (left.evalNumber expr).treat treatment :=
  (Correspondence.treated treatment).rel_andThen (treats.evalFinite_eq expr) fun value _ =>
    (Correspondence.treated treatment).rel_number value

theorem evalArguments_eq (arguments : Bindings Expr) :
    right.evalArguments arguments = (left.evalArguments arguments).treat treatment := by
  let named (context : Context) (entry : String × Expr) : Evaluation (String × Value) :=
    (context.evalFinite entry.2).andThen fun value => pure (entry.1, value)
  have forAll_eq : forAll (named right) arguments.entries =
      (forAll (named left) arguments.entries).treat treatment :=
    (Correspondence.treated treatment).rel_forAll fun entry _ =>
      (Correspondence.treated treatment).rel_andThen (treats.evalFinite_eq entry.2) fun value _ =>
        (Correspondence.treated treatment).rel_pure (entry.1, value)
  exact (Correspondence.treated treatment).rel_andThen forAll_eq fun pairs _ =>
    (Correspondence.treated treatment).rel_pure (Bindings.ofList pairs)

theorem render_eq : right.render = left.render := by
  funext template
  have value_eq : right.templateValue? = left.templateValue? := by
    funext name
    rw [templateValue?, templateValue?, treats.resolve_eq, treats.timestep_eq]
  rw [render, render, value_eq]

end Treats

/-! ## Constraints -/

variable {treatment : ZeroDivision} {left right : Context}

theorem dividedByZero_evalNumber (context : Context) (expr : Expr) :
    (context.evalNumber expr).dividedByZero = (context.eval expr).dividedByZero := by
  change ((context.evalFinite expr).andThen Evaluation.number).dividedByZero = _
  have finite_eq := dividedByZero_finite (context.eval expr)
  cases found : (context.evalFinite expr).result with
  | error error =>
      rw [andThen_of_error found]
      exact finite_eq
  | ok value =>
      rw [andThen_of_ok found, dividedByZero_number, Bool.or_false]
      exact finite_eq

/-- A comparison that has a value marks what the evaluations of its sides mark. -/
theorem dividedByZero_of_comparison {context : Context} {op : BinaryOp} {first second : Expr}
    (comparison : op.isComparison = true) {truth : Bool}
    (found : (context.evalBoolean (.binary op first second)).result = .ok truth)
    (marked : (context.eval first).dividedByZero = true ∨
      (context.eval second).dividedByZero = true) :
    (context.evalBoolean (.binary op first second)).dividedByZero = true := by
  let compared : Evaluation Value := (context.eval first).andThen fun value =>
    (context.eval second).andThen fun other => context.strict op value other
  have eval_eq : context.eval (.binary op first second) = compared := by
    cases op with
    | and | or | add | sub | mul | div | rem | pow => cases comparison
    | lt | le | gt | ge | eq | ne => rfl
  change ((context.eval (.binary op first second)).andThen Evaluation.boolean).result = _ at found
  change ((context.eval (.binary op first second)).andThen Evaluation.boolean).dividedByZero = _
  rw [eval_eq] at found ⊢
  obtain ⟨value, found_value, _⟩ := andThen_eq_ok_iff.mp found
  obtain ⟨x, found_first, found_rest⟩ := andThen_eq_ok_iff.mp found_value
  obtain ⟨y, found_second, _⟩ := andThen_eq_ok_iff.mp found_rest
  have compared_eq := andThen_of_ok found_first fun value =>
    (context.eval second).andThen fun other => context.strict op value other
  rw [andThen_of_ok found_second] at compared_eq
  rw [andThen_of_ok found_value]
  change (compared.dividedByZero || _) = true
  have compared_marked : compared.dividedByZero = true := by
    change Evaluation.dividedByZero (Evaluation.andThen _ _) = true
    rw [compared_eq]
    rcases marked with marked | marked <;> simp [marked]
  rw [compared_marked, Bool.true_or]

namespace Treats

variable (treats : Treats treatment left right)

include treats

theorem violation_eq {constraint : Constraint} {truth : Bool}
    (found : (left.evalBoolean constraint.condition).result = .ok truth)
    (accepted : ¬ treatment.Refuses (left.evalBoolean constraint.condition).dividedByZero) :
    right.violation constraint = left.violation constraint := by
  have shortfall_eq :
      right.shortfall constraint.condition = left.shortfall constraint.condition := by
    cases condition_eq : constraint.condition with
    | binary op first second =>
        rw [condition_eq] at found accepted
        simp only [shortfall]
        split
        · next comparison =>
          have side_eq (side : Expr) (side_eq : side = first ∨ side = second) :
              (right.evalNumber side).result = (left.evalNumber side).result := by
            rw [treats.evalNumber_eq, treat_of_not_refuses]
            rw [dividedByZero_evalNumber]
            intro refused
            refine accepted (refused.mono fun marked => ?_)
            apply dividedByZero_of_comparison comparison found
            rcases side_eq with rfl | rfl
            · exact .inl marked
            · exact .inr marked
          rw [side_eq first (.inl rfl), side_eq second (.inr rfl)]
        · rfl
    | number | boolean | text | ident | lagged | time | unary | conditional | call => rfl
  rw [violation, violation, treats.stamp_eq, shortfall_eq, treats.render_eq]

/-- The report on constraints is the same, up to its mark, unless the mark is refused. -/
theorem check_eq (constraints : List Constraint)
    (accepted : ¬ treatment.Refuses (left.check constraints).dividedByZero) :
    right.check constraints =
      ⟨(left.check constraints).violations, (left.check constraints).skipped,
        treatment.mark (left.check constraints).dividedByZero⟩ := by
  induction constraints with
  | nil => rw [check, check, ZeroDivision.mark_false]
  | cons constraint rest ih =>
      rw [check] at accepted
      dsimp only at accepted
      rw [ZeroDivision.refuses_or_iff, not_or] at accepted
      obtain ⟨accepted_here, accepted_later⟩ := accepted
      rw [check, check, treats.evalBoolean_eq, treat_of_not_refuses accepted_here,
        treats.stamp_eq]
      cases found : (left.evalBoolean constraint.condition).result with
      | error error =>
          simp only [found] at accepted_later
          simp only [ih accepted_later, ZeroDivision.mark_or]
      | ok truth =>
          cases truth with
          | true =>
              simp only [found] at accepted_later
              simp only [ih accepted_later, ZeroDivision.mark_or]
          | false =>
              rw [treats.violation_eq found accepted_here]
              cases severity : constraint.severity.isFatal with
              | true => simp
              | false =>
                  simp only [found, severity] at accepted_later
                  simp only [ih accepted_later, ZeroDivision.mark_or]
                  rfl

end Treats

end Context

end EconModel
