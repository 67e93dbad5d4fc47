import EconModel.Proofs.Json.Image
import EconModel.Proofs.RoundTrip.Model

/-!
# Models that were read

A model that was read from a text can be told from its own text.  That text writes out every list of
arguments, also one that the first text left out, so it may nest one container deeper; it reads back
as the model unless this takes it past the limit.
-/

namespace EconModel

open Json (Decoder Document)

/-! ## Expressions -/

namespace Expr

/-- Every call in an expression has arguments. -/
def HasArguments (expr : Expr) : Prop := ∀ function, call function [] ∉ expr.nodes

@[simp]
theorem hasArguments_unary (op : UnaryOp) (operand : Expr) :
    (unary op operand).HasArguments ↔ operand.HasArguments := by
  simp [HasArguments, nodes]

@[simp]
theorem hasArguments_binary (op : BinaryOp) (left right : Expr) :
    (binary op left right).HasArguments ↔ left.HasArguments ∧ right.HasArguments := by
  simp [HasArguments, nodes, forall_and]

@[simp]
theorem hasArguments_conditional (condition whenTrue whenFalse : Expr) :
    (conditional condition whenTrue whenFalse).HasArguments ↔
      condition.HasArguments ∧ whenTrue.HasArguments ∧ whenFalse.HasArguments := by
  simp [HasArguments, nodes, forall_and]

@[simp]
theorem hasArguments_call (function : String) (arguments : List Expr) :
    (call function arguments).HasArguments ↔
      arguments ≠ [] ∧ ∀ argument ∈ arguments, argument.HasArguments := by
  simp only [HasArguments, nodes, List.mem_cons, call.injEq, mem_nodesOfAll_iff, not_or, not_and,
    not_exists]
  constructor
  · exact fun full => ⟨fun none => (full function).1 rfl none.symm,
      fun argument member function inner => (full function).2 argument member inner⟩
  · exact fun full called => ⟨fun _ none => full.1 none.symm,
      fun argument member inner => full.2 argument member called inner⟩

theorem depth_pos (expr : Expr) : 0 < expr.toDocument.depth := by
  cases expr <;> simp [toDocument, Document.depth]

/-- An expression that was read has finite numbers, and its text nests as deep as the one it was
read from, or one container deeper where a call has no arguments. -/
theorem yields_decodeWithin (limit : ℕ) :
    Decoder.Yields (decodeWithin limit) fun nesting expr =>
      expr.FiniteLiterals ∧ expr.toDocument.Fits expr.HasArguments nesting := by
  induction limit with
  | zero =>
      intro ahead nesting tree expr _ found
      cases found
  | succ limit ih =>
      refine Decoder.tagged_yields ?_
      simp only [variants, List.forall_mem_cons, List.not_mem_nil, false_imp_iff, implies_true,
        and_true]
      refine ⟨?number, ?boolean, ?text, ?ident, ?lagged, ?time, ?unary, ?binary, ?conditional,
        ?call⟩
      case number =>
        refine Decoder.record_yieldsAhead fun fields expr sound built => ?_
        simp only [Option.bind_eq_bind, Option.bind_eq_some_iff, Option.some.injEq] at built
        obtain ⟨value, value_found, rfl⟩ := built
        have finite := Decoder.required_yields Decoder.float_yields sound value_found
        exact ⟨by simpa, Document.fits_object fun slack _ => by simp⟩
      case boolean =>
        refine Decoder.record_yieldsAhead fun fields expr sound built => ?_
        simp only [Option.bind_eq_bind, Option.bind_eq_some_iff, Option.some.injEq] at built
        obtain ⟨value, -, rfl⟩ := built
        exact ⟨by simp, Document.fits_object fun slack _ => by simp⟩
      case text =>
        refine Decoder.record_yieldsAhead fun fields expr sound built => ?_
        simp only [Option.bind_eq_bind, Option.bind_eq_some_iff, Option.some.injEq] at built
        obtain ⟨value, -, rfl⟩ := built
        exact ⟨by simp, Document.fits_object fun slack _ => by simp⟩
      case ident =>
        refine Decoder.record_yieldsAhead fun fields expr sound built => ?_
        simp only [Option.bind_eq_bind, Option.bind_eq_some_iff, Option.some.injEq] at built
        obtain ⟨name, -, rfl⟩ := built
        exact ⟨by simp, Document.fits_object fun slack _ => by simp⟩
      case lagged =>
        refine Decoder.record_yieldsAhead fun fields expr sound built => ?_
        simp only [Option.bind_eq_bind, Option.bind_eq_some_iff, Option.some.injEq] at built
        obtain ⟨name, -, lag, -, rfl⟩ := built
        exact ⟨by simp, Document.fits_object fun slack _ => by simp⟩
      case time =>
        exact Decoder.unit_yields fun nesting =>
          ⟨by simp, Document.fits_object fun slack _ => by simp⟩
      case unary =>
        refine Decoder.record_yieldsAhead fun fields expr sound built => ?_
        simp only [Option.bind_eq_bind, Option.bind_eq_some_iff, Option.some.injEq] at built
        obtain ⟨op, -, operand, operand_found, rfl⟩ := built
        obtain ⟨finite, fits⟩ := Decoder.required_yields ih sound operand_found
        rw [hasArguments_unary]
        exact ⟨by simpa, Document.fits_object fun slack full => by simp [fits slack full]⟩
      case binary =>
        refine Decoder.record_yieldsAhead fun fields expr sound built => ?_
        simp only [Option.bind_eq_bind, Option.bind_eq_some_iff, Option.some.injEq] at built
        obtain ⟨op, -, left, left_found, right, right_found, rfl⟩ := built
        obtain ⟨left_finite, left_fits⟩ := Decoder.required_yields ih sound left_found
        obtain ⟨right_finite, right_fits⟩ := Decoder.required_yields ih sound right_found
        rw [hasArguments_binary]
        refine ⟨by simp [left_finite, right_finite], Document.fits_object fun slack full => ?_⟩
        have left_fit := left_fits slack fun none => (full none).1
        have right_fit := right_fits slack fun none => (full none).2
        simp [left_fit, right_fit]
      case conditional =>
        refine Decoder.record_yieldsAhead fun fields expr sound built => ?_
        simp only [Option.bind_eq_bind, Option.bind_eq_some_iff, Option.some.injEq] at built
        obtain ⟨condition, condition_found, whenTrue, true_found, whenFalse, false_found, rfl⟩ :=
          built
        obtain ⟨condition_finite, condition_fits⟩ :=
          Decoder.required_yields ih sound condition_found
        obtain ⟨true_finite, true_fits⟩ := Decoder.required_yields ih sound true_found
        obtain ⟨false_finite, false_fits⟩ := Decoder.required_yields ih sound false_found
        rw [hasArguments_conditional]
        refine ⟨by simp [condition_finite, true_finite, false_finite],
          Document.fits_object fun slack full => ?_⟩
        have condition_fit := condition_fits slack fun none => (full none).1
        have true_fit := true_fits slack fun none => (full none).2.1
        have false_fit := false_fits slack fun none => (full none).2.2
        simp [condition_fit, true_fit, false_fit]
      case call =>
        refine Decoder.record_yieldsAhead fun fields expr sound built => ?_
        simp only [Option.bind_eq_bind, Option.bind_eq_some_iff, Option.some.injEq] at built
        obtain ⟨function, -, arguments, arguments_found, rfl⟩ := built
        obtain ⟨finite, fits⟩ := Decoder.optional_items_fit ih sound arguments_found
        rw [hasArguments_call, toDocument, toDocuments_eq_map]
        exact ⟨by simpa, Document.fits_object fun slack full => by simp [fits slack full]⟩

theorem yields : Decoder.Yields decode fun nesting expr =>
    expr.FiniteLiterals ∧ expr.toDocument.Fits expr.HasArguments nesting :=
  fun _ nesting _ _ sound found => yields_decodeWithin nesting sound found

end Expr

/-! ## Values and parameters -/

namespace Value

theorem yields : Decoder.Yields decode fun nesting value =>
    value.Faithful ∧ value.toDocument.depth ≤ nesting := by
  refine Decoder.readAhead_yields fun nesting tree value sound found => ?_
  cases tree with
  | null =>
      cases found
      exact ⟨trivial, Nat.zero_le _⟩
  | boolean value =>
      cases found
      exact ⟨trivial, Nat.zero_le _⟩
  | number numeral =>
      obtain ⟨number, number_eq, rfl⟩ := Option.map_eq_some_iff.mp found
      exact ⟨Json.Numeral.isFinite_of_float? number_eq, by simp [toDocument]⟩
  | string value =>
      obtain ⟨_, _, rfl⟩ := Option.map_eq_some_iff.mp found
      exact ⟨trivial, Nat.zero_le _⟩
  | array items =>
      obtain ⟨data, data_eq, rfl⟩ := Option.map_eq_some_iff.mp found
      have read := Document.ofJson?_of_data data_eq
      refine ⟨?_, Document.depth_le_of_ofJson? _ _ nesting read sound⟩
      obtain ⟨documents, _, document_eq⟩ := Option.map_eq_some_iff.mp read
      rw [Faithful, ← document_eq]
      trivial
  | object members =>
      obtain ⟨data, data_eq, rfl⟩ := Option.map_eq_some_iff.mp found
      have read := Document.ofJson?_of_data data_eq
      refine ⟨?_, Document.depth_le_of_ofJson? _ _ nesting read sound⟩
      obtain ⟨documents, _, document_eq⟩ := Option.map_eq_some_iff.mp read
      rw [Faithful, ← document_eq]
      trivial

end Value

namespace Distribution

theorem depth_toDocument (marginal : Distribution Float) : marginal.toDocument.depth = 1 := by
  cases marginal <;> simp [toDocument, Document.depth, Document.depthOfMembers]

theorem yields : Decoder.Yields Distribution.decode fun nesting marginal =>
    (∀ number ∈ marginal.numbers, number.isFinite = true) ∧
      marginal.toDocument.depth ≤ nesting := by
  refine Decoder.tagged_yields ?_
  simp only [families, List.forall_mem_cons, List.not_mem_nil, false_imp_iff, implies_true,
    and_true]
  refine ⟨?normal, ?logNormal, ?uniform, ?triangular, ?exponential, ?fixed⟩
  case normal =>
    refine Decoder.record_yieldsAhead fun fields value sound built => ?_
    simp only [Option.bind_eq_bind, Option.bind_eq_some_iff, Option.some.injEq] at built
    obtain ⟨mean, mean_found, deviation, deviation_found, rfl⟩ := built
    have mean_finite := Decoder.required_yields Decoder.float_yields sound mean_found
    have deviation_finite := Decoder.required_yields Decoder.float_yields sound deviation_found
    simp [numbers, mean_finite, deviation_finite, depth_toDocument]
  case logNormal =>
    refine Decoder.record_yieldsAhead fun fields value sound built => ?_
    simp only [Option.bind_eq_bind, Option.bind_eq_some_iff, Option.some.injEq] at built
    obtain ⟨mu, mu_found, sigma, sigma_found, rfl⟩ := built
    have mu_finite := Decoder.required_yields Decoder.float_yields sound mu_found
    have sigma_finite := Decoder.required_yields Decoder.float_yields sound sigma_found
    simp [numbers, mu_finite, sigma_finite, depth_toDocument]
  case uniform =>
    refine Decoder.record_yieldsAhead fun fields value sound built => ?_
    simp only [Option.bind_eq_bind, Option.bind_eq_some_iff, Option.some.injEq] at built
    obtain ⟨min, min_found, max, max_found, rfl⟩ := built
    have min_finite := Decoder.required_yields Decoder.float_yields sound min_found
    have max_finite := Decoder.required_yields Decoder.float_yields sound max_found
    simp [numbers, min_finite, max_finite, depth_toDocument]
  case triangular =>
    refine Decoder.record_yieldsAhead fun fields value sound built => ?_
    simp only [Option.bind_eq_bind, Option.bind_eq_some_iff, Option.some.injEq] at built
    obtain ⟨min, min_found, mode, mode_found, max, max_found, rfl⟩ := built
    have min_finite := Decoder.required_yields Decoder.float_yields sound min_found
    have mode_finite := Decoder.required_yields Decoder.float_yields sound mode_found
    have max_finite := Decoder.required_yields Decoder.float_yields sound max_found
    simp [numbers, min_finite, mode_finite, max_finite, depth_toDocument]
  case exponential =>
    refine Decoder.record_yieldsAhead fun fields value sound built => ?_
    simp only [Option.bind_eq_bind, Option.bind_eq_some_iff, Option.some.injEq] at built
    obtain ⟨rate, rate_found, rfl⟩ := built
    have rate_finite := Decoder.required_yields Decoder.float_yields sound rate_found
    simp [numbers, rate_finite, depth_toDocument]
  case fixed =>
    refine Decoder.record_yieldsAhead fun fields value sound built => ?_
    simp only [Option.bind_eq_bind, Option.bind_eq_some_iff, Option.some.injEq] at built
    obtain ⟨value, value_found, rfl⟩ := built
    have value_finite := Decoder.required_yields Decoder.float_yields sound value_found
    simp [numbers, value_finite, depth_toDocument]

end Distribution

namespace CorrelationPartner

theorem yields : Decoder.Yields decode fun nesting partner =>
    partner.coefficient.isFinite = true ∧ partner.toDocument.depth ≤ nesting := by
  refine Decoder.record_yields fun fields partner sound built => ?_
  simp only [Option.bind_eq_bind, Option.bind_eq_some_iff, Option.some.injEq] at built
  obtain ⟨parameter, -, coefficient, coefficient_found, rfl⟩ := built
  exact ⟨Decoder.required_yields Decoder.float_yields sound coefficient_found,
    Document.depth_object_le_iff_fit.mpr (by simp)⟩

end CorrelationPartner

namespace ParameterValue

theorem yields : Decoder.Yields decode fun nesting value =>
    value.Faithful ∧ value.toDocument.depth ≤ nesting := by
  refine Decoder.tagged_yields ?_
  simp only [List.forall_mem_cons, List.not_mem_nil, false_imp_iff, implies_true, and_true]
  refine ⟨?literal, ?distribution⟩
  case literal =>
    refine Decoder.record_yieldsAhead fun fields value sound built => ?_
    simp only [Option.bind_eq_bind, Option.bind_eq_some_iff, Option.some.injEq] at built
    obtain ⟨value, value_found, rfl⟩ := built
    obtain ⟨faithful, fits⟩ := Decoder.required_yields Value.yields sound value_found
    exact ⟨faithful, Document.depth_object_le_iff_fit.mpr (by simp [fits])⟩
  case distribution =>
    refine Decoder.record_yieldsAhead fun fields value sound built => ?_
    simp only [Option.bind_eq_bind, Option.bind_eq_some_iff, Option.some.injEq] at built
    obtain ⟨marginal, marginal_found, estimate, estimate_found, partners, partners_found, rfl⟩ :=
      built
    obtain ⟨marginal_finite, marginal_fits⟩ :=
      Decoder.required_yields Distribution.yields sound marginal_found
    have estimate_finite : ∀ number, estimate = some number → number.isFinite = true := by
      rcases Decoder.optional_yields (Decoder.nullable_yields Decoder.float_yields) sound
        estimate_found with rfl | finite
      · simp
      · exact finite
    rw [toDocument, Decoder.ite_eq_present]
    rcases Decoder.optional_yields (Decoder.list_yields CorrelationPartner.yields) sound
      partners_found with rfl | ⟨inner, nesting_eq, partners_hold⟩
    · refine ⟨⟨marginal_finite, by simpa using estimate_finite, by simp⟩,
        Document.depth_object_le_iff_fit.mpr ?_⟩
      simp [marginal_fits]
    · refine ⟨⟨marginal_finite, by simpa using estimate_finite,
        fun partner member => (partners_hold partner member).1⟩,
        Document.depth_object_le_iff_fit.mpr ?_⟩
      have partners_fit : (Document.list (partners.map CorrelationPartner.toDocument)).depth ≤
          fields.nesting := by
        rw [nesting_eq, Document.depth_list_le, List.forall_mem_map]
        exact fun partner member => (partners_hold partner member).2
      simp [marginal_fits, partners_fit]

end ParameterValue

namespace Parameter

theorem yields : Decoder.Yields decode fun nesting parameter =>
    parameter.value.Faithful ∧ parameter.toDocument.depth ≤ nesting := by
  refine Decoder.record_yields fun fields parameter sound built => ?_
  simp only [Option.bind_eq_bind, Option.bind_eq_some_iff, Option.some.injEq] at built
  obtain ⟨name, -, unit, -, value, value_found, rfl⟩ := built
  obtain ⟨faithful, fits⟩ := Decoder.required_yields ParameterValue.yields sound value_found
  exact ⟨faithful, Document.depth_object_le_iff_fit.mpr (by simp [fits])⟩

end Parameter

namespace CorrelationSpec

theorem yields : Decoder.Yields decode fun nesting spec =>
    spec.coefficient.isFinite = true ∧ spec.toDocument.depth ≤ nesting := by
  refine Decoder.record_yields fun fields spec sound built => ?_
  simp only [Option.bind_eq_bind, Option.bind_eq_some_iff, Option.some.injEq] at built
  obtain ⟨first, -, second, -, coefficient, coefficient_found, rfl⟩ := built
  exact ⟨Decoder.required_yields Decoder.float_yields sound coefficient_found,
    Document.depth_object_le_iff_fit.mpr (by simp)⟩

end CorrelationSpec

/-! ## Equations, constraints and policies -/

namespace Equation

theorem yields : Decoder.Yields decode fun nesting equation =>
    equation.expr.FiniteLiterals ∧ equation.toDocument.Fits equation.expr.HasArguments nesting := by
  refine Decoder.record_yields fun fields equation sound built => ?_
  simp only [Option.bind_eq_bind, Option.bind_eq_some_iff, Option.some.injEq] at built
  obtain ⟨target, -, kind, -, expr, expr_found, dependencies, dependencies_found, rfl⟩ := built
  obtain ⟨finite, fits⟩ := Decoder.required_yields Expr.yields sound expr_found
  refine ⟨finite, Document.fits_object fun slack full => ?_⟩
  have expr_fit := fits slack full
  -- The expression is a container, so the list of dependencies has room beside it.
  have room : 0 < fields.nesting + slack := expr.depth_pos.trans_le expr_fit
  have dependencies_fit : (Document.list (dependencies.map Document.text)).depth ≤
      fields.nesting + slack := by
    have flat : (Document.list (dependencies.map Document.text)).depth ≤ 0 + 1 := by
      simp [Document.depth_list_le]
    exact flat.trans room
  simp [expr_fit, dependencies_fit]

end Equation

namespace Constraint

theorem yields : Decoder.Yields decode fun nesting constraint =>
    constraint.condition.FiniteLiterals ∧
      constraint.toDocument.Fits constraint.condition.HasArguments nesting := by
  refine Decoder.record_yields fun fields constraint sound built => ?_
  simp only [Option.bind_eq_bind, Option.bind_eq_some_iff, Option.some.injEq] at built
  obtain ⟨name, -, condition, condition_found, severity, -, message, -, rfl⟩ := built
  obtain ⟨finite, fits⟩ := Decoder.required_yields Expr.yields sound condition_found
  exact ⟨finite, Document.fits_object fun slack full => by simp [fits slack full]⟩

end Constraint

namespace Action

/-- Every call in an action, and every event that it emits, has arguments. -/
def HasArguments (action : Action) : Prop :=
  ∀ node ∈ action.nodes, (∀ name, node ≠ emit name .empty) ∧ ∀ expr ∈ node.exprs, expr.HasArguments

@[simp]
theorem hasArguments_assign (target : String) (value : Expr) :
    (assign target value).HasArguments ↔ value.HasArguments := by
  simp [HasArguments, nodes, exprs]

@[simp]
theorem hasArguments_emit (name : String) (arguments : Bindings Expr) :
    (emit name arguments).HasArguments ↔
      arguments ≠ .empty ∧ ∀ entry ∈ arguments.entries, entry.2.HasArguments := by
  simp only [HasArguments, nodes, exprs, List.mem_singleton, forall_eq, List.forall_mem_map,
    ne_eq, emit.injEq, not_and]
  exact and_congr_left' ⟨fun full => full name rfl, fun full _ _ => full⟩

@[simp]
theorem hasArguments_block (actions : List Action) :
    (block actions).HasArguments ↔ ∀ action ∈ actions, action.HasArguments := by
  simp only [HasArguments, nodes, List.forall_mem_cons, exprs, List.not_mem_nil, false_imp_iff,
    implies_true, and_true, mem_nodesOfAll_iff, ne_eq, reduceCtorEq, not_false_eq_true, true_and]
  constructor
  · exact fun full action member node inner => full node ⟨action, member, inner⟩
  · rintro full node ⟨action, member, inner⟩
    exact full action member node inner

/-- An action that was read has finite numbers, and its text nests as deep as the one it was read
from, or one container deeper where a call or an event has no arguments. -/
theorem yields_decodeWithin (limit : ℕ) :
    Decoder.Yields (decodeWithin limit) fun nesting action =>
      action.FiniteLiterals ∧ action.toDocument.Fits action.HasArguments nesting := by
  induction limit with
  | zero =>
      intro ahead nesting tree action _ found
      cases found
  | succ limit ih =>
      refine Decoder.tagged_yields ?_
      simp only [variants, List.forall_mem_cons, List.not_mem_nil, false_imp_iff, implies_true,
        and_true]
      refine ⟨?assign, ?block, ?emit⟩
      case assign =>
        refine Decoder.record_yieldsAhead fun fields action sound built => ?_
        simp only [Option.bind_eq_bind, Option.bind_eq_some_iff, Option.some.injEq] at built
        obtain ⟨target, -, value, value_found, rfl⟩ := built
        obtain ⟨finite, fits⟩ := Decoder.required_yields Expr.yields sound value_found
        rw [hasArguments_assign]
        exact ⟨by simpa, Document.fits_object fun slack full => by simp [fits slack full]⟩
      case block =>
        refine Decoder.record_yieldsAhead fun fields action sound built => ?_
        simp only [Option.bind_eq_bind, Option.bind_eq_some_iff, Option.some.injEq] at built
        obtain ⟨actions, actions_found, rfl⟩ := built
        obtain ⟨inner, nesting_eq, actions_hold⟩ :=
          Decoder.required_yields (Decoder.list_yields ih) sound actions_found
        rw [hasArguments_block, toDocument, toDocuments_eq_map]
        refine ⟨by simpa using fun action member => (actions_hold action member).1,
          Document.fits_object fun slack full => ?_⟩
        have actions_fit : (Document.list (actions.map toDocument)).depth ≤ inner + 1 + slack := by
          refine Document.fits_list (fun slack full => List.forall_mem_map.mpr ?_) slack full
          exact fun action member =>
            (actions_hold action member).2 slack fun none => full none action member
        simp [nesting_eq, actions_fit]
      case emit =>
        refine Decoder.record_yieldsAhead fun fields action sound built => ?_
        simp only [Option.bind_eq_bind, Option.bind_eq_some_iff, Option.some.injEq] at built
        obtain ⟨name, -, arguments, arguments_found, rfl⟩ := built
        obtain ⟨finite, fits⟩ := Decoder.optional_entries_fit Expr.yields sound arguments_found
        rw [hasArguments_emit]
        exact ⟨(finiteLiterals_emit name arguments).mpr finite,
          Document.fits_object fun slack full => by simp [fits slack full]⟩

theorem yields : Decoder.Yields decode fun nesting action =>
    action.FiniteLiterals ∧ action.toDocument.Fits action.HasArguments nesting :=
  fun _ nesting _ _ sound found => yields_decodeWithin nesting sound found

end Action

namespace Policy

/-- Every call in a policy, and every event that it emits, has arguments. -/
structure HasArguments (policy : Policy) : Prop where
  trigger : policy.trigger.HasArguments
  action : policy.action.HasArguments

theorem yields : Decoder.Yields decode fun nesting policy =>
    policy.FiniteLiterals ∧ policy.toDocument.Fits policy.HasArguments nesting := by
  refine Decoder.record_yields fun fields policy sound built => ?_
  simp only [Option.bind_eq_bind, Option.bind_eq_some_iff, Option.some.injEq] at built
  obtain ⟨name, -, trigger, trigger_found, action, action_found, rfl⟩ := built
  obtain ⟨trigger_finite, trigger_fits⟩ :=
    Decoder.required_yields Expr.yields sound trigger_found
  obtain ⟨action_finite, action_fits⟩ := Decoder.required_yields Action.yields sound action_found
  refine ⟨⟨trigger_finite, action_finite⟩, Document.fits_object fun slack full => ?_⟩
  have trigger_fit := trigger_fits slack fun none => (full none).trigger
  have action_fit := action_fits slack fun none => (full none).action
  simp [trigger_fit, action_fit]

end Policy

/-! ## Models -/

namespace Model

/-- Every call in a model, and every event that its policies emit, has arguments. -/
structure HasArguments (model : Model) : Prop where
  equations : ∀ equation ∈ model.equations, equation.expr.HasArguments
  constraints : ∀ constraint ∈ model.constraints, constraint.condition.HasArguments
  policies : ∀ policy ∈ model.policies, policy.HasArguments

/-- A model that was read can be told from its text, which nests as deep as the text it was read
from, or one container deeper where a call or an event has no arguments. -/
theorem yields : Decoder.Yields decode fun nesting model =>
    2 ≤ nesting → model.Faithful ∧ model.toDocument.Fits model.HasArguments nesting := by
  refine Decoder.record_yields fun fields model sound built room => ?_
  simp only [Option.bind_eq_bind, Option.bind_eq_some_iff, Option.some.injEq] at built
  obtain ⟨version, -, name, -, horizon, -, parameters, parameters_found, equations,
    equations_found, constraints, constraints_found, policies, policies_found, correlations,
    correlations_found, rfl⟩ := built
  have inside : 0 < fields.nesting := Nat.le_of_succ_le_succ room
  obtain ⟨parameters_faithful, parameters_fit⟩ := Decoder.optional_list_fits (fun _ => True)
    (Parameter.yields.imp fun _ _ held => ⟨held.1, Document.fits_of_depth_le held.2⟩)
    sound inside parameters_found
  obtain ⟨equations_finite, equations_fit⟩ :=
    Decoder.optional_list_fits _ Equation.yields sound inside equations_found
  obtain ⟨constraints_finite, constraints_fit⟩ :=
    Decoder.optional_list_fits _ Constraint.yields sound inside constraints_found
  obtain ⟨policies_finite, policies_fit⟩ :=
    Decoder.optional_list_fits _ Policy.yields sound inside policies_found
  obtain ⟨correlations_finite, correlations_fit⟩ := Decoder.optional_list_fits (fun _ => True)
    (CorrelationSpec.yields.imp fun _ _ held => ⟨held.1, Document.fits_of_depth_le held.2⟩)
    sound inside correlations_found
  refine ⟨⟨parameters_faithful, equations_finite, constraints_finite, policies_finite,
    correlations_finite⟩, ?_⟩
  rw [toDocument, Decoder.ite_eq_present]
  refine Document.fits_object fun slack full => ?_
  have parameters_depth := parameters_fit slack fun _ _ _ => trivial
  have equations_depth := equations_fit slack fun none => (full none).equations
  have constraints_depth := constraints_fit slack fun none => (full none).constraints
  have policies_depth := policies_fit slack fun none => (full none).policies
  have correlations_depth := correlations_fit slack fun _ _ _ => trivial
  simp [parameters_depth, equations_depth, constraints_depth, policies_depth, correlations_depth]

/-! ## A text that leaves things out -/

/-- A call without arguments behind some negations. -/
def negatedCall : ℕ → Expr
  | 0 => .call "abs" []
  | count + 1 => .unary .not (negatedCall count)

/-- A document of that expression which leaves the arguments out. -/
def negatedCallDocument : ℕ → Document
  | 0 => .object [("kind", .text "call"), ("function", .text "abs")]
  | count + 1 => .object [("kind", .text "unary"), ("op", .text "not"),
      ("operand", negatedCallDocument count)]

/-- The equation that starts a variable at that expression. -/
def negatedStart (count : ℕ) : Equation := ⟨"x", .initial, negatedCall count, []⟩

/-- A document of that equation which leaves out all that reading supplies. -/
def negatedStartDocument (count : ℕ) : Document :=
  .object [("variable", .text "x"), ("kind", .text "initial"), ("expr", negatedCallDocument count)]

/-- The model of that equation. -/
def negating (count : ℕ) : Model :=
  { blank "negation" 1 with equations := [negatedStart count] }

/-- A document of that model which leaves out all that reading supplies. -/
def negatingDocument (count : ℕ) : Document :=
  .object [("name", .text "negation"), ("horizon", .word 1),
    ("equations", .list [negatedStartDocument count])]

theorem finiteLiterals_negatedCall (count : ℕ) : (negatedCall count).FiniteLiterals := by
  induction count with
  | zero => simp [negatedCall]
  | succ count ih => simpa [negatedCall] using ih

theorem depth_negatedCallDocument (count : ℕ) : (negatedCallDocument count).depth = count + 1 := by
  induction count with
  | zero => rfl
  | succ count ih =>
      simp [negatedCallDocument, Document.depth, Document.depthOfMembers, ih, Nat.add_comm]

theorem depth_negatedCall (count : ℕ) : (negatedCall count).toDocument.depth = count + 2 := by
  induction count with
  | zero => rfl
  | succ count ih =>
      simp [negatedCall, Expr.toDocument, Document.depth, Document.depthOfMembers, ih,
        Nat.add_left_comm]

theorem depth_negating (count : ℕ) : (negating count).toDocument.depth = count + 5 := by
  simp [negating, negatedStart, blank, toDocument, Equation.toDocument, Document.depth,
    Document.depthOfMembers, Document.depthOfItems, depth_negatedCall]
  omega

theorem depth_negatingDocument (count : ℕ) : (negatingDocument count).depth = count + 4 := by
  simp [negatingDocument, negatedStartDocument, Document.depth, Document.depthOfMembers,
    Document.depthOfItems, depth_negatedCallDocument]
  omega

theorem negatedCallDocument_reads (count : ℕ) : ∀ {limit nesting : ℕ}, nesting ≤ limit →
    Decoder.Reads (Expr.decodeWithin limit) nesting (negatedCallDocument count) (negatedCall count)
      (negatedCall count).FiniteLiterals := by
  induction count with
  | zero =>
      refine Expr.reads_variant (fun _ => rfl) (by decide) (by exact .cons_cons _ (.cons _ .slnil))
        fun depth inner enough ahead fits => ?_
      have function_reads := Decoder.required_reads "function" rfl (Decoder.reads_text "abs") fits
      simp [Option.bind_eq_some_iff, function_reads, Decoder.absent_reads, Bindings.find?,
        negatedCall]
  | succ count ih =>
      refine Expr.reads_variant (fun _ => rfl) (by decide) (by rfl)
        fun depth inner enough ahead fits => ?_
      have op_reads := Decoder.required_reads "op" rfl
        (Decoder.reads_choice (Expr.name_find? .not)) fits
      have operand_reads := Decoder.required_reads "operand" rfl (ih enough) fits
      simp [Option.bind_eq_some_iff, op_reads, operand_reads, negatedCall]

theorem negatedStartDocument_reads (count nesting : ℕ) :
    Decoder.Reads Equation.decode nesting (negatedStartDocument count) (negatedStart count)
      (negatedCall count).FiniteLiterals := by
  have call_reads (nesting : ℕ) : Decoder.Reads Expr.decode nesting (negatedCallDocument count)
      (negatedCall count) (negatedCall count).FiniteLiterals :=
    negatedCallDocument_reads count (le_refl nesting)
  refine Decoder.record_reads (by decide)
    (by exact .cons_cons _ (.cons_cons _ (.cons_cons _ (.cons _ .slnil))))
    fun inner _ ahead fits => ?_
  have target_reads := Decoder.required_reads "variable" rfl (Decoder.reads_text "x") fits
  have kind_reads := Decoder.required_reads "kind" rfl
    (Decoder.reads_choice (EquationKind.find?_byName .initial)) fits
  have expr_reads := Decoder.required_reads "expr" rfl (call_reads inner) fits
  simp [Option.bind_eq_some_iff, target_reads, kind_reads, expr_reads, Decoder.absent_reads,
    Bindings.find?, negatedStart]

theorem negatingDocument_reads (count nesting : ℕ) :
    Decoder.Reads decode nesting (negatingDocument count) (negating count)
      (negatedCall count).FiniteLiterals := by
  have starts_read (nesting : ℕ) : Decoder.Reads (Decoder.list Equation.decode) nesting
      (.list ([negatedStart count].map fun _ => negatedStartDocument count)) [negatedStart count]
      (∀ _equation ∈ [negatedStart count], (negatedCall count).FiniteLiterals) := by
    refine Decoder.list_reads _ fun inner _ equation member => ?_
    rw [List.mem_singleton.mp member]
    exact negatedStartDocument_reads count inner
  refine Decoder.record_reads (by decide)
    (by exact .cons _ (.cons_cons _ (.cons_cons _ (.cons _ (.cons_cons _ (.cons _ (.cons _
      (.cons _ .slnil)))))))) fun inner _ ahead fits => ?_
  have name_reads := Decoder.required_reads "name" rfl (Decoder.reads_text "negation") fits
  have horizon_reads := Decoder.required_reads "horizon" rfl (Decoder.reads_word 1) fits
  have equations_reads := Decoder.optional_reads "equations" [] rfl (starts_read inner) fits
  simp [Option.bind_eq_some_iff, name_reads, horizon_reads, equations_reads, Decoder.absent_reads,
    Bindings.find?, negating, blank]

/-- The short text of the model is read while the call is in a container that may be entered. -/
theorem ofText?_negatingDocument (count : ℕ) :
    ofText? (negatingDocument count).compact = some (negating count) ↔ count ≤ 123 := by
  have read := Json.decode_render_eq_some_iff (negatingDocument_reads count Json.nestingLimit)
    .compact
  rw [depth_negatingDocument, and_iff_right (finiteLiterals_negatedCall count)] at read
  exact read.trans (by simp [Json.nestingLimit])

/-! ## The text of a model that was read -/

/-- A model that was read from a text reads back from its own text, in either style, exactly where
that does not nest too deep.  It nests at most one container deeper than is allowed, and only where
a call or an event has no arguments. -/
theorem ofText?_text_iff_depth_le {text : String} {model : Model}
    (accepted : ofText? text = some model) :
    (ofText? model.text = some model ↔ model.toDocument.depth ≤ 127) ∧
      (ofText? model.compactText = some model ↔ model.toDocument.depth ≤ 127) ∧
      model.toDocument.depth ≤ 128 ∧ (model.HasArguments → model.toDocument.depth ≤ 127) := by
  obtain ⟨tree, -, decoded⟩ := Option.bind_eq_some_iff.mp accepted
  have read : decode false Json.nestingLimit tree = some model := decoded
  obtain ⟨faithful, fits⟩ := yields (by simp) read (by decide)
  refine ⟨?_, ?_, fits.le⟩
  · exact (model.ofText?_render_eq_some_iff .indented).trans (and_iff_right faithful)
  · exact (model.ofText?_render_eq_some_iff .compact).trans (and_iff_right faithful)

theorem ofText?_text_negating :
    ofText? (negatingDocument 122).compact = some (negating 122) ∧
      ofText? (negating 122).text = some (negating 122) ∧
      ofText? (negating 122).compactText = some (negating 122) := by
  have accepted := (ofText?_negatingDocument 122).mpr (by decide)
  have shallow : (negating 122).toDocument.depth ≤ 127 := (depth_negating 122).le
  obtain ⟨indented, compact, -⟩ := ofText?_text_iff_depth_le accepted
  exact ⟨accepted, indented.mpr shallow, compact.mpr shallow⟩

/-- Where a call without arguments stands in the last container that may be entered, the text of a
model that was read nests too deep. -/
theorem ofText?_text_negating_ne :
    ofText? (negatingDocument 123).compact = some (negating 123) ∧
      ofText? (negating 123).text ≠ some (negating 123) ∧
      ofText? (negating 123).compactText ≠ some (negating 123) := by
  have deep : ¬(negating 123).toDocument.depth ≤ 127 := by
    rw [depth_negating]
    decide
  refine ⟨(ofText?_negatingDocument 123).mpr (le_refl _), fun read => ?_, fun read => ?_⟩
  · exact deep (((negating 123).ofText?_render_eq_some_iff .indented).mp read).2
  · exact deep (((negating 123).ofText?_render_eq_some_iff .compact).mp read).2

end Model

end EconModel
