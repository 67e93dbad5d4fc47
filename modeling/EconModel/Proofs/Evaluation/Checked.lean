import EconModel.Proofs.Evaluation.Failures
import EconModel.Proofs.State
import EconModel.Proofs.Validation.Accepted

/-!
# Evaluations of checked expressions

An expression that passes the check against a scope refers to declared names and calls known
functions.  A context that has the declared names evaluates it without the failures that the check
rules out, at every timestep and whatever the values are.  Other failures remain: a value may be
missing, of the wrong kind or not finite, and a function may refuse its arguments.
-/

namespace EconModel

/-- Whether the checks of a model rule a failure out. -/
def EvalError.isRuledOut : EvalError → Bool
  | .unknownIdentifier _ | .unknownFunction _ | .blockDepthExceeded _ => true
  | .missingDependency _ _ | .typeMismatch _ _ | .nonFinite _ | .divisionByZero
  | .timeOutOfRange _ _ | .callFailed _ _ => false

/-- The functions that a registry contains fail only by refusing their arguments. -/
def FunctionRegistry.Regular (functions : FunctionRegistry) : Prop :=
  ∀ function arguments error, functions.contains function = true →
    functions.call function arguments = .error error →
      ∃ name reason, error = .callFailed name reason

/-- The registries that are made of lists of functions are regular. -/
theorem Catalogue.regular_toRegistry (catalogue : Catalogue) : catalogue.toRegistry.Regular := by
  intro function arguments error contained failed
  obtain ⟨apply, found⟩ := (Bindings.mem_names_iff catalogue function).mp
    ((Bindings.contains_iff_mem_names catalogue function).mp contained)
  simp only [toRegistry, found] at failed
  cases applied : apply arguments with
  | ok value => simp [applied] at failed
  | error reason =>
      simp only [applied, Except.error.injEq] at failed
      exact ⟨function, reason, failed.symm⟩

/-! ## The check of an expression -/

namespace Validation.Scope

variable {scope : Scope} {functions : FunctionRegistry}

/-- An expression refers to declared names and calls known functions. -/
structure Admits (scope : Scope) (functions : FunctionRegistry) (expr : Expr) : Prop where
  ident : ∀ name, .ident name ∈ expr.nodes → scope.knows name = true
  /-- What is looked up at a lag is a variable. -/
  lagged : ∀ name lag, .lagged name lag ∈ expr.nodes → name ∈ scope.variableNames
  call : ∀ function arguments, .call function arguments ∈ expr.nodes →
    functions.contains function = true

theorem checkExpr_eq_ok_iff {location : String} {expr : Expr} :
    scope.checkExpr functions location expr = .ok () ↔ scope.Admits functions expr := by
  rw [checkExpr, checkNone_eq_ok_iff, List.findSome?_eq_none_iff]
  constructor
  · intro passed
    refine ⟨fun name node => ?_, fun name lag node => ?_, fun function arguments node => ?_⟩
    · simpa [nodeDefect?] using passed _ node
    · have lookup := passed _ node
      simp only [nodeDefect?] at lookup
      split at lookup
      · next declared => exact List.contains_iff_mem.mp declared
      · split at lookup <;> cases lookup
    · simpa [nodeDefect?] using passed _ node
  · intro admits node member
    cases node with
    | ident name => simp [nodeDefect?, admits.ident name member]
    | lagged name lag => simp [nodeDefect?, admits.lagged name lag member]
    | call function arguments => simp [nodeDefect?, admits.call function arguments member]
    | number | boolean | text | time | unary | binary | conditional => rfl

theorem Admits.of_subset {part whole : Expr} (admits : scope.Admits functions whole)
    (within : ∀ node ∈ part.nodes, node ∈ whole.nodes) : scope.Admits functions part :=
  ⟨fun name node => admits.ident name (within _ node),
    fun name lag node => admits.lagged name lag (within _ node),
    fun function arguments node => admits.call function arguments (within _ node)⟩

theorem knows_iff {name : String} : scope.knows name = true ↔
    name ∈ scope.parameters ∨ name ∈ scope.scalars ∨ name ∈ scope.variableNames := by
  simp [knows, or_assoc]

/-- Every name that an admitted expression refers to is declared. -/
theorem Admits.knows_of_refersTo {expr : Expr} (admits : scope.Admits functions expr)
    {name : String} (refers : expr.RefersTo name) : scope.knows name = true := by
  obtain ⟨node, member, name_eq⟩ := refers
  cases node with
  | ident other =>
      cases name_eq
      exact admits.ident name member
  | lagged other lag =>
      cases name_eq
      exact knows_iff.mpr (.inr (.inr (admits.lagged name lag member)))
  | number | boolean | text | time | unary | binary | conditional | call => cases name_eq

end Validation.Scope

/-! ## The checks around expressions -/

namespace Validation

variable {scope : Scope} {functions : FunctionRegistry}

theorem checkConstraint_eq_ok_iff {constraint : Constraint} :
    checkConstraint scope functions constraint = .ok () ↔
      scope.Admits functions constraint.condition :=
  Scope.checkExpr_eq_ok_iff

theorem checkAction_assign_eq_ok_iff {policy target : String} {value : Expr} :
    checkAction scope functions policy (.assign target value) = .ok () ↔
      target ∈ scope.variableNames ∧ scope.Admits functions value := by
  rw [checkAction]
  split
  · next declared =>
    rw [Scope.checkExpr_eq_ok_iff]
    exact ⟨fun admits => ⟨List.contains_iff_mem.mp declared, admits⟩, And.right⟩
  · next undeclared =>
    constructor
    · intro passed
      cases passed
    · rintro ⟨declared, _⟩
      exact absurd (List.contains_iff_mem.mpr declared) undeclared

theorem checkAction_emit_eq_ok_iff {policy name : String} {arguments : Bindings Expr} :
    checkAction scope functions policy (.emit name arguments) = .ok () ↔
      Text.isBlank name = false ∧
        ∀ entry ∈ arguments.entries, scope.Admits functions entry.2 := by
  rw [checkAction, bind_eq_ok_iff, checkName_eq_ok_iff, checkAll_eq_ok_iff]
  simp only [Scope.checkExpr_eq_ok_iff]

theorem checkPolicy_eq_ok_iff {blockLimit : UInt64} {policy : Policy} :
    checkPolicy scope functions blockLimit policy = .ok () ↔
      scope.Admits functions policy.trigger ∧ policy.action.depth ≤ blockLimit.toNat ∧
        ∀ node ∈ policy.action.nodes, checkAction scope functions policy.name node = .ok () := by
  have parts : checkPolicy scope functions blockLimit policy =
      (scope.checkExpr functions (Policy.location policy.name) policy.trigger >>= fun _ =>
        if blockLimit.toNat < policy.action.depth then
          .error (.blockTooDeep policy.name blockLimit)
        else checkAll (checkAction scope functions policy.name) policy.action.nodes) := by
    unfold checkPolicy
    refine congrArg _ (funext fun _ => ?_)
    split <;> rfl
  rw [parts, bind_eq_ok_iff, ite_error_eq_ok_iff, checkAll_eq_ok_iff, Scope.checkExpr_eq_ok_iff,
    Nat.not_lt]

end Validation

/-! ## The evaluation of an expression -/

namespace Evaluation

variable {α β : Type}

/-- An evaluation does not fail in a way that is ruled out. -/
def Regular (evaluation : Evaluation α) : Prop :=
  ∀ error, evaluation.result = .error error → error.isRuledOut = false

theorem regular_iff {evaluation : Evaluation α} :
    evaluation.Regular ↔ evaluation.FailsWithin fun error => error.isRuledOut = false := Iff.rfl

/-- Operators do not fail in a way that is ruled out. -/
theorem permitsOperators_regular : PermitsOperators fun error => error.isRuledOut = false :=
  ⟨fun _ _ => rfl, fun _ => rfl, rfl⟩

theorem regular_pure (value : α) : Regular (pure value : Evaluation α) := failsWithin_pure value

theorem Regular.andThen {first : Evaluation α} (regular : first.Regular)
    {next : α → Evaluation β}
    (regular_next : ∀ value, first.result = .ok value → (next value).Regular) :
    (first.andThen next).Regular :=
  FailsWithin.andThen (regular_iff.mp regular) fun value found =>
    regular_iff.mp (regular_next value found)

theorem regular_number (value : Value) : (number value).Regular :=
  failsWithin_number permitsOperators_regular value

theorem regular_boolean (value : Value) : (boolean value).Regular :=
  failsWithin_boolean permitsOperators_regular value

theorem Regular.finite {evaluation : Evaluation Value} (regular : evaluation.Regular) :
    evaluation.finite.Regular :=
  FailsWithin.finite permitsOperators_regular (regular_iff.mp regular)

theorem regular_forAll {evaluate : α → Evaluation β} {entries : List α}
    (each : ∀ entry ∈ entries, (evaluate entry).Regular) : (forAll evaluate entries).Regular :=
  failsWithin_forAll fun entry member => regular_iff.mp (each entry member)

end Evaluation

namespace Context

open Evaluation

/-- A context has the names that are declared, each in its place. -/
structure Covers (context : Context) (scope : Validation.Scope) : Prop where
  parameter : ∀ name ∈ scope.parameters, context.environment.parameters.contains name = true
  scalar : ∀ name ∈ scope.scalars, context.environment.scalars.contains name = true
  series : ∀ name ∈ scope.variableNames, context.state.hasVariable name = true

section Covered

variable {context : Context} {scope : Validation.Scope} (covers : context.Covers scope)

include covers

/-- A declared variable is never unknown, at any lag. -/
theorem regular_lookup {name : String} (declared : name ∈ scope.variableNames) (lag : UInt64) :
    (ofResult (context.lookup name lag)).Regular := by
  intro error failed
  change context.lookup name lag = _ at failed
  unfold lookup at failed
  rw [if_pos (covers.series name declared)] at failed
  split at failed
  · split at failed
    · cases failed
      rfl
    · cases failed
      rfl
    · cases failed
  · cases failed
    rfl

/-- A declared name is never unknown: it is a parameter, a scalar or a variable. -/
theorem regular_resolve {name : String} (declared : scope.knows name = true) :
    (ofResult (context.resolve name)).Regular := by
  have bound {table : Bindings Value} (contained : table.contains name = true) :
      table.get? name ≠ none := fun absent =>
    (Bindings.get?_eq_none_iff table name).mp absent
      ((Bindings.contains_iff_mem_names table name).mp contained)
  intro error failed
  change context.resolve name = _ at failed
  unfold resolve at failed
  split at failed
  · cases failed
  · next no_parameter =>
    split at failed
    · cases failed
    · next no_scalar =>
      rcases Validation.Scope.knows_iff.mp declared with parameter | scalar | indexed
      · exact (bound (covers.parameter name parameter) no_parameter).elim
      · exact (bound (covers.scalar name scalar) no_scalar).elim
      · exact regular_lookup covers indexed 0 error failed

theorem regular_eval (regular : context.environment.functions.Regular) {expr : Expr}
    (admits : scope.Admits context.environment.functions expr) : (context.eval expr).Regular := by
  refine failsWithin_eval permitsOperators_regular ⟨?_, ?_, ?_⟩
  · exact fun name node => regular_resolve covers (admits.ident name node)
  · exact fun name lag node => regular_lookup covers (admits.lagged name lag node) lag
  · intro function arguments node values error failed
    obtain ⟨name, reason, rfl⟩ :=
      regular function values error (admits.call function arguments node) failed
    rfl

end Covered

/-- Whatever an expression is evaluated for, no failure is ruled out. -/
structure RegularAt (context : Context) (expr : Expr) : Prop where
  eval : (context.eval expr).Regular
  /-- A value that is stored, or an argument of an event. -/
  evalFinite : (context.evalFinite expr).Regular
  /-- A condition or a trigger. -/
  evalBoolean : (context.evalBoolean expr).Regular
  /-- A side of a missed comparison. -/
  evalNumber : (context.evalNumber expr).Regular

theorem Covers.regularAt {context : Context} {scope : Validation.Scope}
    (covers : context.Covers scope) (regular : context.environment.functions.Regular) {expr : Expr}
    (admits : scope.Admits context.environment.functions expr) : context.RegularAt expr where
  eval := regular_eval covers regular admits
  evalFinite := (regular_eval covers regular admits).finite
  evalBoolean := (regular_eval covers regular admits).andThen fun value _ => regular_boolean value
  evalNumber :=
    (regular_eval covers regular admits).finite.andThen fun value _ => regular_number value

end Context

end EconModel
