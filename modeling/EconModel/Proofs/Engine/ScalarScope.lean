import EconModel.Proofs.Engine.Soundness

/-!
# Unknown names in equations of scalars

All expressions of a model are checked against one scope, but scalars are resolved before there are
any variables.  So an equation of a scalar that asks for a variable is accepted and then fails in
the run.  This is the only gap: any other name that the equation of a scalar does not find is a
scalar that is itself unresolved.
-/

namespace EconModel

namespace Context

variable {context : Context} {name other : String}

theorem eq_of_lookup_eq_unknown {lag : UInt64}
    (failed : context.lookup name lag = .error (.unknownIdentifier other)) : other = name := by
  unfold lookup at failed
  split at failed
  · split at failed
    · split at failed <;> cases failed
    · cases failed
  · cases failed
    rfl

/-- A name is unknown only if it is neither a parameter nor a scalar. -/
theorem get?_of_resolve_eq_unknown
    (failed : context.resolve name = .error (.unknownIdentifier other)) :
    other = name ∧ context.environment.parameters.get? name = none ∧
      context.environment.scalars.get? name = none := by
  unfold resolve at failed
  split at failed
  · cases failed
  · next no_parameter =>
    split at failed
    · cases failed
    · next no_scalar => exact ⟨eq_of_lookup_eq_unknown failed, no_parameter, no_scalar⟩

/-- If a failure says that a name is unknown, then the expression refers to the name, which is a
variable or a scalar without a value. -/
def Accounts (context : Context) (scope : Validation.Scope) (expr : Expr) (error : EvalError) :
    Prop :=
  ∀ name, error = .unknownIdentifier name →
    expr.RefersTo name ∧
      (name ∈ scope.variableNames ∨
        name ∈ scope.scalars ∧ context.environment.scalars.get? name = none)

section Accounts

variable {scope : Validation.Scope} {expr : Expr}

theorem permitsOperators_accounts : PermitsOperators (context.Accounts scope expr) := by
  constructor <;> intros <;> rintro _ ⟨⟩

variable
  (parameters : ∀ name ∈ scope.parameters, context.environment.parameters.contains name = true)
  (regular : context.environment.functions.Regular)
  (admits : scope.Admits context.environment.functions expr)

include parameters regular admits

theorem provides_accounts : context.Provides (context.Accounts scope expr) expr := by
  refine ⟨?_, ?_, ?_⟩
  · rintro name node _ missed other rfl
    obtain ⟨rfl, no_parameter, no_scalar⟩ := get?_of_resolve_eq_unknown missed
    refine ⟨⟨_, node, rfl⟩, ?_⟩
    rcases Validation.Scope.knows_iff.mp (admits.ident other node) with
      parameter | scalar | indexed
    · have given := parameters other parameter
      rw [Bindings.contains_iff_mem_names] at given
      exact ((Bindings.get?_eq_none_iff _ _).mp no_parameter given).elim
    · exact .inr ⟨scalar, no_scalar⟩
    · exact .inl indexed
  · rintro name lag node _ missed other rfl
    obtain rfl := eq_of_lookup_eq_unknown missed
    exact ⟨⟨_, node, rfl⟩, .inl (admits.lagged other lag node)⟩
  · rintro function arguments node values _ refused other rfl
    obtain ⟨_, _, impossible⟩ :=
      regular function values _ (admits.call function arguments node) refused
    cases impossible

/-- Where the parameters have values, a name that a checked expression does not find is a variable
or a scalar without a value. -/
theorem unknown_of_evalFinite
    (failed : (context.evalFinite expr).result = .error (.unknownIdentifier name)) :
    expr.RefersTo name ∧
      (name ∈ scope.variableNames ∨
        name ∈ scope.scalars ∧ context.environment.scalars.get? name = none) :=
  failsWithin_evalFinite permitsOperators_accounts (provides_accounts parameters regular admits)
    _ failed name rfl

end Accounts

end Context

namespace Engine

variable {engine : Engine} {value : Parameter → Value} {target name : String}

/-- A scalar that is missing where the resolution of the scalars ends is unresolved. -/
theorem mem_names_unresolved_of_missing {parameters : Bindings Value}
    (declared : name ∈ engine.model.scalars)
    (missing : (engine.resolveScalars parameters).2.1.get? name = none) :
    name ∈ (engine.resolveScalars parameters).1.unresolved.names := by
  obtain ⟨done, failed, ends⟩ := engine.exists_scalarsEnd parameters
  obtain ⟨equation, member, kind_eq, rfl⟩ := (Model.mem_scalars_iff _ _).mp declared
  have pending := (Model.mem_equationsOf_iff _ _ _).mpr ⟨member, kind_eq⟩
  refine (ends.divides.mem_names_unresolved ends.ready.distinct _).mpr ⟨equation, pending, ?_, rfl⟩
  intro resolved
  obtain ⟨value, _, kept⟩ := ends.settles.solved equation resolved
  change (engine.resolveScalars parameters).2.1.get? equation.target = some value at kept
  rw [missing] at kept
  cases kept

/-- What an unresolved scalar of an accepted model does not find is a variable or a scalar that is
unresolved too; and its equation refers to it. -/
theorem unknown_of_unresolved_scalar (regular : engine.functions.Regular)
    (unresolved : (engine.resolveScalars (parametersBy engine.model value)).1.unresolved.get? target =
      some (.unknownIdentifier name)) :
    (∃ equation ∈ engine.model.equationsOf .scalar,
      equation.target = target ∧ equation.expr.RefersTo name) ∧
    (name ∈ engine.model.variableNames ∨
      name ∈ engine.model.scalars ∧
        name ∈ (engine.resolveScalars
          (parametersBy engine.model value)).1.unresolved.names) := by
  obtain ⟨done, failed, ends⟩ := engine.exists_scalarsEnd (parametersBy engine.model value)
  obtain ⟨equation, entry_mem, target_eq⟩ :=
    (ends.divides.get?_unresolved ends.ready.distinct target _).mp unresolved
  obtain ⟨pending, _, failed_with⟩ :=
    (ends.mem_failed_iff (engine.length_le_startingLimit _) equation _).mp entry_mem
  have admits := engine.accepted.admits
    (.equation ((Model.mem_equationsOf_iff _ _ _).mp pending).1)
  obtain ⟨refers, place⟩ := Context.unknown_of_evalFinite
    (fun _ declared => contains_parametersBy_iff.mpr declared) regular admits failed_with
  refine ⟨⟨equation, pending, target_eq, refers⟩, place.imp_right ?_⟩
  rintro ⟨scalar, missing⟩
  exact ⟨scalar, mem_names_unresolved_of_missing scalar missing⟩

/-- A model with a scalar that asks for a variable, and another one that asks for the first. -/
def leakingModel : Model :=
  { Model.blank "leaking" 1 with
    equations :=
      [⟨"level", .initial, .number 1.0, []⟩, ⟨"share", .scalar, .ident "level", []⟩,
        ⟨"rest", .scalar, .binary .sub (.number 1.0) (.ident "share"), []⟩] }

def leakingEngine : Engine :=
  .ofValid leakingModel Catalogue.standard.toRegistry .default validate_default rfl

theorem unknown_of_unresolved_scalar_leaking :
    (∃ equation ∈ leakingModel.equationsOf .scalar,
      equation.target = "rest" ∧ equation.expr.RefersTo "share") ∧
    "share" ∉ leakingModel.variableNames ∧
    "share" ∈ (leakingEngine.resolveScalars
      (parametersBy leakingModel Parameter.pointValue)).1.unresolved.names := by
  have unresolved : (leakingEngine.resolveScalars
      (parametersBy leakingEngine.model Parameter.pointValue)).1.unresolved.get? "rest" =
        some (.unknownIdentifier "share") := rfl
  obtain ⟨refers, place⟩ :=
    unknown_of_unresolved_scalar (Catalogue.regular_toRegistry _) unresolved
  have other : "share" ∉ leakingModel.variableNames := by decide
  exact ⟨refers, other, (place.resolve_left other).2⟩

/-- The model is accepted, the scalar does not find the variable, and the run fails for it. -/
theorem unknown_variable_leaking :
    leakingModel.validate Catalogue.standard.toRegistry EngineConfig.default.blockLimit = .ok () ∧
    (leakingEngine.resolveScalars
      (parametersBy leakingModel Parameter.pointValue)).1.unresolved.get? "share" =
        some (.unknownIdentifier "level") ∧
    "level" ∉ leakingModel.scalars ∧
    leakingEngine.runDeterministic 0 =
      .error (.invalidModel (.unresolvedScalars ["share", "rest"])) :=
  ⟨rfl, rfl, by decide, rfl⟩

end Engine

end EconModel
