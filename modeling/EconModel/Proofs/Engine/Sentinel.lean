import EconModel.Proofs.Engine.Settlement
import EconModel.Proofs.Engine.Storing
import EconModel.Proofs.Engine.Undefined
import EconModel.Proofs.Functions
import EconModel.Proofs.RoundTrip.Model

/-!
# The undefined value as a sentinel

An undefined slot is a missing dependency, and no operator or standard function yields the undefined
value.  The one way for it to become a value is a parameter that is given it: a model may say `null`
where it gives a literal.  Without such a parameter no evaluation of a run yields the undefined
value, so none is kept for a scalar or for a variable that was resolved.
-/

namespace EconModel

/-- Some parameter of a model is given the undefined value. -/
def Model.GivesUndefined (model : Model) : Prop :=
  ∃ parameter ∈ model.parameters, parameter.value = .literal .undefined

namespace Engine

/-- In no run with the given parameters does the undefined value become a value. -/
structure SparesUndefined (engine : Engine) (parameters : Bindings Value) : Prop where
  /-- As long as no scalar is undefined, no expression yields it, in whatever state and at whatever
  timestep. -/
  eval : ∀ scalars : Bindings Value, (∀ name, scalars.get? name ≠ some .undefined) →
    ∀ timestep state expr, (((engine.environment parameters scalars).view timestep state).eval
      expr).result ≠ .ok .undefined
  /-- Whenever a scalar is attempted, none is undefined. -/
  attempted : ∀ visit ∈ Solver.visits (engine.scalarStep parameters)
      (engine.startingLimit (engine.model.equationsOf .scalar))
      (engine.model.equationsOf .scalar) (.empty, []),
    ∀ name, visit.2.1.get? name ≠ some .undefined
  /-- When the scalars are resolved, none is undefined. -/
  solved : ∀ {scalars : Bindings Value} {marks : List Diagnostic},
    engine.solveScalars parameters = .ok (scalars, marks) →
      ∀ name, scalars.get? name ≠ some .undefined
  /-- At every timestep that a run reaches, a variable that is resolved has a value. -/
  resolved : ∀ {scalars : Bindings Value} {marks : List Diagnostic},
    engine.solveScalars parameters = .ok (scalars, marks) →
      ∀ {checkpoint : Checkpoint} {position : Position},
        engine.Reaches (engine.environment parameters scalars) checkpoint position →
          ∀ equation ∈ engine.pendingAt position.timestep,
            equation.target ∉ (engine.resolveAt (engine.environment parameters scalars)
              position.timestep (engine.openedAt position)).1.unresolved.names →
              ∃ value, value ≠ .undefined ∧
                (engine.settledContext (engine.environment parameters scalars)
                  position).state.valueAt? equation.target position.timestep = some value

variable {engine : Engine} {parameters : Bindings Value}

/-! ## Scalars -/

/-- Where an environment is without undefined values, keeping what is evaluated in it leaves it so,
at every attempt. -/
theorem stays_defined (engine : Engine) (parameters : Bindings Value) :
    Solver.Stays (engine.scalarStep parameters) (engine.model.equationsOf .scalar)
      fun entry => (engine.environment parameters entry.1).Defined := by
  have writes : ∀ equation ∈ engine.model.equationsOf .scalar,
      ∀ {scalars next : Bindings Value} {value : Value},
        (engine.environment parameters scalars).Defined →
          ((engine.scalarView parameters scalars).evalFinite equation.expr).result = .ok value →
            storeScalar equation value scalars = .ok next →
              (engine.environment parameters next).Defined := by
    intro equation _ scalars next value defined evaluated written
    cases written
    refine ⟨defined.parameters, fun name present => ?_, defined.functions⟩
    change (scalars.insert equation.target value).get? name = _ at present
    rw [Bindings.get?_insert] at present
    split at present
    · cases present
      exact Context.evalFinite_ne_undefined defined equation.expr evaluated
    · exact defined.scalars name present
  rw [scalarStep_eq]
  exact Solver.stays_storing writes

/-! ## Runs -/

theorem sparesUndefined (functions_defined : ∀ function arguments,
      engine.functions.call function arguments ≠ .ok .undefined)
    (parameters_defined : ∀ name, parameters.get? name ≠ some .undefined) :
    engine.SparesUndefined parameters where
  eval scalars scalars_defined timestep state := by
    have defined : (engine.environment parameters scalars).Defined :=
      ⟨parameters_defined, scalars_defined, functions_defined⟩
    exact fun expr => Context.defined_eval defined expr
  attempted := by
    have start : (engine.environment parameters
        ((Bindings.empty, []) : Bindings Value × List Diagnostic).1).Defined :=
      ⟨parameters_defined, nofun, functions_defined⟩
    intro visit member
    exact ((engine.stays_defined parameters).visits _ start visit member).2.scalars
  solved scalars_solved :=
    (defined_of_solveScalars scalars_solved parameters_defined functions_defined).scalars
  resolved := by
    intro scalars marks scalars_solved checkpoint position reaches equation member not_listed
    have unhidden : engine.Unhidden (engine.environment parameters scalars).scalars :=
      unhidden_of_solveScalars scalars_solved
    have defined :=
      defined_of_solveScalars scalars_solved parameters_defined functions_defined
    obtain ⟨done, failed, ends⟩ := exists_endsAt unhidden (reaches.rests unhidden)
    have resolved : equation ∈ done := by
      by_contra fresh
      exact not_listed ((ends.mem_names_unresolved_iff _).mpr ⟨equation, member, fresh, rfl⟩)
    obtain ⟨value, found, read_eq⟩ := ends.exists_value resolved
    refine ⟨value, ?_, read_eq⟩
    rintro rfl
    exact Context.evalFinite_ne_undefined defined equation.expr found

/-- A parameter that is undefined is a value to an expression that names it. -/
theorem resolve_undefined {context : Context} {name : String}
    (given : context.environment.parameters.get? name = some .undefined) :
    (context.eval (.ident name)).result = .ok .undefined := by
  change context.resolve name = _
  rw [Context.resolve, given]

/-- Where the functions are the standard ones, it depends on the parameters. -/
theorem sparesUndefined_iff (functions_eq : engine.functions = Catalogue.standard.toRegistry) :
    engine.SparesUndefined parameters ↔ ∀ name, parameters.get? name ≠ some .undefined := by
  constructor
  · intro spares name given
    exact spares.eval .empty nofun 0 (.initial []) (.ident name) (resolve_undefined given)
  · refine sparesUndefined fun function arguments called => ?_
    rw [functions_eq] at called
    obtain ⟨x, equal⟩ := Catalogue.call_standard_eq_ok called
    cases equal

/-! ## The parameters of a run -/

/-- A parameter has the undefined value where it is given it, and nowhere else. -/
theorem drawnValue_eq_undefined_iff (draws : Bindings Float) (parameter : Parameter) :
    drawnValue draws parameter = .undefined ↔ parameter.value = .literal .undefined := by
  cases value_eq : parameter.value with
  | literal value => simp [drawnValue, value_eq]
  | distribution marginal pointEstimate partners =>
      cases drawn : draws.get? parameter.name <;>
        simp [drawnValue, Parameter.pointValue, value_eq, drawn]

theorem get?_parametersBy_ne_undefined_iff (engine : Engine) (draws : Bindings Float) :
    (∀ name, (parametersBy engine.model (drawnValue draws)).get? name ≠ some .undefined) ↔
      ¬ engine.model.GivesUndefined := by
  have distinct : ((engine.model.parameters.map fun parameter =>
      (parameter.name, drawnValue draws parameter)).map Prod.fst).Nodup := by
    rw [List.map_map]
    exact engine.accepted.nodup_parameters
  simp only [Ne, parametersBy, Bindings.get?_ofList_eq_some_iff distinct, List.mem_map,
    Prod.mk.injEq, Model.GivesUndefined, drawnValue_eq_undefined_iff, ← not_exists]
  rw [not_iff_not]
  constructor
  · rintro ⟨_, parameter, member, _, given⟩
    exact ⟨parameter, member, given⟩
  · rintro ⟨parameter, member, given⟩
    exact ⟨parameter.name, parameter, member, rfl, given⟩

/-- Without draws the parameters have their point values. -/
theorem pointValues_eq (model : Model) :
    model.pointValues = parametersBy model (drawnValue .empty) := by
  have value_eq : Parameter.pointValue = drawnValue .empty := by
    funext parameter
    cases value_eq : parameter.value <;> simp [drawnValue, Parameter.pointValue, value_eq]
  rw [Model.pointValues, parametersBy, value_eq]

/-- With the standard functions, the undefined value becomes a value in a run, sampled or not, if
and only if the model gives it to a parameter. -/
theorem sparesUndefined_iff_not_givesUndefined
    (functions_eq : engine.functions = Catalogue.standard.toRegistry) :
    (engine.SparesUndefined engine.model.pointValues ↔ ¬ engine.model.GivesUndefined) ∧
      ∀ draws, engine.SparesUndefined (parametersBy engine.model (drawnValue draws)) ↔
        ¬ engine.model.GivesUndefined := by
  have drawn (draws : Bindings Float) :
      engine.SparesUndefined (parametersBy engine.model (drawnValue draws)) ↔
        ¬ engine.model.GivesUndefined :=
    (sparesUndefined_iff functions_eq).trans (engine.get?_parametersBy_ne_undefined_iff draws)
  exact ⟨pointValues_eq engine.model ▸ drawn .empty, drawn⟩

/-- A model that gives a value to a parameter, and repeats it as a scalar and as a variable. -/
def givingModel (value : Value) : Model :=
  { Model.blank "giving" 1 with
    parameters := [⟨"given", none, .literal value⟩]
    equations := [⟨"copy", .scalar, .ident "given", []⟩, ⟨"level", .current, .ident "given", []⟩] }

def statedEngine : Engine :=
  .ofValid (givingModel (.number 1.0)) Catalogue.standard.toRegistry .default validate_default rfl

theorem sparesUndefined_stated : statedEngine.SparesUndefined statedEngine.model.pointValues := by
  have stated : ¬ statedEngine.model.GivesUndefined := by
    rintro ⟨parameter, member, given⟩
    cases List.mem_singleton.mp member
    cases given
  exact (sparesUndefined_iff_not_givesUndefined rfl).1.mpr stated

def givingEngine : Engine :=
  .ofValid (givingModel .undefined) Catalogue.standard.toRegistry .default validate_default rfl

/-- A model that is read from a text and accepted gives the undefined value.  An expression yields
it, and it becomes the value of a scalar and of a variable; the run completes and reports
nothing. -/
theorem undefined_value_giving :
    Model.ofText? (givingModel .undefined).text = some (givingModel .undefined) ∧
    create (givingModel .undefined) Catalogue.standard.toRegistry .default = .ok givingEngine ∧
    ((givingEngine.scalarView givingEngine.model.pointValues .empty).eval (.ident "given")).result =
      .ok .undefined ∧
    ∃ result, givingEngine.runDeterministic 0 = .ok result ∧ result.status = .completed ∧
      result.scalars.get? "copy" = some .undefined ∧
      result.value? "level" 0 = some .undefined ∧ result.log = .empty := by
  have faithful : (givingModel .undefined).Faithful := by
    refine ⟨?_, ?_, nofun, nofun, nofun⟩
    · intro parameter member
      rw [List.mem_singleton.mp member]
      trivial
    · intro equation member
      have expr_eq : equation.expr = .ident "given" := by
        rcases List.mem_cons.mp member with rfl | member
        · rfl
        · rw [List.mem_singleton.mp member]
      rw [expr_eq]
      exact Expr.finiteLiterals_ident "given"
  exact ⟨((givingModel .undefined).ofText?_render_eq_some_iff .indented).mpr ⟨faithful, by decide⟩,
    create_eq_ok _ _, rfl, _, rfl, rfl, rfl, rfl, rfl⟩

end Engine

end EconModel
