import EconModel.Engine.Run
import EconModel.Proofs.Log
import EconModel.Proofs.Solver.Ending
import EconModel.Proofs.Validation.Accepted

/-!
# Resolutions of a run

A run resolves the scalars once and the equations of every timestep it reaches.  Both resolutions
keep their values in a place, so how they end is known from `Solver.Ends`.  The equations of a
timestep wait for their values in the slots that opening the timestep has made.
-/

namespace EconModel

/-- A state seen at a timestep. -/
def Environment.view (environment : Environment) (timestep : Nat) (state : SimulationState) :
    Context :=
  ⟨environment, state, timestep⟩

/-- There are no functions. -/
def FunctionRegistry.empty : FunctionRegistry where
  contains _ := false
  call name _ := .error (.unknownFunction name)

namespace Engine

theorem accepted (engine : Engine) :
    Model.Accepted .declared engine.model engine.functions engine.config.blockLimit :=
  Model.validateBy_eq_ok_iff.mp engine.model_valid

theorem passLimit_pos (engine : Engine) : 0 < engine.config.passLimit.toNat := by
  have valid := engine.config_valid
  unfold EngineConfig.validate at valid
  split at valid
  · cases valid
  · next nonzero =>
    rw [Nat.pos_iff_ne_zero]
    intro zero
    exact nonzero (UInt64.toNat_inj.mp zero)

theorem validate_default : EngineConfig.default.validate = .ok () := rfl

/-- The engine of a model that needs no functions, with the default configuration. -/
def plain (model : Model)
    (model_valid : model.validate .empty EngineConfig.default.blockLimit = .ok ()) : Engine :=
  .ofValid model .empty .default validate_default model_valid

theorem create_eq_ok {model : Model} {functions : FunctionRegistry} {config : EngineConfig}
    (config_valid : config.validate = .ok ())
    (model_valid : model.validate functions config.blockLimit = .ok ()) :
    create model functions config =
      .ok (ofValid model functions config config_valid model_valid) := by
  unfold create
  split
  · next defect invalid =>
    rw [config_valid] at invalid
    cases invalid
  · split
    · next defect invalid =>
      rw [model_valid] at invalid
      cases invalid
    · rfl

theorem length_le_startingLimit (engine : Engine) (pending : List Equation) :
    pending.length ≤ engine.startingLimit pending :=
  Nat.le_max_right _ _

theorem startingLimit_pos (engine : Engine) (pending : List Equation) :
    0 < engine.startingLimit pending :=
  Nat.lt_of_lt_of_le engine.passLimit_pos (Nat.le_max_left _ _)

/-! ## Scalars -/

/-- Scalars seen before the first timestep. -/
def scalarView (engine : Engine) (parameters scalars : Bindings Value) : Context :=
  ⟨engine.environment parameters scalars, .initial [], 0⟩

theorem valueAt?_initial_nil (name : String) (timestep : Nat) :
    (SimulationState.initial []).valueAt? name timestep = none := rfl

theorem keeps_scalarStep (engine : Engine) (parameters : Bindings Value) :
    Solver.Keeps .scalars (engine.scalarView parameters) (engine.scalarStep parameters) where
  failure := by
    intro equation scalars error diagnostics failed
    rw [scalarView] at failed
    simp only [scalarStep, failed]
  success := by
    intro equation scalars value diagnostics _ found
    refine ⟨scalars.insert equation.target value, rfl, ?_⟩
    rw [scalarView] at found
    simp only [scalarStep, found]
    rfl

theorem ready_scalars (engine : Engine) (parameters : Bindings Value) :
    Place.scalars.Ready (engine.model.equationsOf .scalar)
      (engine.scalarView parameters .empty) where
  distinct := engine.accepted.nodup_targets_equationsOf .scalar
  writable := by
    intro equation _ index hidden found
    rw [scalarView, valueAt?_initial_nil] at found
    cases found
  blank _ _ := rfl

/-- The resolution of the scalars. -/
def resolveScalars (engine : Engine) (parameters : Bindings Value) :
    Resolution × Bindings Value × List Diagnostic :=
  Solver.solve (engine.scalarStep parameters)
    (engine.startingLimit (engine.model.equationsOf .scalar)) (engine.model.equationsOf .scalar)
    (.empty, [])

theorem solveScalars_eq (engine : Engine) (parameters : Bindings Value) :
    engine.solveScalars parameters =
      if (engine.resolveScalars parameters).1.isConverged then
        .ok (engine.resolveScalars parameters).2
      else .error (.invalidModel
        (.unresolvedScalars (engine.resolveScalars parameters).1.unresolved.names)) := rfl

/-- How the resolution of the scalars ends. -/
abbrev ScalarsEnd (engine : Engine) (parameters : Bindings Value) (done : List Equation)
    (failed : List (Equation × EvalError)) : Prop :=
  Solver.Ends .scalars (engine.scalarView parameters) (engine.scalarStep parameters)
    (engine.startingLimit (engine.model.equationsOf .scalar)) (engine.model.equationsOf .scalar)
    .empty done failed

theorem exists_scalarsEnd (engine : Engine) (parameters : Bindings Value) :
    ∃ done failed, engine.ScalarsEnd parameters done failed :=
  Solver.exists_ends (engine.keeps_scalarStep parameters) (engine.startingLimit_pos _)
    (engine.ready_scalars parameters)

/-- No variable of a model is hidden by a scalar. -/
def Unhidden (engine : Engine) (scalars : Bindings Value) : Prop :=
  ∀ name ∈ engine.model.variableNames, scalars.get? name = none

section Solved

variable {engine : Engine} {parameters scalars : Bindings Value} {diagnostics : List Diagnostic}

theorem solveScalars_eq_ok_iff :
    engine.solveScalars parameters = .ok (scalars, diagnostics) ↔
      (engine.resolveScalars parameters).1.unresolved.names = [] ∧
        (engine.resolveScalars parameters).2 = (scalars, diagnostics) := by
  rw [solveScalars_eq, ← Bindings.isEmpty_iff]
  change (if (engine.resolveScalars parameters).1.unresolved.isEmpty then _ else _) = _ ↔ _
  split
  · next converged => simp [converged]
  · next stuck => simp [stuck]

/-- Nothing is kept under a name that is no scalar of the model. -/
theorem get?_eq_none_of_solveScalars
    (solved : engine.solveScalars parameters = .ok (scalars, diagnostics)) {name : String}
    (other : name ∉ engine.model.scalars) : scalars.get? name = none := by
  obtain ⟨_, result_eq⟩ := solveScalars_eq_ok_iff.mp solved
  obtain ⟨done, failed, ends⟩ := engine.exists_scalarsEnd parameters
  have absent : ∀ equation ∈ done, equation.target ≠ name := by
    intro equation resolved target_eq
    have member := (Model.mem_equationsOf_iff _ _ _).mp (ends.settles.subset equation resolved)
    exact other ((Model.mem_scalars_iff _ _).mpr ⟨equation, member.1, member.2, target_eq⟩)
  have untouched := ends.settles.untouched name absent
  change (engine.resolveScalars parameters).2.1.get? name = none at untouched
  rw [result_eq] at untouched
  exact untouched

theorem unhidden_of_solveScalars
    (solved : engine.solveScalars parameters = .ok (scalars, diagnostics)) :
    engine.Unhidden scalars := fun _ declared =>
  get?_eq_none_of_solveScalars solved
    (engine.accepted.not_mem_scalars_of_mem_variableNames declared)

/-- Every equation of a scalar has the value that is kept. -/
theorem evalFinite_of_solveScalars
    (solved : engine.solveScalars parameters = .ok (scalars, diagnostics)) {equation : Equation}
    (member : equation ∈ engine.model.equationsOf .scalar) :
    ∃ value, scalars.get? equation.target = some value ∧
      ((engine.scalarView parameters scalars).evalFinite equation.expr).result = .ok value := by
  obtain ⟨converged, result_eq⟩ := solveScalars_eq_ok_iff.mp solved
  obtain ⟨done, failed, ends⟩ := engine.exists_scalarsEnd parameters
  have resolved : equation ∈ done := by
    by_contra fresh
    have listed := (ends.divides.mem_names_unresolved ends.ready.distinct equation.target).mpr
      ⟨equation, member, fresh, rfl⟩
    change equation.target ∈ (engine.resolveScalars parameters).1.unresolved.names at listed
    rw [converged] at listed
    cases listed
  obtain ⟨value, found, kept⟩ := ends.settles.solved equation resolved
  have ending_eq : Solver.ending (engine.scalarView parameters) (engine.scalarStep parameters)
      (engine.startingLimit (engine.model.equationsOf .scalar))
      (engine.model.equationsOf .scalar) .empty = engine.scalarView parameters scalars := by
    change engine.scalarView parameters (engine.resolveScalars parameters).2.1 = _
    rw [result_eq]
  rw [ending_eq] at found kept
  exact ⟨value, kept, found⟩

/-- The scalars that are kept are those of the model. -/
theorem mem_names_iff_of_solveScalars
    (solved : engine.solveScalars parameters = .ok (scalars, diagnostics)) (name : String) :
    name ∈ scalars.names ↔ name ∈ engine.model.scalars := by
  constructor
  · intro kept
    by_contra other
    exact (Bindings.get?_eq_none_iff _ _).mp (get?_eq_none_of_solveScalars solved other) kept
  · intro declared
    obtain ⟨equation, member, kind_eq, rfl⟩ := (Model.mem_scalars_iff _ _).mp declared
    obtain ⟨value, kept, _⟩ := evalFinite_of_solveScalars solved
      ((Model.mem_equationsOf_iff _ _ _).mpr ⟨member, kind_eq⟩)
    exact Bindings.mem_names_of_get? kept

/-- The resolution of the scalars records marks only, and they belong to the first timestep. -/
theorem exists_mark_of_solveScalars
    (solved : engine.solveScalars parameters = .ok (scalars, diagnostics)) {diagnostic : Diagnostic}
    (member : diagnostic ∈ diagnostics) : ∃ location, diagnostic = .divisionByZero 0 location := by
  obtain ⟨_, result_eq⟩ := solveScalars_eq_ok_iff.mp solved
  obtain ⟨done, failed, ends⟩ := engine.exists_scalarsEnd parameters
  have marks_eq := ends.diagnostics_eq
  change (engine.resolveScalars parameters).2.2 = _ at marks_eq
  rw [result_eq] at marks_eq
  change diagnostics = _ at marks_eq
  rw [marks_eq, List.mem_flatMap] at member
  obtain ⟨equation, _, marked⟩ := member
  exact ⟨equation.location, ((Diagnostic.mem_ofMark_iff _ _ _ _).mp marked).2⟩

end Solved

/-! ## Timesteps -/

/-- The equations that are resolved at a timestep. -/
def pendingAt (engine : Engine) (timestep : Nat) : List Equation :=
  if timestep = 0 then startingEquations engine.model else engine.model.equationsOf .current

/-- The number of passes for them. -/
def limitAt (engine : Engine) (timestep : Nat) : Nat :=
  if timestep = 0 then engine.startingLimit (startingEquations engine.model)
  else engine.config.passLimit.toNat

/-- The resolution of a timestep that is open. -/
def resolveAt (engine : Engine) (environment : Environment) (timestep : Nat)
    (opened : SimulationState) : Resolution × SimulationState × List Diagnostic :=
  Solver.solve (equationStep environment timestep) (engine.limitAt timestep)
    (engine.pendingAt timestep) (opened, [])

/-- The variables whose initial values are missing after the resolution of a timestep. -/
def missingInitials (engine : Engine) (timestep : Nat) (resolution : Resolution) : List String :=
  if timestep = 0 then resolution.unresolved.names.filter (engine.model.hasEquation · .initial)
  else []

theorem solveAt_eq (engine : Engine) (environment : Environment) (timestep : Nat)
    (opened : SimulationState) :
    engine.solveAt environment timestep opened =
      match engine.missingInitials timestep
          (engine.resolveAt environment timestep opened).1 with
      | [] => .ok ((engine.resolveAt environment timestep opened).2.1,
          (engine.resolveAt environment timestep opened).2.2 ++
            convergenceDiagnostics timestep (engine.resolveAt environment timestep opened).1)
      | targets => .error (.invalidModel (.unresolvedInitialValues targets)) := by
  by_cases first : timestep = 0
  · subst first
    rfl
  · simp only [solveAt, missingInitials, resolveAt, limitAt, pendingAt, if_neg first]
    rfl

theorem solveAt_eq_ok_iff {engine : Engine} {environment : Environment} {timestep : Nat}
    {opened settled : SimulationState} {diagnostics : List Diagnostic} :
    engine.solveAt environment timestep opened = .ok (settled, diagnostics) ↔
      engine.missingInitials timestep (engine.resolveAt environment timestep opened).1 = [] ∧
        (engine.resolveAt environment timestep opened).2.1 = settled ∧
        (engine.resolveAt environment timestep opened).2.2 ++
          convergenceDiagnostics timestep (engine.resolveAt environment timestep opened).1 =
            diagnostics := by
  rw [solveAt_eq]
  split
  · next none_missing => simp [none_missing]
  · next targets some_missing =>
      constructor
      · intro stuck
        cases stuck
      · rintro ⟨none_missing, _⟩
        exact (some_missing none_missing).elim

theorem mem_startingEquations_iff (model : Model) (equation : Equation) :
    equation ∈ startingEquations model ↔ equation ∈ model.equations ∧
      (equation.kind = .initial ∨
        equation.kind = .current ∧ model.hasEquation equation.target .initial = false) := by
  rw [startingEquations, List.mem_filter]
  cases equation.kind <;> simp

/-- An initial equation is resolved at the first timestep, a current one at every timestep unless
its variable starts from an initial value there. -/
theorem mem_pendingAt_iff {engine : Engine} {timestep : Nat} {equation : Equation} :
    equation ∈ engine.pendingAt timestep ↔ equation ∈ engine.model.equations ∧
      (timestep = 0 ∧ equation.kind = .initial ∨ equation.kind = .current ∧
        (timestep = 0 → engine.model.hasEquation equation.target .initial = false)) := by
  rw [pendingAt]
  split
  · next first => simp [mem_startingEquations_iff, first]
  · next later => simp [Model.mem_equationsOf_iff, later]

theorem isTimeIndexed_of_mem_pendingAt {engine : Engine} {timestep : Nat} {equation : Equation}
    (member : equation ∈ engine.pendingAt timestep) : equation.kind.isTimeIndexed = true := by
  rcases (mem_pendingAt_iff.mp member).2 with ⟨_, kind_eq⟩ | ⟨kind_eq, _⟩ <;> rw [kind_eq] <;> rfl

theorem mem_variableNames_of_mem_pendingAt {engine : Engine} {timestep : Nat}
    {equation : Equation} (member : equation ∈ engine.pendingAt timestep) :
    equation.target ∈ engine.model.variableNames :=
  (Model.mem_variableNames_iff _ _).mpr ⟨equation, (mem_pendingAt_iff.mp member).1,
    isTimeIndexed_of_mem_pendingAt member, rfl⟩

theorem nodup_targets_pendingAt (engine : Engine) (timestep : Nat) :
    ((engine.pendingAt timestep).map Equation.target).Nodup := by
  unfold pendingAt
  split
  · apply engine.accepted.nodup_targets_filter
    intro left left_mem right right_mem left_chosen right_chosen target_eq
    have left_pending := (mem_startingEquations_iff _ _).mp
      (List.mem_filter.mpr ⟨left_mem, left_chosen⟩)
    have right_pending := (mem_startingEquations_iff _ _).mp
      (List.mem_filter.mpr ⟨right_mem, right_chosen⟩)
    rcases left_pending.2 with left_kind | ⟨left_kind, left_alone⟩ <;>
      rcases right_pending.2 with right_kind | ⟨right_kind, right_alone⟩
    · rw [left_kind, right_kind]
    · have started := (Model.hasEquation_iff engine.model right.target .initial).mpr
        ⟨left, left_mem, left_kind, target_eq⟩
      rw [right_alone] at started
      cases started
    · have started := (Model.hasEquation_iff engine.model left.target .initial).mpr
        ⟨right, right_mem, right_kind, target_eq.symm⟩
      rw [left_alone] at started
      cases started
    · rw [left_kind, right_kind]
  · exact engine.accepted.nodup_targets_equationsOf .current

theorem limitAt_pos (engine : Engine) (timestep : Nat) : 0 < engine.limitAt timestep := by
  unfold limitAt
  split
  · exact engine.startingLimit_pos _
  · exact engine.passLimit_pos

theorem keeps_equationStep (environment : Environment) (timestep : Nat) :
    Solver.Keeps .slots (environment.view timestep) (equationStep environment timestep) where
  failure := by
    intro equation state error diagnostics failed
    rw [Environment.view] at failed
    simp only [equationStep, failed]
  success := by
    intro equation state value diagnostics slot found
    obtain ⟨next, written, put_eq⟩ := Place.exists_writeSlot slot value
    refine ⟨next, put_eq.symm, ?_⟩
    rw [Environment.view] at found written
    simp only [equationStep, found, written]
    rfl

/-- Between two timesteps the series of a run are those of the variables of its model, and they hold
the timesteps before `timestep`. -/
structure Rests (engine : Engine) (state : SimulationState) (timestep : Nat) : Prop where
  /-- The timesteps before are committed. -/
  closed : state.ClosedAt timestep
  /-- The series are those of the variables. -/
  names_eq : state.series.names = engine.model.variableNames

theorem rests_initial (engine : Engine) : engine.Rests (.initial engine.model.variableNames) 0 :=
  ⟨SimulationState.closedAt_initial engine.model.variableNames,
    SimulationState.names_initial engine.model.nodup_variableNames⟩

/-- The state of a run with its next timestep open. -/
def opened (engine : Engine) (timestep : Nat) (state : SimulationState) (next : Bindings Value) :
    SimulationState :=
  state.openNext (engine.seed timestep next)

theorem seed_of_mem_pendingAt {engine : Engine} {timestep : Nat} {equation : Equation}
    (member : equation ∈ engine.pendingAt timestep) (next : Bindings Value)
    (previous : Option Value) :
    engine.seed timestep next equation.target previous = .undefined := by
  obtain ⟨equation_mem, ⟨first, _⟩ | ⟨kind_eq, _⟩⟩ := mem_pendingAt_iff.mp member
  · simp [seed, first]
  · have current := (Model.hasEquation_iff engine.model equation.target .current).mpr
      ⟨equation, equation_mem, kind_eq, rfl⟩
    simp [seed, current]

/-- How the resolution of a timestep ends. -/
abbrev TimestepEnds (engine : Engine) (environment : Environment) (timestep : Nat)
    (opened : SimulationState) (done : List Equation) (failed : List (Equation × EvalError)) :
    Prop :=
  Solver.Ends .slots (environment.view timestep) (equationStep environment timestep)
    (engine.limitAt timestep) (engine.pendingAt timestep) opened done failed

section Timestep

variable {engine : Engine} {environment : Environment} {timestep : Nat} {state : SimulationState}
  (unhidden : engine.Unhidden environment.scalars) (rests : engine.Rests state timestep)
  (next : Bindings Value)

include rests

theorem openAt_opened : (engine.opened timestep state next).OpenAt timestep :=
  SimulationState.openAt_openNext rests.closed _

theorem mem_names_opened_iff (name : String) :
    name ∈ (engine.opened timestep state next).series.names ↔
      name ∈ engine.model.variableNames := by
  rw [opened, SimulationState.names_openNext, rests.names_eq]

theorem valueAt?_opened_of_mem_pendingAt {equation : Equation}
    (member : equation ∈ engine.pendingAt timestep) :
    (engine.opened timestep state next).valueAt? equation.target timestep = some .undefined := by
  have declared : equation.target ∈ state.series.names := by
    rw [rests.names_eq]
    exact mem_variableNames_of_mem_pendingAt member
  obtain ⟨values, found⟩ := (Bindings.mem_names_iff _ _).mp declared
  rw [opened, SimulationState.valueAt?_openNext rests.closed, if_pos rfl, found, Option.map_some,
    seed_of_mem_pendingAt member]

include unhidden

theorem ready_opened : Place.slots.Ready (engine.pendingAt timestep)
    (environment.view timestep (engine.opened timestep state next)) where
  distinct := engine.nodup_targets_pendingAt timestep
  writable := by
    intro equation member
    have declared := mem_variableNames_of_mem_pendingAt member
    exact ⟨openAt_opened rests next, (mem_names_opened_iff rests next _).mpr declared,
      unhidden _ declared⟩
  blank := by
    intro equation member
    exact valueAt?_opened_of_mem_pendingAt rests next member

theorem exists_timestepEnds : ∃ done failed,
    engine.TimestepEnds environment timestep (engine.opened timestep state next) done failed :=
  Solver.exists_ends (keeps_equationStep environment timestep) (engine.limitAt_pos timestep)
    (ready_opened unhidden rests next)

end Timestep

namespace TimestepEnds

variable {engine : Engine} {environment : Environment} {timestep : Nat} {before : SimulationState}
  {done : List Equation} {failed : List (Equation × EvalError)}

theorem overwrites (ends : engine.TimestepEnds environment timestep before done failed) :
    before.Overwrites (engine.resolveAt environment timestep before).2.1 timestep :=
  ends.settles.alike.1

/-- The marks of the resolved equations are recorded. -/
theorem marks_eq (ends : engine.TimestepEnds environment timestep before done failed) :
    (engine.resolveAt environment timestep before).2.2 = done.flatMap
      (environment.view timestep (engine.resolveAt environment timestep before).2.1).mark :=
  ends.diagnostics_eq

/-- The open slot of a resolved equation holds what the equation evaluates to. -/
theorem exists_value (ends : engine.TimestepEnds environment timestep before done failed)
    {equation : Equation} (resolved : equation ∈ done) :
    ∃ value,
      ((environment.view timestep
        (engine.resolveAt environment timestep before).2.1).evalFinite
          equation.expr).result = .ok value ∧
      (engine.resolveAt environment timestep before).2.1.valueAt? equation.target timestep =
        some value :=
  ends.settles.solved equation resolved

theorem valueAt?_of_not_mem (ends : engine.TimestepEnds environment timestep before done failed)
    {equation : Equation} (member : equation ∈ engine.pendingAt timestep)
    (fresh : equation ∉ done) :
    (engine.resolveAt environment timestep before).2.1.valueAt? equation.target timestep =
      some .undefined :=
  ends.settles.read_eq_blank ends.ready member fresh

/-- A slot without a pending equation keeps its value. -/
theorem valueAt?_of_not_pending
    (ends : engine.TimestepEnds environment timestep before done failed) {name : String}
    (absent : ∀ equation ∈ engine.pendingAt timestep, equation.target ≠ name) :
    (engine.resolveAt environment timestep before).2.1.valueAt? name timestep =
      before.valueAt? name timestep :=
  ends.settles.untouched name fun equation resolved =>
    absent equation (ends.settles.subset equation resolved)

theorem mem_names_unresolved_iff
    (ends : engine.TimestepEnds environment timestep before done failed) (name : String) :
    name ∈ (engine.resolveAt environment timestep before).1.unresolved.names ↔
      ∃ equation ∈ engine.pendingAt timestep, equation ∉ done ∧ equation.target = name :=
  ends.divides.mem_names_unresolved ends.ready.distinct name

end TimestepEnds

end Engine

end EconModel
