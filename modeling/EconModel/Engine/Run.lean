import EconModel.ConstraintCheck
import EconModel.Engine
import EconModel.PolicyRun
import EconModel.Sampler
import EconModel.Solver

/-!
# Runs

A run first resolves the scalars and then walks through the timesteps.  A timestep is opened,
its equations are resolved, its constraints are checked and its policies run; then the recurrences
give the values for the next timestep, and the timestep is committed.  A violated fatal constraint
commits the timestep at once and halts the run.
-/

namespace EconModel

/-- What the outside says at the start of a timestep: nothing, or that the run is to stop. -/
abbrev Checkpoint := (timestep : Nat) → Option Interruption

/-- The checkpoint that never stops a run. -/
def Checkpoint.uninterrupted : Checkpoint := fun _ => none

namespace Engine

/-! ## Equations -/

/-- Attempt an equation at a timestep: evaluate it and write the open slot of its variable. -/
def equationStep (environment : Environment) (timestep : Nat) :
    Solver.Step (SimulationState × List Diagnostic) := fun equation (state, diagnostics) =>
  let context : Context := ⟨environment, state, timestep⟩
  let evaluation := context.evalFinite equation.expr
  match evaluation.result with
  | .error error => (.error error, (state, diagnostics))
  | .ok value =>
      let diagnostics := diagnostics ++
        Diagnostic.ofMark evaluation.dividedByZero context.stamp equation.location
      match state.setCurrent equation.target value with
      | .error error => (.error error, (state, diagnostics))
      | .ok state => (.ok (), (state, diagnostics))

/-- The warning about a resolution that left equations unresolved. -/
def convergenceDiagnostics (timestep : Nat) (resolution : Resolution) : List Diagnostic :=
  if resolution.isConverged then []
  else
    [.convergence ⟨UInt64.ofNat timestep, UInt64.ofNat resolution.iterations,
      resolution.unresolved.map fun _ error => error.message⟩]

/-- The number of passes for values that a run starts from; it is enough to resolve any chain. -/
def startingLimit (engine : Engine) (pending : List Equation) : Nat :=
  max engine.config.passLimit.toNat pending.length

/-! ## Scalars -/

/-- Attempt an equation of a scalar: evaluate it and keep its value. -/
def scalarStep (engine : Engine) (parameters : Bindings Value) :
    Solver.Step (Bindings Value × List Diagnostic) := fun equation (scalars, diagnostics) =>
  let context : Context := ⟨engine.environment parameters scalars, .initial [], 0⟩
  let evaluation := context.evalFinite equation.expr
  match evaluation.result with
  | .error error => (.error error, (scalars, diagnostics))
  | .ok value =>
      (.ok (), (scalars.insert equation.target value,
        diagnostics ++ Diagnostic.ofMark evaluation.dividedByZero context.stamp equation.location))

/-- Resolve the scalars, which have to be resolved all. -/
def solveScalars (engine : Engine) (parameters : Bindings Value) :
    Except EngineError (Bindings Value × List Diagnostic) :=
  let pending := engine.model.equationsOf .scalar
  let (resolution, found) :=
    Solver.solve (engine.scalarStep parameters) (engine.startingLimit pending) pending (.empty, [])
  if resolution.isConverged then .ok found
  else .error (.invalidModel (.unresolvedScalars resolution.unresolved.names))

/-! ## The first timestep -/

/-- The equations that define the first timestep: the initial ones, and current ones of variables
without an initial one. -/
def startingEquations (model : Model) : List Equation :=
  model.equations.filter fun equation =>
    match equation.kind with
    | .initial => true
    | .current => !model.hasEquation equation.target .initial
    | .recurrence | .scalar => false

/-- Resolve the equations of the first timestep; the initial ones have to be resolved all. -/
def solveFirst (engine : Engine) (environment : Environment) (state : SimulationState) :
    Except EngineError (SimulationState × List Diagnostic) :=
  let pending := startingEquations engine.model
  let (resolution, state, diagnostics) :=
    Solver.solve (equationStep environment 0) (engine.startingLimit pending) pending (state, [])
  match resolution.unresolved.names.filter (engine.model.hasEquation · .initial) with
  | [] => .ok (state, diagnostics ++ convergenceDiagnostics 0 resolution)
  | targets => .error (.invalidModel (.unresolvedInitialValues targets))

/-! ## Later timesteps -/

/-- Resolve the equations of a timestep after the first one. -/
def solveLater (engine : Engine) (environment : Environment) (timestep : Nat)
    (state : SimulationState) : SimulationState × List Diagnostic :=
  let (resolution, state, diagnostics) :=
    Solver.solve (equationStep environment timestep) engine.config.passLimit.toNat
      (engine.model.equationsOf .current) (state, [])
  (state, diagnostics ++ convergenceDiagnostics timestep resolution)

/-- Resolve the equations of a timestep. -/
def solveAt (engine : Engine) (environment : Environment) (timestep : Nat)
    (state : SimulationState) : Except EngineError (SimulationState × List Diagnostic) :=
  if timestep = 0 then engine.solveFirst environment state
  else .ok (engine.solveLater environment timestep state)

/-- The value that a slot holds when its timestep is opened.  A variable that is resolved at the
timestep has none yet; any other one has the value of its recurrence, or else its last value. -/
def seed (engine : Engine) (timestep : Nat) (next : Bindings Value) (name : String)
    (previous : Option Value) : Value :=
  if timestep = 0 || engine.model.hasEquation name .current then .undefined
  else (next.get? name).getD (previous.getD .undefined)

/-! ## Recurrences -/

/-- The value of a recurrence for the next timestep, undefined where there is none, and what is
recorded about it. -/
def recurrence (context : Context) (equation : Equation) : Value × List Diagnostic :=
  let evaluation := context.evalFinite equation.expr
  let mark := Diagnostic.ofMark evaluation.dividedByZero context.stamp equation.location
  match evaluation.result with
  | .ok value => (value, mark)
  | .error error =>
      (.undefined,
        .recurrenceFailed context.stamp equation.target error.message :: mark)

/-- The values of recurrences for the next timestep, and what is recorded about them. -/
def recurrences (context : Context) (equations : List Equation) :
    Bindings Value × List Diagnostic :=
  let found := equations.map fun equation => (equation.target, recurrence context equation)
  (Bindings.ofList (found.map fun (target, value, _) => (target, value)),
    found.flatMap fun (_, _, diagnostics) => diagnostics)

/-! ## Timesteps -/

/-- What a timestep comes to. -/
structure StepOutcome where
  /-- The state, with the timestep committed. -/
  state : SimulationState
  /-- The values of the recurrences. -/
  next : Bindings Value
  log : Log
  /-- Whether a fatal constraint was violated. -/
  halted : Bool

/-- The constraints of a timestep as a part of the log. -/
def constraintLog (context : Context) (report : ConstraintReport) : Log where
  violations := report.violations
  events := []
  firings := []
  diagnostics :=
    Diagnostic.ofMark report.dividedByZero context.stamp "constraints" ++ report.skipped

/-- What follows the constraints of a timestep: policies, recurrences unless the timestep is the
last one, and the commitment. -/
def conclude (engine : Engine) (environment : Environment) (timestep : Nat) (isLast : Bool)
    (state : SimulationState) (log : Log) : StepOutcome :=
  let setting : PolicySetting := ⟨environment, timestep, engine.config.blockLimit⟩
  let effect := setting.run engine.model.policies state
  let (next, diagnostics) :=
    if isLast then (.empty, [])
    else recurrences ⟨environment, effect.state, timestep⟩ (engine.model.equationsOf .recurrence)
  ⟨effect.state.commit, next, log ++ effect.log ++ .ofDiagnostics diagnostics, false⟩

/-- One timestep. -/
def step (engine : Engine) (environment : Environment) (timestep : Nat) (isLast : Bool)
    (state : SimulationState) (next : Bindings Value) : Except EngineError StepOutcome := do
  let opened := state.openNext (engine.seed timestep next)
  let (settled, diagnostics) ← engine.solveAt environment timestep opened
  let context : Context := ⟨environment, settled, timestep⟩
  let report := context.check engine.model.constraints
  let log := .ofDiagnostics diagnostics ++ constraintLog context report
  if report.isFatal then return ⟨settled.commit, .empty, log, true⟩
  else return engine.conclude environment timestep isLast settled log

/-! ## The run -/

/-- The last `remaining` timesteps of a run. -/
def steps (engine : Engine) (environment : Environment) (index : Option UInt64)
    (checkpoint : Checkpoint) : (remaining : Nat) → (timestep : Nat) → SimulationState →
    Bindings Value → Except EngineError (RunStatus × SimulationState × Log)
  | 0, _, state, _ => .ok (.completed, state, .empty)
  | remaining + 1, timestep, state, next =>
      match checkpoint timestep with
      | some cause =>
          .error (.execution (.interrupted cause (index.getD 0) (UInt64.ofNat timestep)))
      | none => do
          let outcome ← engine.step environment timestep (remaining == 0) state next
          if outcome.halted then
            return (.halted (UInt64.ofNat timestep), outcome.state, outcome.log)
          else
            let (status, final, later) ←
              steps engine environment index checkpoint remaining (timestep + 1) outcome.state
                outcome.next
            return (status, final, outcome.log ++ later)

/-- The identity of a run. -/
def metadata (engine : Engine) (seed : UInt64) (index : Option UInt64) : RunMetadata where
  id := RunId.derive engine.fingerprint seed index
  modelName := engine.model.name
  fingerprint := engine.fingerprint
  seed := seed
  index := index
  horizon := engine.model.horizon

def run (engine : Engine) (parameters : Bindings Value) (seed : UInt64) (index : Option UInt64)
    (checkpoint : Checkpoint) : Except EngineError RunResult := do
  let (scalars, diagnostics) ← engine.solveScalars parameters
  let (status, final, log) ←
    engine.steps (engine.environment parameters scalars) index checkpoint
      engine.model.horizon.toNat 0 (.initial engine.model.variableNames) .empty
  return ⟨engine.metadata seed index, status, parameters, scalars, final.committedSeries,
    .ofDiagnostics diagnostics ++ log⟩

/-! ## Kinds of runs -/

/-- The parameters of a model, each with a value. -/
def parametersBy (model : Model) (value : Parameter → Value) : Bindings Value :=
  Bindings.ofList <| model.parameters.map fun parameter => (parameter.name, value parameter)

/-- A run in which nothing is drawn. -/
def runDeterministic (engine : Engine) (seed : UInt64) : Except EngineError RunResult :=
  engine.run engine.model.pointValues seed none .uninterrupted

/-- A run in which some parameters are given values and nothing is drawn. -/
def runWithParameters (engine : Engine) (overrides : Bindings Value) (seed : UInt64) :
    Except EngineError RunResult :=
  let value (parameter : Parameter) : Value :=
    (overrides.get? parameter.name).getD parameter.pointValue
  engine.run (parametersBy engine.model value) seed none .uninterrupted

def sampler (engine : Engine) : Except EngineError Sampler :=
  match Sampler.prepare engine.model with
  | .ok sampler => .ok sampler
  | .error defect => .error (.correlation defect)

/-- The value of a parameter in a sampled run. -/
def drawnValue (draws : Bindings Float) (parameter : Parameter) : Value :=
  match parameter.value with
  | .literal value => value
  | .distribution _ _ _ =>
      match draws.get? parameter.name with
      | some x => .number x
      | none => parameter.pointValue

/-- The run of a batch with the given index.  Its parameters are drawn from its own stream, so it
depends on nothing but the model, the base seed and the index. -/
def runSingle (engine : Engine) (sampler : Sampler) (baseSeed index : UInt64)
    (checkpoint : Checkpoint) : Except EngineError RunResult :=
  let (draws, _) := sampler.sample (RandomStream.ofRun baseSeed index)
  engine.run (parametersBy engine.model (drawnValue draws)) baseSeed (some index) checkpoint

end Engine

end EconModel
