import EconModel.Proofs.Engine.Alike

/-!
# Constraints observe

A constraint reads a settled timestep and reports on it.  It can halt a run, and it changes nothing
else: two runs of models that differ in their constraints have the same values, events, firings and
failures up to the timestep at which one of them is halted, and the same settled values there.
-/

namespace EconModel

/-- Whether a diagnostic is about an equation, a policy or a recurrence that failed. -/
def Diagnostic.isFailure : Diagnostic → Bool
  | .convergence _ | .recurrenceFailed .. | .policyFailed .. => true
  | .divisionByZero .. | .constraintSkipped .. => false

/-- What a log says about a timestep, apart from what constraints and zero divisors add to it. -/
structure Log.AgreeAt (left right : Log) (timestep : UInt64) : Prop where
  events_eq : (left.restrict timestep).events = (right.restrict timestep).events
  firings_eq : (left.restrict timestep).firings = (right.restrict timestep).firings
  failures_eq : (left.restrict timestep).diagnostics.filter Diagnostic.isFailure =
    (right.restrict timestep).diagnostics.filter Diagnostic.isFailure

theorem Log.agreeAt_iff {left right : Log} {timestep : UInt64} : left.AgreeAt right timestep ↔
    (left.restrict timestep).events = (right.restrict timestep).events ∧
      (left.restrict timestep).firings = (right.restrict timestep).firings ∧
        (left.restrict timestep).diagnostics.filter Diagnostic.isFailure =
          (right.restrict timestep).diagnostics.filter Diagnostic.isFailure :=
  ⟨fun ⟨events_eq, firings_eq, failures_eq⟩ => ⟨events_eq, firings_eq, failures_eq⟩,
    fun ⟨events_eq, firings_eq, failures_eq⟩ => ⟨events_eq, firings_eq, failures_eq⟩⟩

theorem Log.AgreeAt.append_left {left right : Log} {timestep : UInt64}
    (agree : left.AgreeAt right timestep) (earlier : Log) :
    (earlier ++ left).AgreeAt (earlier ++ right) timestep := by
  obtain ⟨events_eq, firings_eq, failures_eq⟩ := agree
  constructor <;> simp [restrict_append, *]

namespace Engine

/-- Two engines differ in the constraints of their models at most. -/
structure DifferInConstraints (engine other : Engine) : Prop where
  model_eq : other.model = { engine.model with constraints := other.model.constraints }
  functions_eq : other.functions = engine.functions
  config_eq : other.config = engine.config

namespace DifferInConstraints

variable {engine other : Engine} (differ : DifferInConstraints engine other)

include differ

theorem symm : DifferInConstraints other engine where
  model_eq := by rw [differ.model_eq]
  functions_eq := differ.functions_eq.symm
  config_eq := differ.config_eq.symm

theorem alike : Alike engine other where
  equations_eq := by rw [differ.model_eq]
  policies_eq := by rw [differ.model_eq]
  functions_eq := differ.functions_eq
  config_eq := differ.config_eq

theorem horizon_eq : other.model.horizon = engine.model.horizon := by rw [differ.model_eq]

end DifferInConstraints

/-- Constraints report no failure of anything else. -/
theorem failures_constraintLog (context : Context) (constraints : List Constraint) :
    (constraintLog context (context.check constraints)).diagnostics.filter Diagnostic.isFailure =
      [] := by
  rw [List.filter_eq_nil_iff]
  intro diagnostic member
  rcases List.mem_append.mp member with marked | skipped
  · obtain ⟨_, rfl⟩ := (Diagnostic.mem_ofMark_iff _ _ _ _).mp marked
    exact Bool.false_ne_true
  · obtain ⟨constraint, reason, rfl⟩ := Context.exists_of_mem_skipped _ skipped
    exact Bool.false_ne_true

variable {engine other : Engine} {environment : Environment} {checkpoint checkpoint' : Checkpoint}
  {position : Position} {outcome outcome' : StepOutcome} {final final' : SimulationState}
  {log log' : Log}

theorem events_settledLog (timestep : Nat) (before : SimulationState) :
    (engine.settledLog environment timestep before).events = [] := rfl

theorem firings_settledLog (timestep : Nat) (before : SimulationState) :
    (engine.settledLog environment timestep before).firings = [] := rfl

theorem failures_settledLog (timestep : Nat) (before : SimulationState) :
    (engine.settledLog environment timestep before).diagnostics.filter Diagnostic.isFailure =
      ((engine.resolveAt environment timestep before).2.2 ++
        convergenceDiagnostics timestep
          (engine.resolveAt environment timestep before).1).filter Diagnostic.isFailure := by
  have constraints := failures_constraintLog
    (environment.view timestep (engine.settledAt environment timestep before))
    engine.model.constraints
  rw [settledLog, Log.diagnostics_append, Log.diagnostics_ofDiagnostics, List.filter_append,
    reportAt, constraints, List.append_nil]

theorem state_of_halted (does : engine.Does environment checkpoint position outcome)
    (halted : outcome.halted = true) :
    outcome.state = (engine.settledContext environment position).state.commit := by
  rw [does.outcome_eq_of_halted halted]
  rfl

namespace DifferInConstraints

variable (differ : DifferInConstraints engine other)

include differ

/-- Where neither run is halted, both record the same but for what constraints add. -/
theorem agreeAt_of_proceeding
    (stage : engine.Stage environment checkpoint final log position outcome)
    (stage' : other.Stage environment checkpoint' final' log' position outcome')
    (proceeding : outcome.halted = false) (proceeding' : outcome'.halted = false) :
    log.AgreeAt log' (UInt64.ofNat position.timestep) := by
  have alike := differ.alike
  have isLast_eq : other.isLastAt = engine.isLastAt := by
    funext timestep
    rw [isLastAt, isLastAt, differ.horizon_eq]
  have log_eq := log_of_proceeding stage.does proceeding
  have log_eq' := log_of_proceeding stage'.does proceeding'
  rw [alike.openedAt_eq, alike.effectAt_eq, alike.recurrencesAt_eq, isLast_eq] at log_eq'
  rw [Log.agreeAt_iff, stage.restrict_eq, stage'.restrict_eq, log_eq, log_eq']
  refine ⟨?_, ?_, ?_⟩
  · simp only [Log.events_append, events_settledLog]
  · simp only [Log.firings_append, firings_settledLog]
  · simp only [Log.diagnostics_append, List.filter_append, failures_settledLog, alike.resolveAt_eq]

variable {status status' : RunStatus} (unhidden : engine.Unhidden environment.scalars)
  (executes : engine.Executes environment checkpoint engine.start status final log)
  (executes' : other.Executes environment checkpoint' other.start status' final' log')

include unhidden executes executes'

/-- A timestep that both runs commit begins at the same position in both. -/
theorem exists_stages {timestep : Nat}
    (committed : timestep < status.committed engine.model.horizon)
    (committed' : timestep < status'.committed other.model.horizon) :
    ∃ position outcome outcome',
      engine.Stage environment checkpoint final log position outcome ∧
        other.Stage environment checkpoint' final' log' position outcome' ∧
          position.timestep = timestep := by
  have unhidden' := differ.alike.unhidden unhidden
  obtain ⟨position, outcome, stage, rfl⟩ := exists_stage_at unhidden executes committed
  obtain ⟨position', outcome', stage', timestep_eq⟩ :=
    exists_stage_at unhidden' executes' committed'
  have within' := stage'.does.begins.within
  rw [timestep_eq] at within'
  obtain rfl := differ.alike.position_eq stage.path stage'.path timestep_eq.symm
    stage.does.begins.within within'
  exact ⟨position, outcome, outcome', stage, stage', rfl⟩

theorem agree_before {timestep : Nat} (passed : timestep < status.passed engine.model.horizon)
    (passed' : timestep < status'.passed other.model.horizon) :
    (∀ name, final.valueAt? name timestep = final'.valueAt? name timestep) ∧
      log.AgreeAt log' (UInt64.ofNat timestep) := by
  obtain ⟨position, outcome, outcome', stage, stage', rfl⟩ :=
    differ.exists_stages unhidden executes executes'
      (Nat.lt_of_lt_of_le passed (status.passed_le_committed _))
      (Nat.lt_of_lt_of_le passed' (status'.passed_le_committed _))
  have proceeding := stage.proceeding executes passed
  have proceeding' := stage'.proceeding executes' passed'
  refine ⟨fun name => ?_, differ.agreeAt_of_proceeding stage stage' proceeding proceeding'⟩
  rw [stage.valueAt?_eq, stage'.valueAt?_eq,
    differ.alike.state_eq stage.does stage'.does proceeding proceeding']

/-- A run that is halted has the settled values of the other one, which policies may change. -/
theorem halted_values {timestep : UInt64} (halted : status = .halted timestep)
    (committed' : timestep.toNat < status'.committed other.model.horizon) (name : String) :
    final.valueAt? name timestep.toNat = final'.valueAt? name timestep.toNat ∨
      other.FiredAssignment log' timestep.toNat name := by
  have unhidden' := differ.alike.unhidden unhidden
  have committed : timestep.toNat < status.committed engine.model.horizon := by
    rw [halted]
    exact Nat.lt_succ_self _
  obtain ⟨position, outcome, outcome', stage, stage', timestep_eq⟩ :=
    differ.exists_stages unhidden executes executes' committed committed'
  have stopped : outcome.halted = true := by
    rw [executes.halted_iff stage.path stage.does, halted, timestep_eq, UInt64.ofNat_toNat]
  rw [← timestep_eq]
  rcases slot_cases unhidden' stage'.does (rests_of_path unhidden' stage'.path) name with
    unchanged | ⟨assigned, _⟩
  · left
    rw [stage.valueAt?_eq, stage'.valueAt?_eq, unchanged, differ.alike.settledContext_eq,
      state_of_halted stage.does stopped, SimulationState.valueAt?_commit]
  · exact .inr (stage'.firedAssignment assigned)

end DifferInConstraints

/-- Constraints observe and do not steer.  Take two models that differ in their constraints, with
the same functions, configuration and parameters.  If their runs are not stopped from outside, both
fail with the same error or both succeed.  Of two runs that succeed, values, events, firings and
failures are the same at every timestep that both go through to its end.  Where one of them is
halted and the other is not, or later, the halted one has the value of the other one, unless a
policy that fired there in the other one assigns to the variable. -/
theorem constraints_observe (differ : DifferInConstraints engine other)
    (parameters : Bindings Value) (seed : UInt64) (index : Option UInt64) :
    (∀ error, engine.run parameters seed index .uninterrupted = .error error ↔
      other.run parameters seed index .uninterrupted = .error error) ∧
    ∀ checkpoint checkpoint' left right,
      engine.run parameters seed index checkpoint = .ok left →
      other.run parameters seed index checkpoint' = .ok right →
        (∀ timestep, timestep < left.status.passed engine.model.horizon →
          timestep < right.status.passed engine.model.horizon →
            (∀ name, left.value? name timestep = right.value? name timestep) ∧
              left.log.AgreeAt right.log (UInt64.ofNat timestep)) ∧
        (∀ timestep, left.status = .halted timestep →
          timestep.toNat < right.status.committed engine.model.horizon →
            ∀ name, left.value? name timestep.toNat = right.value? name timestep.toNat ∨
              engine.FiredAssignment right.log timestep.toNat name) ∧
        ∀ timestep, right.status = .halted timestep →
          timestep.toNat < left.status.committed engine.model.horizon →
            ∀ name, right.value? name timestep.toNat = left.value? name timestep.toNat ∨
              engine.FiredAssignment left.log timestep.toNat name := by
  refine ⟨differ.alike.run_eq_error_iff parameters seed index, ?_⟩
  intro checkpoint checkpoint' left right ran ran'
  obtain ⟨scalars, marks, final, log, solved, executes, rfl, rfl, series_eq, log_eq⟩ :=
    exists_executes_of_run ran
  obtain ⟨scalars', marks', final', log', solved', executes', _, _, series_eq', log_eq'⟩ :=
    exists_executes_of_run ran'
  rw [differ.alike.solveScalars_eq, solved] at solved'
  obtain ⟨rfl, rfl⟩ := Prod.mk.inj (Except.ok.inj solved')
  have unhidden : engine.Unhidden
      (engine.environment left.parameters left.scalars).scalars :=
    unhidden_of_solveScalars solved
  have unhidden' := differ.alike.unhidden unhidden
  rw [differ.alike.environment_eq] at executes'
  have closed := (executes.rests unhidden engine.rests_initial).closed
  have closed' := (executes'.rests unhidden' other.rests_initial).closed
  simp only [RunResult.value?_eq closed series_eq, RunResult.value?_eq closed' series_eq', log_eq,
    log_eq']
  refine ⟨?_, ?_, ?_⟩
  · intro timestep passed passed'
    rw [← differ.horizon_eq] at passed'
    obtain ⟨values, agree⟩ := differ.agree_before unhidden executes executes' passed passed'
    exact ⟨values, agree.append_left _⟩
  · intro timestep halted committed name
    rw [← differ.horizon_eq] at committed
    rw [← differ.alike.firedAssignment_eq]
    exact differ.halted_values unhidden executes executes' halted committed name
  · intro timestep halted committed name
    exact differ.symm.halted_values unhidden' executes' executes halted committed name

/-- A model of a variable that flips and that a policy sets back. -/
def steadiedModel : Model :=
  { Model.blank "steadied" 3 with
    equations :=
      [⟨"level", .initial, .boolean true, []⟩,
        ⟨"level", .recurrence, .unary .not (.ident "level"), []⟩]
    policies := [⟨"lift", .unary .not (.ident "level"), .assign "level" (.boolean true)⟩] }

def steadiedEngine : Engine := .plain steadiedModel rfl

/-- An engine for that model with a constraint that halts its runs. -/
def watchedEngine : Engine :=
  .plain { steadiedModel with constraints := [⟨"high", .ident "level", .fatal, none⟩] } rfl

theorem constraints_observe_watched : ∃ left right,
    watchedEngine.run .empty 0 none .uninterrupted = .ok left ∧
      steadiedEngine.run .empty 0 none .uninterrupted = .ok right ∧
      left.status = .halted 1 ∧ right.status = .completed ∧
      left.log.AgreeAt right.log 0 ∧ left.value? "level" 0 = right.value? "level" 0 ∧
      (left.value? "level" 1 = right.value? "level" 1 ∨
        watchedEngine.FiredAssignment right.log 1 "level") := by
  have differ : DifferInConstraints watchedEngine steadiedEngine := ⟨rfl, rfl, rfl⟩
  obtain ⟨left, ran, halted⟩ : ∃ left,
      watchedEngine.run .empty 0 none .uninterrupted = .ok left ∧ left.status = .halted 1 :=
    ⟨_, rfl, rfl⟩
  obtain ⟨right, ran', completed⟩ : ∃ right,
      steadiedEngine.run .empty 0 none .uninterrupted = .ok right ∧ right.status = .completed :=
    ⟨_, rfl, rfl⟩
  obtain ⟨before, at_halt, _⟩ :=
    (constraints_observe differ .empty 0 none).2 _ _ left right ran ran'
  rw [halted, completed] at before
  rw [completed] at at_halt
  obtain ⟨values, agree⟩ := before 0 (by decide) (by decide)
  exact ⟨left, right, ran, ran', halted, completed, agree, values "level",
    at_halt 1 halted (by decide) "level"⟩

end Engine

end EconModel
