import EconModel.Proofs.Engine.Progress

/-!
# The order of the equations

Two engines whose models differ in the order of their equations run alike.  Each resolution starts
from contexts that read alike and ends in such contexts, because it is not cut short; what follows
a resolution reads the context and does not see the order.  So the runs stay together from timestep
to timestep, and only the order of diagnostics within a timestep can differ.
-/

namespace EconModel

/-! ## Outcomes that agree -/

/-- Two errors are the same, up to the order of the names in them. -/
inductive EngineError.Agree : EngineError → EngineError → Prop where
  /-- The same scalars are unresolved. -/
  | scalars {names names' : List String} : names.Perm names' →
      Agree (.invalidModel (.unresolvedScalars names)) (.invalidModel (.unresolvedScalars names'))
  /-- The same initial values are missing. -/
  | initials {names names' : List String} : names.Perm names' →
      Agree (.invalidModel (.unresolvedInitialValues names))
        (.invalidModel (.unresolvedInitialValues names'))
  /-- The run is stopped from outside at the same timestep. -/
  | interrupted (cause : Interruption) (index timestep : UInt64) :
      Agree (.execution (.interrupted cause index timestep))
        (.execution (.interrupted cause index timestep))

/-- Two outcomes are both errors that agree or both results that are related. -/
inductive OutcomesAgree {α : Type} (Related : α → α → Prop) :
    Except EngineError α → Except EngineError α → Prop where
  | error {left right : EngineError} : left.Agree right →
      OutcomesAgree Related (.error left) (.error right)
  | ok {left right : α} : Related left right → OutcomesAgree Related (.ok left) (.ok right)

theorem OutcomesAgree.bind {α β : Type} {Related : α → α → Prop} {Related' : β → β → Prop}
    {left right : Except EngineError α} {next next' : α → Except EngineError β}
    (agree : OutcomesAgree Related left right)
    (later : ∀ value value', left = .ok value → right = .ok value' → Related value value' →
      OutcomesAgree Related' (next value) (next' value')) :
    OutcomesAgree Related' (left >>= next) (right >>= next') := by
  cases agree with
  | error errors => exact .error errors
  | ok related => exact later _ _ rfl rfl related

/-- Two results of runs agree: they differ in the order of names and of diagnostics at most. -/
structure RunResult.Agree (left right : RunResult) : Prop where
  status_eq : left.status = right.status
  parameters_eq : left.parameters = right.parameters
  scalars : left.scalars.SameMap right.scalars
  series : left.series.SameMap right.series
  log : left.log.Agree right.log

namespace Engine

/-! ## Engines whose equations are reordered -/

/-- Two engines differ in the order of their equations at most, and the number of passes is enough
for the equations of a timestep. -/
structure Reordered (engine other : Engine) : Prop where
  /-- The models differ in their equations at most. -/
  model_eq : other.model = engine.model.reordered other.model.equations
  /-- The equations differ in their order at most. -/
  perm : other.model.equations.Perm engine.model.equations
  functions_eq : other.functions = engine.functions
  config_eq : other.config = engine.config
  /-- The number of passes is enough. -/
  enough : (engine.model.equationsOf .current).length ≤ engine.config.passLimit.toNat

namespace Reordered

variable {engine other : Engine} (reordered : Reordered engine other)

include reordered

theorem equationsOf_perm (kind : EquationKind) :
    (engine.model.equationsOf kind).Perm (other.model.equationsOf kind) :=
  reordered.perm.symm.filter _

theorem hasEquation_eq (target : String) (kind : EquationKind) :
    engine.model.hasEquation target kind = other.model.hasEquation target kind := by
  rw [reordered.model_eq]
  exact (Model.hasEquation_reordered reordered.perm target kind).symm

theorem mem_variableNames_iff (name : String) :
    name ∈ engine.model.variableNames ↔ name ∈ other.model.variableNames := by
  rw [reordered.model_eq]
  exact (Model.mem_variableNames_reordered_iff reordered.perm name).symm

theorem horizon_eq : engine.model.horizon = other.model.horizon := by
  rw [reordered.model_eq]
  rfl

theorem constraints_eq : engine.model.constraints = other.model.constraints := by
  rw [reordered.model_eq]
  rfl

theorem policies_eq : engine.model.policies = other.model.policies := by
  rw [reordered.model_eq]
  rfl

theorem startingEquations_perm :
    (startingEquations engine.model).Perm (startingEquations other.model) := by
  unfold startingEquations
  simp only [reordered.hasEquation_eq]
  exact reordered.perm.symm.filter _

theorem pendingAt_perm (timestep : Nat) :
    (engine.pendingAt timestep).Perm (other.pendingAt timestep) := by
  unfold pendingAt
  split
  · exact reordered.startingEquations_perm
  · exact reordered.equationsOf_perm .current

theorem length_le_limitAt (timestep : Nat) :
    (engine.pendingAt timestep).length ≤ engine.limitAt timestep := by
  unfold pendingAt limitAt
  split
  · exact engine.length_le_startingLimit _
  · exact reordered.enough

theorem length_le_limitAt_other (timestep : Nat) :
    (other.pendingAt timestep).length ≤ other.limitAt timestep := by
  unfold pendingAt limitAt
  split
  · exact other.length_le_startingLimit _
  · rw [← (reordered.equationsOf_perm .current).length_eq, reordered.config_eq]
    exact reordered.enough

theorem sameEnvironment (parameters : Bindings Value) {scalars scalars' : Bindings Value}
    (same : scalars.SameMap scalars') : Context.SameEnvironment
      (engine.environment parameters scalars) (other.environment parameters scalars') where
  parameters := .refl _
  scalars := same
  functions_eq := reordered.functions_eq.symm
  zeroDivision_eq := by
    rw [environment, environment, reordered.config_eq]

theorem initial_sameSeries : (SimulationState.initial engine.model.variableNames).SameSeries
    (SimulationState.initial other.model.variableNames) where
  isOpen_eq := rfl
  committed_eq := rfl
  series := by
    have perm : engine.model.variableNames.Perm other.model.variableNames :=
      (List.perm_ext_iff_of_nodup engine.model.nodup_variableNames
        other.model.nodup_variableNames).mpr reordered.mem_variableNames_iff
    apply Bindings.sameMap_ofList_of_perm (perm.map _)
    simpa [Function.comp_def] using engine.model.nodup_variableNames

/-! ## Scalars -/

/-- The scalars of both engines are resolved alike. -/
theorem solveScalars_agree (parameters : Bindings Value) :
    OutcomesAgree (fun left right => left.1.SameMap right.1 ∧
        Diagnostic.ListsAgree left.2 right.2)
      (engine.solveScalars parameters) (other.solveScalars parameters) := by
  obtain ⟨done, failed, ends⟩ := engine.exists_scalarsEnd parameters
  obtain ⟨done', failed', ends'⟩ := other.exists_scalarsEnd parameters
  have parallel : Solver.Parallel .scalars (engine.scalarView parameters)
      (other.scalarView parameters) (engine.scalarStep parameters) (other.scalarStep parameters)
      _ _ (engine.model.equationsOf .scalar) (other.model.equationsOf .scalar) .empty .empty
      done done' failed failed' :=
    ⟨ends, ends', reordered.equationsOf_perm .scalar,
      .of_environment (reordered.sameEnvironment parameters (.refl _)) (.refl _) 0,
      engine.length_le_startingLimit _, other.length_le_startingLimit _⟩
  have unresolved : (engine.resolveScalars parameters).1.unresolved.SameMap
      (other.resolveScalars parameters).1.unresolved := parallel.sameMap_unresolved
  have scalars : (engine.resolveScalars parameters).2.1.SameMap
      (other.resolveScalars parameters).2.1 := parallel.sameReading_ending.scalars
  have marks : Diagnostic.ListsAgree (engine.resolveScalars parameters).2.2
      (other.resolveScalars parameters).2.2 := parallel.diagnostics_agree
  rw [solveScalars_eq, solveScalars_eq, Resolution.isConverged, Resolution.isConverged,
    unresolved.isEmpty_eq]
  split
  · exact .ok ⟨scalars, marks⟩
  · exact .error (.scalars unresolved.names_perm)

end Reordered

/-! ## Timesteps -/

/-- Two engines are about to do a timestep from states that read alike. -/
structure Aligned (engine other : Engine) (environment environment' : Environment)
    (timestep : Nat) (state state' : SimulationState) (next next' : Bindings Value) : Prop where
  reordered : Reordered engine other
  environments : Context.SameEnvironment environment environment'
  unhidden : engine.Unhidden environment.scalars
  unhidden' : other.Unhidden environment'.scalars
  rests : engine.Rests state timestep
  rests' : other.Rests state' timestep
  states : state.SameSeries state'
  nexts : next.SameMap next'

namespace Aligned

variable {engine other : Engine} {environment environment' : Environment} {timestep : Nat}
  {state state' : SimulationState} {next next' : Bindings Value}
  (aligned : Aligned engine other environment environment' timestep state state' next next')

include aligned

theorem opened_sameSeries :
    (engine.opened timestep state next).SameSeries (other.opened timestep state' next') := by
  apply aligned.states.openNext
  funext name previous
  rw [seed, seed, aligned.reordered.hasEquation_eq, aligned.nexts name]

theorem exists_parallel : ∃ done done' failed failed',
    Solver.Parallel .slots (environment.view timestep) (environment'.view timestep)
      (equationStep environment timestep) (equationStep environment' timestep)
      (engine.limitAt timestep) (other.limitAt timestep)
      (engine.pendingAt timestep) (other.pendingAt timestep)
      (engine.opened timestep state next) (other.opened timestep state' next')
      done done' failed failed' := by
  obtain ⟨done, failed, ends⟩ := exists_timestepEnds aligned.unhidden aligned.rests next
  obtain ⟨done', failed', ends'⟩ := exists_timestepEnds aligned.unhidden' aligned.rests' next'
  exact ⟨done, done', failed, failed', ends, ends', aligned.reordered.pendingAt_perm timestep,
    .of_environment aligned.environments aligned.opened_sameSeries.series timestep,
    aligned.reordered.length_le_limitAt timestep,
    aligned.reordered.length_le_limitAt_other timestep⟩

/-- The same equations stay unresolved, with the same failures. -/
theorem sameMap_unresolved :
    (engine.resolveAt environment timestep
        (engine.opened timestep state next)).1.unresolved.SameMap
      (other.resolveAt environment' timestep
        (other.opened timestep state' next')).1.unresolved := by
  obtain ⟨_, _, _, _, parallel⟩ := aligned.exists_parallel
  exact parallel.sameMap_unresolved

theorem settled_sameSeries :
    (engine.settledAt environment timestep (engine.opened timestep state next)).SameSeries
      (other.settledAt environment' timestep (other.opened timestep state' next')) := by
  obtain ⟨done, failed, ends⟩ := exists_timestepEnds aligned.unhidden aligned.rests next
  obtain ⟨done', failed', ends'⟩ := exists_timestepEnds aligned.unhidden' aligned.rests' next'
  obtain ⟨_, _, _, _, parallel⟩ := aligned.exists_parallel
  have opened_open := openAt_settledAt ends (openAt_opened aligned.rests next)
  have opened_open' := openAt_settledAt ends' (openAt_opened aligned.rests' next')
  refine ⟨?_, ?_, parallel.sameReading_ending.series⟩
  · rw [opened_open.isOpen_eq, opened_open'.isOpen_eq]
  · rw [opened_open.committed_eq, opened_open'.committed_eq]

theorem settled_sameReading :
    (environment.view timestep
        (engine.settledAt environment timestep (engine.opened timestep state next))).SameReading
      (environment'.view timestep
        (other.settledAt environment' timestep (other.opened timestep state' next'))) :=
  .of_environment aligned.environments aligned.settled_sameSeries.series timestep

theorem reportAt_eq :
    engine.reportAt environment timestep (engine.opened timestep state next) =
      other.reportAt environment' timestep (other.opened timestep state' next') := by
  rw [reportAt, reportAt, aligned.reordered.constraints_eq]
  exact aligned.settled_sameReading.check_eq _

omit aligned in
theorem convergenceDiagnostics_agree {resolution resolution' : Resolution}
    (unresolved : resolution.unresolved.SameMap resolution'.unresolved) :
    Diagnostic.ListsAgree (convergenceDiagnostics timestep resolution)
      (convergenceDiagnostics timestep resolution') := by
  rw [convergenceDiagnostics, convergenceDiagnostics, Resolution.isConverged,
    Resolution.isConverged, unresolved.isEmpty_eq]
  split
  · exact .refl _
  · exact ⟨.cons ⟨rfl, unresolved.map _⟩ .nil, .refl _⟩

theorem settledLog_agree :
    (engine.settledLog environment timestep (engine.opened timestep state next)).Agree
      (other.settledLog environment' timestep (other.opened timestep state' next')) := by
  obtain ⟨_, _, _, _, parallel⟩ := aligned.exists_parallel
  have marks : Diagnostic.ListsAgree
      (engine.resolveAt environment timestep (engine.opened timestep state next)).2.2
      (other.resolveAt environment' timestep (other.opened timestep state' next')).2.2 :=
    parallel.diagnostics_agree
  refine .append (.of_diagnostics (marks.append
    (convergenceDiagnostics_agree aligned.sameMap_unresolved))) ?_
  rw [aligned.reportAt_eq, constraintLog, constraintLog, aligned.settled_sameReading.stamp_eq]
  exact .refl _

theorem effectAt_same : PolicySetting.SameEffect
    (engine.effectAt environment timestep (engine.opened timestep state next))
    (other.effectAt environment' timestep (other.opened timestep state' next')) := by
  have settings : PolicySetting.SameSetting (engine.policySetting environment timestep)
      (other.policySetting environment' timestep) := by
    refine ⟨aligned.environments, rfl, ?_⟩
    rw [policySetting, policySetting, aligned.reordered.config_eq]
  rw [effectAt, effectAt, aligned.reordered.policies_eq]
  exact settings.run _ aligned.settled_sameSeries

theorem recurrencesAt_agree (isLast : Bool) :
    (engine.recurrencesAt environment timestep isLast
        (engine.opened timestep state next)).1.SameMap
      (other.recurrencesAt environment' timestep isLast
        (other.opened timestep state' next')).1 ∧
    Diagnostic.ListsAgree
      (engine.recurrencesAt environment timestep isLast (engine.opened timestep state next)).2
      (other.recurrencesAt environment' timestep isLast
        (other.opened timestep state' next')).2 := by
  have contexts : (environment.view timestep (engine.effectAt environment timestep
        (engine.opened timestep state next)).state).SameReading
      (environment'.view timestep (other.effectAt environment' timestep
        (other.opened timestep state' next')).state) :=
    .of_environment aligned.environments aligned.effectAt_same.states.series timestep
  have recurrence_eq := recurrence_eq_of_samePast contexts.samePast
  have perm := aligned.reordered.equationsOf_perm .recurrence
  have distinct := engine.accepted.nodup_targets_equationsOf .recurrence
  unfold recurrencesAt
  split
  · exact ⟨.refl _, .refl _⟩
  · unfold recurrences
    dsimp only
    rw [← recurrence_eq]
    constructor
    · apply Bindings.sameMap_ofList_of_perm ((perm.map _).map _)
      simpa [Function.comp_def] using distinct
    · refine .of_perm ((perm.map _).flatMap_right _) fun diagnostic member => ?_
      simp only [List.mem_flatMap, List.mem_map] at member
      obtain ⟨_, ⟨equation, _, rfl⟩, recorded⟩ := member
      rcases mem_diagnostics_recurrence recorded with ⟨_, rfl⟩ | ⟨_, _, rfl⟩ <;> rfl

end Aligned

/-- Two timesteps come to the same. -/
structure StepsAgree (left right : StepOutcome) : Prop where
  states : left.state.SameSeries right.state
  nexts : left.next.SameMap right.next
  log : left.log.Agree right.log
  halted_eq : left.halted = right.halted

namespace Aligned

variable {engine other : Engine} {environment environment' : Environment} {timestep : Nat}
  {state state' : SimulationState} {next next' : Bindings Value}
  (aligned : Aligned engine other environment environment' timestep state state' next next')

include aligned

theorem finish_agree (isLast : Bool) :
    StepsAgree (engine.finish environment timestep isLast (engine.opened timestep state next))
      (other.finish environment' timestep isLast (other.opened timestep state' next')) := by
  rw [finish, finish, aligned.reportAt_eq]
  split
  · exact ⟨aligned.settled_sameSeries.commit, .refl _, aligned.settledLog_agree, rfl⟩
  · obtain ⟨nexts, recorded⟩ := aligned.recurrencesAt_agree isLast
    have effects := aligned.effectAt_same
    refine ⟨effects.states.commit, nexts, ?_, rfl⟩
    refine .append (.append aligned.settledLog_agree ?_) (.of_diagnostics recorded)
    rw [effects.log_eq]
    exact .refl _

/-- The same initial values are missing. -/
theorem missingInitials_perm :
    (engine.missingInitials timestep
        (engine.resolveAt environment timestep (engine.opened timestep state next)).1).Perm
      (other.missingInitials timestep
        (other.resolveAt environment' timestep (other.opened timestep state' next')).1) := by
  unfold missingInitials
  split
  · simp only [aligned.reordered.hasEquation_eq]
    exact aligned.sameMap_unresolved.names_perm.filter _
  · exact .refl _

/-- Both engines do the timestep alike. -/
theorem step_agree (isLast : Bool) :
    OutcomesAgree StepsAgree (engine.step environment timestep isLast state next)
      (other.step environment' timestep isLast state' next') := by
  have missing := aligned.missingInitials_perm
  rw [step_eq, step_eq]
  split
  · next none_missing =>
    rw [none_missing, List.nil_perm] at missing
    rw [missing]
    exact .ok (aligned.finish_agree isLast)
  · next some_missing =>
    split
    · next none_missing =>
      rw [none_missing, List.perm_nil] at missing
      exact (some_missing missing).elim
    · exact .error (.initials missing)

end Aligned

/-! ## Runs -/

section Run

variable {engine other : Engine} {environment environment' : Environment}

/-- Both engines do the remaining timesteps alike. -/
theorem steps_agree (index : Option UInt64) (checkpoint : Checkpoint) (remaining timestep : Nat)
    {state state' : SimulationState} {next next' : Bindings Value}
    (aligned : Aligned engine other environment environment' timestep state state' next next') :
    OutcomesAgree (fun left right => left.1 = right.1 ∧ left.2.1.SameSeries right.2.1 ∧
        left.2.2.Agree right.2.2)
      (engine.steps environment index checkpoint remaining timestep state next)
      (other.steps environment' index checkpoint remaining timestep state' next') := by
  induction remaining generalizing timestep state state' next next' with
  | zero => exact .ok ⟨rfl, aligned.states, .refl _⟩
  | succ remaining ih =>
      rw [steps, steps]
      cases checkpoint timestep with
      | some cause => exact .error (.interrupted cause _ _)
      | none =>
          apply (aligned.step_agree (remaining == 0)).bind
          intro outcome outcome' stepped stepped' agree
          rw [agree.halted_eq]
          split
          · exact .ok ⟨rfl, agree.states, agree.log⟩
          · have later := ih (timestep + 1)
              { aligned with
                rests := rests_of_step aligned.unhidden aligned.rests stepped
                rests' := rests_of_step aligned.unhidden' aligned.rests' stepped'
                states := agree.states
                nexts := agree.nexts }
            apply later.bind
            rintro ⟨status, final, log⟩ ⟨status', final', log'⟩ _ _ ⟨rfl, finals, logs⟩
            exact .ok ⟨rfl, finals, agree.log.append logs⟩

/-- Engines whose equations are reordered run alike. -/
theorem run_agree (reordered : Reordered engine other) (parameters : Bindings Value)
    (seed : UInt64) (index : Option UInt64) (checkpoint : Checkpoint) :
    OutcomesAgree RunResult.Agree (engine.run parameters seed index checkpoint)
      (other.run parameters seed index checkpoint) := by
  apply (reordered.solveScalars_agree parameters).bind
  rintro ⟨scalars, marks⟩ ⟨scalars', marks'⟩ solved solved' ⟨same, marks_agree⟩
  rw [← reordered.horizon_eq]
  have aligned : Aligned engine other (engine.environment parameters scalars)
      (other.environment parameters scalars') 0 (.initial engine.model.variableNames)
      (.initial other.model.variableNames) .empty .empty :=
    ⟨reordered, reordered.sameEnvironment parameters same, unhidden_of_solveScalars solved,
      unhidden_of_solveScalars solved', engine.rests_initial, other.rests_initial,
      reordered.initial_sameSeries, .refl _⟩
  apply (steps_agree index checkpoint engine.model.horizon.toNat 0 aligned).bind
  rintro ⟨status, final, log⟩ ⟨status', final', log'⟩ _ _ ⟨rfl, finals, logs⟩
  exact .ok ⟨rfl, rfl, same, finals.committedSeries, (Log.Agree.of_diagnostics marks_agree).append
    logs⟩

end Run

/-- The order of the equations does not matter: with its equations in any other order a model is
accepted too, and if the number of passes is enough for its current equations, every run has an
outcome that agrees. -/
theorem equation_order_irrelevant (engine : Engine) {equations : List Equation}
    (perm : equations.Perm engine.model.equations)
    (enough : (engine.model.equationsOf .current).length ≤ engine.config.passLimit.toNat) :
    ∃ other,
      create (engine.model.reordered equations) engine.functions engine.config = .ok other ∧
      ∀ parameters seed index checkpoint,
        OutcomesAgree RunResult.Agree (engine.run parameters seed index checkpoint)
          (other.run parameters seed index checkpoint) := by
  have model_valid : (engine.model.reordered equations).validate engine.functions
      engine.config.blockLimit = .ok () :=
    Model.validateBy_eq_ok_iff.mpr (engine.accepted.reordered perm)
  refine ⟨_, create_eq_ok engine.config_valid model_valid, ?_⟩
  exact run_agree ⟨rfl, perm, rfl, rfl, enough⟩

/-- A variable that takes over the value of another one. -/
def follower : Equation := ⟨"follower", .current, .ident "leader", []⟩

/-- The variable whose value is taken over. -/
def leader : Equation := ⟨"leader", .current, .boolean true, []⟩

/-- A model of the two, in the order that takes two passes. -/
def followingModel : Model :=
  { Model.blank "following" 2 with equations := [follower, leader] }

def followingEngine : Engine := .plain followingModel rfl

theorem equation_order_irrelevant_following :
    ∃ other result result',
      create (followingModel.reordered [leader, follower]) followingEngine.functions
        followingEngine.config = .ok other ∧
      followingEngine.run .empty 0 none .uninterrupted = .ok result ∧
      other.run .empty 0 none .uninterrupted = .ok result' ∧ result.Agree result' := by
  obtain ⟨other, created, agree⟩ := equation_order_irrelevant followingEngine
    (.swap follower leader []) (by decide)
  obtain ⟨result, ran⟩ : ∃ result,
      followingEngine.run .empty 0 none .uninterrupted = .ok result := ⟨_, rfl⟩
  have outcomes := agree .empty 0 none .uninterrupted
  generalize other_ran : other.run .empty 0 none .uninterrupted = outcome at outcomes
  rw [ran] at outcomes
  obtain _ | results := outcomes
  exact ⟨other, result, _, created, ran, other_ran, results⟩

end Engine

end EconModel
