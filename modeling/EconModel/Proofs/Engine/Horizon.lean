import EconModel.Proofs.Engine.Alike
import EconModel.Proofs.Engine.Replay

/-!
# The horizon

A longer horizon leaves the past of a run alone.  The only timestep that looks at the horizon is the
last one, which evaluates no recurrences; so a run with an earlier horizon is the beginning of the
longer run, short of what the longer one records about the recurrences of that timestep.
-/

namespace EconModel

/-- The status of a run whose horizon is brought forward. -/
def RunStatus.upTo (status : RunStatus) (horizon : UInt64) : RunStatus :=
  match status with
  | .completed => .completed
  | .halted timestep => if timestep < horizon then .halted timestep else .completed

theorem RunStatus.upTo_eq_completed {status : RunStatus} {horizon bound : UInt64}
    (passed : bound.toNat ≤ status.passed horizon) : status.upTo bound = .completed := by
  cases status with
  | completed => rfl
  | halted timestep =>
      have not_before : ¬ timestep < bound := by
        rw [UInt64.lt_iff_toNat_lt, Nat.not_lt]
        exact passed
      rw [upTo, if_neg not_before]

namespace Engine

section Course

variable {engine : Engine} {environment : Environment} {checkpoint : Checkpoint}
  {position : Position} {status : RunStatus} {final : SimulationState} {log : Log}

theorem Executes.committed_le
    (executes : engine.Executes environment checkpoint position status final log) :
    status.committed engine.model.horizon ≤ engine.model.horizon.toNat := by
  induction executes with
  | completed _ => exact Nat.le_refl _
  | halted does _ =>
      change (UInt64.ofNat _).toNat + 1 ≤ _
      rw [does.begins.toNat_stamp]
      exact does.begins.within
  | advanced _ _ _ ih => exact ih

/-- Nothing is recorded for the timesteps before a position. -/
theorem Executes.before_eq_empty
    (executes : engine.Executes environment checkpoint position status final log)
    (unhidden : engine.Unhidden environment.scalars)
    (rests : engine.Rests position.state position.timestep) {bound : UInt64}
    (reached : bound.toNat ≤ position.timestep) : log.before bound = .empty := by
  induction executes with
  | completed _ => rfl
  | halted does _ =>
      have outside := mt does.begins.stamp_lt_iff.mp (Nat.not_lt.mpr reached)
      exact (does.belongsTo unhidden rests).before_eq_empty outside
  | advanced does _ _ ih =>
      have outside := mt does.begins.stamp_lt_iff.mp (Nat.not_lt.mpr reached)
      rw [Log.before_append, (does.belongsTo unhidden rests).before_eq_empty outside,
        ih (does.rests unhidden rests) (Nat.le_succ_of_le reached)]
      rfl

end Course

/-- One engine has an earlier horizon than another one and differs in nothing else. -/
structure Shortens (short engine : Engine) : Prop where
  model_eq : short.model = { engine.model with horizon := short.model.horizon }
  functions_eq : short.functions = engine.functions
  config_eq : short.config = engine.config
  horizon_le : short.model.horizon.toNat ≤ engine.model.horizon.toNat

/-- What a longer run records about the recurrences of the last timestep of a shorter one. -/
def overhang (engine : Engine) (environment : Environment) (status : RunStatus)
    (final : SimulationState) (bound : UInt64) : List Diagnostic :=
  if bound.toNat < status.committed engine.model.horizon then
    (recurrences (environment.view (bound.toNat - 1) final)
      (engine.model.equationsOf .recurrence)).2
  else []

namespace Shortens

variable {short engine : Engine} (shortens : Shortens short engine)

include shortens

theorem alike : Alike engine short where
  equations_eq := by rw [shortens.model_eq]
  policies_eq := by rw [shortens.model_eq]
  functions_eq := shortens.functions_eq
  config_eq := shortens.config_eq

theorem reportAt_eq : short.reportAt = engine.reportAt := by
  have constraints_eq : short.model.constraints = engine.model.constraints := by
    rw [shortens.model_eq]
  funext environment timestep before
  rw [reportAt, reportAt, shortens.alike.settledAt_eq, constraints_eq]

theorem settledLog_eq : short.settledLog = engine.settledLog := by
  funext environment timestep before
  rw [settledLog, settledLog, shortens.alike.resolveAt_eq, shortens.alike.settledAt_eq,
    shortens.reportAt_eq]

theorem finish_eq : short.finish = engine.finish := by
  funext environment timestep isLast before
  rw [finish, finish, shortens.reportAt_eq, shortens.settledLog_eq, shortens.alike.settledAt_eq,
    shortens.alike.effectAt_eq, shortens.alike.recurrencesAt_eq]

variable {environment : Environment} {checkpoint checkpoint' : Checkpoint} {position : Position}
  {outcome brief : StepOutcome}

/-- A timestep halts both runs or neither. -/
theorem halted_eq (does : engine.Does environment checkpoint position outcome)
    (does' : short.Does environment checkpoint' position brief) :
    brief.halted = outcome.halted := by
  rw [← does.isFatal_eq, ← does'.isFatal_eq, shortens.reportAt_eq, shortens.alike.openedAt_eq]

theorem outcome_eq_of_halted (does : engine.Does environment checkpoint position outcome)
    (does' : short.Does environment checkpoint' position brief) (halted : outcome.halted = true) :
    brief = outcome := by
  have fatal := does.isFatal_eq.trans halted
  rw [does'.outcome_eq, does.outcome_eq, shortens.finish_eq, shortens.alike.openedAt_eq,
    finish_of_isFatal fatal, finish_of_isFatal fatal]

/-- A timestep that is the last one in neither run comes to the same. -/
theorem outcome_eq_of_lt (does : engine.Does environment checkpoint position outcome)
    (does' : short.Does environment checkpoint' position brief)
    (followed : position.timestep + 1 < short.model.horizon.toNat) : brief = outcome := by
  have followed' := Nat.lt_of_lt_of_le followed shortens.horizon_le
  have isLast_eq : short.isLastAt position.timestep = engine.isLastAt position.timestep := by
    rw [isLastAt, isLastAt, beq_eq_false_iff_ne.mpr (Nat.ne_of_lt followed),
      beq_eq_false_iff_ne.mpr (Nat.ne_of_lt followed')]
  rw [does'.outcome_eq, does.outcome_eq, shortens.finish_eq, shortens.alike.openedAt_eq, isLast_eq]

/-- At the last timestep of the shorter run the longer one also records its recurrences. -/
theorem log_eq_of_last (does : engine.Does environment checkpoint position outcome)
    (does' : short.Does environment checkpoint' position brief)
    (proceeding : outcome.halted = false)
    (last : position.timestep + 1 = short.model.horizon.toNat) :
    outcome.log = brief.log ++ .ofDiagnostics (engine.recurrencesAt environment position.timestep
      (engine.isLastAt position.timestep) (engine.openedAt position)).2 := by
  have proceeding' := (shortens.halted_eq does does').trans proceeding
  have isLast_eq : short.isLastAt position.timestep = true := beq_iff_eq.mpr last
  have none_recorded : Log.ofDiagnostics (engine.recurrencesAt environment position.timestep true
      (engine.openedAt position)).2 = .empty := rfl
  rw [log_of_proceeding does proceeding, log_of_proceeding does' proceeding',
    shortens.settledLog_eq, shortens.alike.effectAt_eq, shortens.alike.recurrencesAt_eq,
    shortens.alike.openedAt_eq, isLast_eq, none_recorded, Log.append_empty]

end Shortens

/-- A run is the beginning of a longer one. -/
structure Begun (short engine : Engine) (environment : Environment) (status status' : RunStatus)
    (final final' : SimulationState) (log log' : Log) : Prop where
  status_eq : status' = status.upTo short.model.horizon
  valueAt?_eq : ∀ name {index : Nat}, index < short.model.horizon.toNat →
    final'.valueAt? name index = final.valueAt? name index
  before_eq : log.before short.model.horizon =
    log' ++ .ofDiagnostics (engine.overhang environment status final short.model.horizon)
  log_eq : ∀ timestep, status = .halted timestep → timestep < short.model.horizon → log' = log

section Begun

variable {short engine : Engine} {environment : Environment} {checkpoint checkpoint' : Checkpoint}
  {position : Position} {status status' : RunStatus} {final final' : SimulationState}
  {log log' : Log} (unhidden : engine.Unhidden environment.scalars)

include unhidden

theorem begun_of_halted {outcome : StepOutcome}
    (does : engine.Does environment checkpoint position outcome)
    (rests : engine.Rests position.state position.timestep)
    (within : position.timestep < short.model.horizon.toNat) :
    Begun short engine environment (.halted (UInt64.ofNat position.timestep))
      (.halted (UInt64.ofNat position.timestep)) outcome.state outcome.state outcome.log
      outcome.log := by
  have inside := does.begins.stamp_lt_iff.mpr within
  refine ⟨(if_pos inside).symm, fun _ _ _ => rfl, ?_, fun _ _ _ => rfl⟩
  have not_committed : ¬ short.model.horizon.toNat <
      (RunStatus.halted (UInt64.ofNat position.timestep)).committed engine.model.horizon := by
    change ¬ _ < (UInt64.ofNat _).toNat + 1
    rw [does.begins.toNat_stamp]
    omega
  rw [(does.belongsTo unhidden rests).before_eq inside, overhang, if_neg not_committed]
  exact (Log.append_empty _).symm

section Last

variable {outcome brief : StepOutcome} (shortens : Shortens short engine)
  (does : engine.Does environment checkpoint position outcome)
  (rests : engine.Rests position.state position.timestep) (proceeding : outcome.halted = false)
  (last : position.timestep + 1 = short.model.horizon.toNat)
  (executes : engine.Executes environment checkpoint
    ⟨position.timestep + 1, outcome.state, outcome.next⟩ status final log)

include shortens does rests proceeding last executes

/-- The recurrences of the last timestep are recorded if the longer run goes on. -/
theorem overhang_eq : (engine.recurrencesAt environment position.timestep
      (engine.isLastAt position.timestep) (engine.openedAt position)).2 =
    engine.overhang environment status final short.model.horizon := by
  have committed_le := executes.committed_le
  have horizon_le := shortens.horizon_le
  rw [overhang, recurrencesAt, ← last, Nat.add_sub_cancel]
  by_cases goes_on : position.timestep + 1 < status.committed engine.model.horizon
  · have isLast_eq : engine.isLastAt position.timestep = false :=
      beq_eq_false_iff_ne.mpr (by omega)
    rw [if_pos goes_on, isLast_eq,
      ← recurrences_final unhidden does rests proceeding executes]
    rfl
  · have at_horizon : position.timestep + 1 = engine.model.horizon.toNat := by
      by_contra before_horizon
      exact goes_on (executes.timestep_lt (by change position.timestep + 1 < _; omega))
    rw [if_neg goes_on, isLastAt, beq_iff_eq.mpr at_horizon]
    rfl

/-- The shorter run ends with this timestep, and the longer one does not halt there. -/
theorem begun_of_last (does' : short.Does environment checkpoint' position brief) :
    Begun short engine environment status .completed final brief.state (outcome.log ++ log)
      brief.log := by
  have rests_after := does.rests unhidden rests
  have passed : short.model.horizon.toNat ≤ status.passed engine.model.horizon :=
    last ▸ executes.timestep_le_passed
  have inside := does.begins.stamp_lt_iff.mpr (Nat.lt_of_succ_le (Nat.le_of_eq last))
  have proceeding' := (shortens.halted_eq does does').trans proceeding
  refine ⟨(RunStatus.upTo_eq_completed passed).symm, ?_, ?_, ?_⟩
  · intro name index within
    rw [← shortens.alike.state_eq does does' proceeding proceeding']
    exact (executes.valueAt?_eq unhidden rests_after name (last ▸ within)).symm
  · rw [Log.before_append, (does.belongsTo unhidden rests).before_eq inside,
      executes.before_eq_empty unhidden rests_after (Nat.le_of_eq last.symm), Log.append_empty,
      shortens.log_eq_of_last does does' proceeding last,
      overhang_eq unhidden shortens does rests proceeding last executes]
  · rintro timestep rfl early
    rw [UInt64.lt_iff_toNat_lt] at early
    exact (Nat.not_lt.mpr passed early).elim

end Last

/-- What an engine with an earlier horizon makes of the timesteps from a position on is the
beginning of what the other engine makes of them. -/
theorem Shortens.begun (shortens : Shortens short engine)
    (executes : engine.Executes environment checkpoint position status final log)
    (executes' : short.Executes environment checkpoint' position status' final' log')
    (rests : engine.Rests position.state position.timestep)
    (within : position.timestep < short.model.horizon.toNat) :
    Begun short engine environment status status' final final' log log' := by
  induction executes generalizing status' final' log' with
  | completed timestep_eq =>
      have horizon_le := shortens.horizon_le
      omega
  | halted does stopped =>
      cases executes' with
      | completed timestep_eq => omega
      | halted does' _ =>
          obtain rfl := shortens.outcome_eq_of_halted does does' stopped
          exact begun_of_halted unhidden does rests within
      | advanced does' proceeding' _ =>
          rw [shortens.halted_eq does does', stopped] at proceeding'
          cases proceeding'
  | @advanced position outcome status final later does proceeding executes ih =>
      cases executes' with
      | completed timestep_eq => omega
      | halted does' stopped' =>
          rw [shortens.halted_eq does does', proceeding] at stopped'
          cases stopped'
      | @advanced _ brief _ _ later' does' _ executes' =>
          rcases Nat.eq_or_lt_of_le within with last | followed
          · obtain ⟨rfl, rfl, rfl⟩ := executes'.eq_of_horizon last
            rw [Log.append_empty]
            exact begun_of_last unhidden shortens does rests proceeding last executes does'
          · obtain rfl := shortens.outcome_eq_of_lt does does' followed
            obtain ⟨status_eq, values, before_eq, log_eq⟩ :=
              ih executes' (does.rests unhidden rests) followed
            have inside := does.begins.stamp_lt_iff.mpr within
            refine ⟨status_eq, values, ?_, ?_⟩
            · rw [Log.before_append, (does.belongsTo unhidden rests).before_eq inside, before_eq,
                Log.append_assoc]
            · intro timestep halted early
              rw [log_eq timestep halted early]

end Begun

/-- With an earlier horizon a model is accepted too. -/
theorem exists_shortens (engine : Engine) {horizon : UInt64} (positive : 0 < horizon)
    (earlier : horizon ≤ engine.model.horizon) :
    ∃ short,
      create (engine.model.withHorizon horizon) engine.functions engine.config = .ok short ∧
        Shortens short engine ∧ short.model.horizon = horizon := by
  have horizon_ne : horizon ≠ 0 := by
    rintro rfl
    exact UInt64.lt_irrefl 0 positive
  have model_valid : (engine.model.withHorizon horizon).validate engine.functions
      engine.config.blockLimit = .ok () :=
    Model.validateBy_eq_ok_iff.mpr (engine.accepted.withHorizon horizon_ne)
  refine ⟨_, create_eq_ok engine.config_valid model_valid, ?_, rfl⟩
  exact ⟨rfl, rfl, rfl, UInt64.le_iff_toNat_le.mp earlier⟩

/-- The marks of the scalars are recorded before every horizon. -/
theorem before_marks_of_solveScalars {engine : Engine} {parameters scalars : Bindings Value}
    {marks : List Diagnostic} {horizon : UInt64}
    (solved : engine.solveScalars parameters = .ok (scalars, marks)) (positive : 0 < horizon) :
    (Log.ofDiagnostics marks).before horizon = .ofDiagnostics marks := by
  refine Log.BelongsTo.before_eq ⟨nofun, nofun, nofun, ?_⟩ positive
  intro diagnostic member
  obtain ⟨location, rfl⟩ := exists_mark_of_solveScalars solved member
  rfl

/-- A longer horizon leaves the past of a run alone.  With an earlier horizon a model is accepted
too.  If the runs are not stopped from outside, they fail with the same error or both succeed.  Of
two runs that succeed, the shorter one has the beginnings of the series, and its records are those
of the longer one for the timesteps before its horizon; only what the longer one records about the
recurrences of the last of these timesteps, if it goes on, is not there.  Where the longer run is
halted before that horizon, both are halted and record the same. -/
theorem horizon_extends (engine : Engine) {horizon : UInt64} (positive : 0 < horizon)
    (earlier : horizon ≤ engine.model.horizon) :
    ∃ short,
      create (engine.model.withHorizon horizon) engine.functions engine.config = .ok short ∧
      ∀ parameters seed index,
        (∀ error, engine.run parameters seed index .uninterrupted = .error error ↔
          short.run parameters seed index .uninterrupted = .error error) ∧
        ∀ checkpoint checkpoint' result brief,
          engine.run parameters seed index checkpoint = .ok result →
          short.run parameters seed index checkpoint' = .ok brief →
            brief.parameters = result.parameters ∧ brief.scalars = result.scalars ∧
            (brief.series = result.series.map fun _ values => values.take horizon.toNat) ∧
            brief.status = result.status.upTo horizon ∧
            result.log.before horizon = brief.log ++ .ofDiagnostics
              (if horizon.toNat < result.status.committed engine.model.horizon then
                (recurrences (engine.replay result (horizon.toNat - 1))
                  (engine.model.equationsOf .recurrence)).2
              else []) ∧
            ∀ timestep, result.status = .halted timestep → timestep < horizon →
              brief.status = result.status ∧ brief.log = result.log := by
  obtain ⟨short, created, shortens, horizon_eq⟩ := engine.exists_shortens positive earlier
  refine ⟨short, created, ?_⟩
  intro parameters seed index
  refine ⟨shortens.alike.run_eq_error_iff parameters seed index, ?_⟩
  intro checkpoint checkpoint' result brief ran ran'
  obtain ⟨scalars, marks, final, log, solved, executes, rfl, rfl, series_eq, log_eq⟩ :=
    exists_executes_of_run ran
  obtain ⟨scalars', marks', final', log', solved', executes', scalars_eq, parameters_eq,
    series_eq', log_eq'⟩ := exists_executes_of_run ran'
  rw [shortens.alike.solveScalars_eq, solved] at solved'
  obtain ⟨rfl, rfl⟩ := Prod.mk.inj (Except.ok.inj solved')
  have unhidden : engine.Unhidden
      (engine.environment result.parameters result.scalars).scalars :=
    unhidden_of_solveScalars solved
  rw [shortens.alike.environment_eq, shortens.alike.start_eq] at executes'
  have rests := executes.rests unhidden engine.rests_initial
  have rests' : short.Rests final' (brief.status.committed short.model.horizon) := by
    rw [← shortens.alike.start_eq] at executes'
    exact executes'.rests (shortens.alike.unhidden unhidden) short.rests_initial
  have within : engine.start.timestep < short.model.horizon.toNat := by
    rw [horizon_eq]
    exact UInt64.lt_iff_toNat_lt.mp positive
  obtain ⟨status_eq, values, before_eq, logs_eq⟩ :=
    shortens.begun unhidden executes executes' engine.rests_initial within
  have committed_le := executes'.committed_le
  rw [horizon_eq] at status_eq before_eq logs_eq
  refine ⟨parameters_eq, scalars_eq, ?_, status_eq, ?_, ?_⟩
  · rw [series_eq, series_eq']
    apply SimulationState.committedSeries_eq_take rests'.closed rests.closed
    · rw [rests'.names_eq, rests.names_eq, shortens.alike.variableNames_eq]
    · exact horizon_eq ▸ committed_le
    · intro name index inside
      exact values name (horizon_eq ▸ inside)
  · have marked := before_marks_of_solveScalars solved positive
    rw [log_eq, log_eq', Log.before_append, marked, before_eq, Log.append_assoc, overhang,
      recurrences, recurrences,
      recurrence_eq_of_samePast (engine.samePast_replay rests.closed series_eq (horizon.toNat - 1))]
  · intro timestep halted early
    rw [status_eq, log_eq, log_eq', logs_eq timestep halted early, halted, RunStatus.upTo,
      if_pos early]
    exact ⟨rfl, rfl⟩

theorem horizon_extends_echoing : ∃ short result brief,
    create (echoingModel.withHorizon 1) .empty .default = .ok short ∧
      echoingEngine.run .empty 0 none .uninterrupted = .ok result ∧
      short.run .empty 0 none .uninterrupted = .ok brief ∧ brief.status = .completed ∧
      (brief.series = result.series.map fun _ values => values.take 1) ∧
      result.log.before 1 = brief.log ++ .ofDiagnostics
        [.recurrenceFailed 0 "echo" (EvalError.timeOutOfRange "flag" (-1)).message] := by
  obtain ⟨result, ran, completed, recorded⟩ : ∃ result,
      echoingEngine.run .empty 0 none .uninterrupted = .ok result ∧
        result.status = .completed ∧
        (recurrences (echoingEngine.replay result 0)
          (echoingEngine.model.equationsOf .recurrence)).2 =
            [.recurrenceFailed 0 "echo" (EvalError.timeOutOfRange "flag" (-1)).message] :=
    ⟨_, rfl, rfl, rfl⟩
  obtain ⟨short, created, runs⟩ := horizon_extends echoingEngine (by decide : (0 : UInt64) < 1)
    (by decide)
  obtain ⟨fails_iff, agrees⟩ := runs .empty 0 none
  rcases ran' : short.run .empty 0 none .uninterrupted with error | brief
  · rw [(fails_iff error).mpr ran'] at ran
    cases ran
  · obtain ⟨_, _, series_eq, status_eq, before_eq, _⟩ := agrees _ _ result brief ran ran'
    rw [completed] at status_eq before_eq
    change result.log.before 1 =
      brief.log ++ .ofDiagnostics (recurrences (echoingEngine.replay result 0) _).2 at before_eq
    rw [recorded] at before_eq
    exact ⟨short, result, brief, created, ran, ran', status_eq, series_eq, before_eq⟩

end Engine

end EconModel
