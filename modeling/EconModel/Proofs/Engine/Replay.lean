import EconModel.Proofs.Engine.Undefined

/-!
# Replaying the recurrences of a result

The recurrences of a timestep are evaluated against a state that is still being built.  Since a
committed slot is never written again and an expression reads nothing later than its timestep, the
final series give the same values: a result alone is enough to compute every recurrence again.
-/

namespace EconModel

namespace RunResult

/-- The state that the series of a result make up. -/
def finalState (result : RunResult) : SimulationState where
  series := result.series.map fun _ values => values.toArray
  committed := result.timesteps
  isOpen := false

theorem finalState_series_sameMap {result : RunResult} {final : SimulationState} {timestep : Nat}
    (closed : final.ClosedAt timestep) (series_eq : result.series = final.committedSeries) :
    final.series.SameMap result.finalState.series := by
  intro name
  rw [finalState, Bindings.get?_map, series_eq, SimulationState.get?_committedSeries closed]
  cases final.series.get? name <;> rfl

end RunResult

namespace Engine

/-- What expressions are evaluated against when a timestep of a result is replayed. -/
def replay (engine : Engine) (result : RunResult) (timestep : Nat) : Context :=
  (engine.environment result.parameters result.scalars).view timestep result.finalState

theorem samePast_replay (engine : Engine) {result : RunResult} {final : SimulationState}
    {length : Nat} (closed : final.ClosedAt length)
    (series_eq : result.series = final.committedSeries) (timestep : Nat) :
    ((engine.environment result.parameters result.scalars).view timestep final).SamePast
      (engine.replay result timestep) :=
  (Context.SameReading.of_environment ⟨.refl _, .refl _, rfl, rfl⟩
    (RunResult.finalState_series_sameMap closed series_eq) timestep).samePast

theorem fst_recurrence (context : Context) (equation : Equation) :
    (recurrence context equation).1 =
      (context.evalFinite equation.expr).result.toOption.getD .undefined := by
  cases evaluated : (context.evalFinite equation.expr).result with
  | ok value =>
      rw [recurrence_of_ok evaluated]
      rfl
  | error error =>
      rw [recurrence_of_error evaluated]
      rfl

variable {engine : Engine} {environment : Environment} {checkpoint : Checkpoint}
  {position : Position} {outcome : StepOutcome} {status : RunStatus} {final : SimulationState}
  {later : Log}

section Replayed

variable (unhidden : engine.Unhidden environment.scalars)
  (does : engine.Does environment checkpoint position outcome)
  (rests : engine.Rests position.state position.timestep) (proceeding : outcome.halted = false)
  (executes : engine.Executes environment checkpoint
    ⟨position.timestep + 1, outcome.state, outcome.next⟩ status final later)

include unhidden does rests proceeding executes

/-- What the policies of a timestep have left is what the run keeps up to this timestep. -/
theorem samePast_final :
    (environment.view position.timestep
        (engine.effectAt environment position.timestep (engine.openedAt position)).state).SamePast
      (environment.view position.timestep final) := by
  have state_eq := state_of_proceeding does proceeding
  have rests_after := does.rests unhidden rests
  have names_eq : outcome.state.series.names = final.series.names :=
    rests_after.names_eq.trans (executes.rests unhidden rests_after).names_eq.symm
  rw [state_eq] at names_eq
  refine ⟨rfl, ⟨.refl _, .refl _, rfl, rfl⟩, ?_, ?_⟩
  · intro name
    rw [Bool.eq_iff_iff, SimulationState.hasVariable_iff, SimulationState.hasVariable_iff]
    exact Iff.of_eq (congrArg (name ∈ ·) names_eq)
  · intro name index within
    have kept := executes.valueAt?_eq unhidden rests_after name (Nat.lt_succ_of_le within)
    change final.valueAt? name index = outcome.state.valueAt? name index at kept
    change _ = final.valueAt? name index
    rw [kept, state_eq]
    rfl

theorem recurrence_final :
    recurrence (environment.view position.timestep
        (engine.effectAt environment position.timestep (engine.openedAt position)).state) =
      recurrence (environment.view position.timestep final) :=
  recurrence_eq_of_samePast (samePast_final unhidden does rests proceeding executes)

theorem recurrences_final (equations : List Equation) :
    recurrences (environment.view position.timestep
        (engine.effectAt environment position.timestep (engine.openedAt position)).state)
        equations =
      recurrences (environment.view position.timestep final) equations := by
  rw [recurrences, recurrences, recurrence_final unhidden does rests proceeding executes]

end Replayed

/-- A timestep after the first one is prepared by the one before. -/
theorem exists_before {timestep : Nat}
    (path : Relation.ReflTransGen (engine.Advances environment checkpoint) engine.start position)
    (timestep_eq : position.timestep = timestep + 1) :
    ∃ earlier before,
      Relation.ReflTransGen (engine.Advances environment checkpoint) engine.start earlier ∧
      engine.Does environment checkpoint earlier before ∧ before.halted = false ∧
      earlier.timestep = timestep ∧ position = ⟨earlier.timestep + 1, before.state, before.next⟩ := by
  cases path with
  | refl => cases timestep_eq
  | @tail earlier _ path advances =>
      obtain ⟨before, does, proceeding, rfl⟩ := advances
      exact ⟨earlier, before, path, does, proceeding, Nat.succ.inj timestep_eq, rfl⟩

/-- The value of a variable without a current equation, where no policy assigns to it: the value of
its recurrence on the final series, or else the value before. -/
theorem valueAt?_replayed {log : Log} (unhidden : engine.Unhidden environment.scalars)
    (executes : engine.Executes environment checkpoint engine.start status final log)
    {name : String} (declared : name ∈ engine.model.variableNames)
    (not_current : engine.model.hasEquation name .current = false) {timestep : Nat}
    (committed : timestep + 1 < status.committed engine.model.horizon)
    (unassigned : ¬ engine.FiredAssignment log (timestep + 1) name) :
    (∀ equation ∈ engine.model.equationsOf .recurrence, equation.target = name →
      final.valueAt? name (timestep + 1) =
        some (recurrence (environment.view timestep final) equation).1) ∧
    (engine.model.hasEquation name .recurrence = false →
      final.valueAt? name (timestep + 1) = final.valueAt? name timestep) := by
  obtain ⟨position, outcome, stage, timestep_eq⟩ := exists_stage_at unhidden executes committed
  obtain ⟨earlier, before, path, does, proceeding, rfl, rfl⟩ :=
    exists_before stage.path timestep_eq
  obtain ⟨rest, executes_after⟩ := executes.of_path stage.path
  have rests := rests_of_path unhidden path
  have rests_after := rests_of_path unhidden stage.path
  have value_eq : final.valueAt? name (earlier.timestep + 1) = some ((before.next.get? name).getD
      ((before.state.valueAt? name earlier.timestep).getD .undefined)) := by
    rw [← valueAt?_settled_of_not_current unhidden rests_after declared not_current,
      stage.valueAt?_eq name]
    rcases slot_cases unhidden stage.does rests_after name with unchanged | ⟨assigned, _⟩
    · exact unchanged
    · exact (unassigned (stage.firedAssignment assigned)).elim
  have within : earlier.timestep + 1 < engine.model.horizon.toNat := stage.does.begins.within
  rw [value_eq]
  constructor
  · intro equation member target_eq
    have isLast_eq : engine.isLastAt earlier.timestep = false := by
      rw [isLastAt, beq_eq_false_iff_ne]
      omega
    have given : before.next.get? name =
        some (recurrence (environment.view earlier.timestep final) equation).1 := by
      rw [next_eq does proceeding, recurrencesAt, isLast_eq]
      refine (get?_recurrences engine _ _ _).mpr ⟨equation, member, target_eq, ?_⟩
      rw [recurrence_final unhidden does rests proceeding executes_after]
    rw [given, Option.getD_some]
  · intro not_given
    have absent : before.next.get? name = none := by
      rw [← Option.not_isSome_iff_eq_none, Option.isSome_iff_exists,
        exists_next_iff does proceeding within, not_given]
      exact Bool.false_ne_true
    obtain ⟨value, found⟩ := exists_valueAt? rests_after declared
    have kept : final.valueAt? name earlier.timestep =
        before.state.valueAt? name earlier.timestep :=
      executes_after.valueAt?_eq unhidden rests_after name (Nat.lt_succ_self _)
    rw [absent, Option.getD_none, found, Option.getD_some, kept, found]

/-- The series of a successful run replay its recurrences.  Take a variable without a current
equation, and a timestep after the first one at which no policy that fired assigns to it.  If the
variable has a recurrence, it holds what the recurrence evaluates to on the final series one
timestep earlier, or is undefined where that fails; if it has none, it holds its value of one
timestep earlier. -/
theorem series_replays {parameters : Bindings Value} {seed : UInt64} {index : Option UInt64}
    {result : RunResult} (ran : engine.run parameters seed index checkpoint = .ok result)
    {name : String} (declared : name ∈ engine.model.variableNames)
    (not_current : engine.model.hasEquation name .current = false) :
    ∃ values, result.series.get? name = some values ∧
      values.length = result.status.committed engine.model.horizon ∧
      ∀ timestep, timestep + 1 < values.length →
        ¬ engine.FiredAssignment result.log (timestep + 1) name →
          (∀ equation ∈ engine.model.equationsOf .recurrence, equation.target = name →
            values[timestep + 1]? =
              some (((engine.replay result timestep).evalFinite
                equation.expr).result.toOption.getD .undefined)) ∧
          (engine.model.hasEquation name .recurrence = false →
            values[timestep + 1]? = values[timestep]?) := by
  obtain ⟨scalars, marks, final, log, solved, executes, rfl, rfl, series_eq, log_eq⟩ :=
    exists_executes_of_run ran
  have unhidden : engine.Unhidden
      (engine.environment result.parameters result.scalars).scalars :=
    unhidden_of_solveScalars solved
  have rests := executes.rests unhidden engine.rests_initial
  have series_mem : name ∈ final.series.names := rests.names_eq ▸ declared
  obtain ⟨values, found⟩ := (Bindings.mem_names_iff _ _).mp series_mem
  have getElem?_eq (timestep : Nat) : values.toList[timestep]? = final.valueAt? name timestep := by
    rw [SimulationState.valueAt?, found, Option.bind_some, Array.getElem?_toList]
  have length_eq : values.toList.length = result.status.committed engine.model.horizon := by
    rw [Array.length_toList, rests.closed.size_eq found]
  refine ⟨values.toList, ?_, length_eq, ?_⟩
  · rw [series_eq, SimulationState.get?_committedSeries rests.closed, found, Option.map_some]
  · intro timestep committed unassigned
    rw [length_eq] at committed
    rw [log_eq] at unassigned
    obtain ⟨given, kept⟩ := valueAt?_replayed unhidden executes declared not_current committed
      unassigned
    simp only [getElem?_eq]
    refine ⟨?_, kept⟩
    intro equation member target_eq
    rw [given equation member target_eq,
      recurrence_eq_of_samePast (engine.samePast_replay rests.closed series_eq timestep),
      fst_recurrence]

/-- A model of a variable that flips and of one that repeats its last value. -/
def echoingModel : Model :=
  { Model.blank "echoing" 3 with
    equations :=
      [⟨"flag", .initial, .boolean true, []⟩,
        ⟨"flag", .recurrence, .unary .not (.ident "flag"), []⟩,
        ⟨"echo", .initial, .boolean false, []⟩, ⟨"echo", .recurrence, .lagged "flag" 1, []⟩] }

def echoingEngine : Engine := .plain echoingModel rfl

theorem series_replays_echoing : ∃ result values,
    echoingEngine.run .empty 0 none .uninterrupted = .ok result ∧
      result.series.get? "echo" = some values ∧ values[1]? = some .undefined ∧
      values[2]? = some (.boolean true) := by
  obtain ⟨result, ran, firings_eq, completed, first, second⟩ : ∃ result,
      echoingEngine.run .empty 0 none .uninterrupted = .ok result ∧ result.log.firings = [] ∧
        result.status = .completed ∧
        ((echoingEngine.replay result 0).evalFinite (.lagged "flag" 1)).result =
          .error (.timeOutOfRange "flag" (-1)) ∧
        ((echoingEngine.replay result 1).evalFinite (.lagged "flag" 1)).result =
          .ok (.boolean true) :=
    ⟨_, rfl, rfl, rfl, rfl, rfl⟩
  obtain ⟨values, found, length_eq, replays⟩ :=
    series_replays ran (by decide : "echo" ∈ echoingEngine.model.variableNames) rfl
  have unassigned (timestep : Nat) :
      ¬ echoingEngine.FiredAssignment result.log timestep "echo" := by
    rintro ⟨_, _, ⟨firing, fired, _⟩, _⟩
    rw [firings_eq] at fired
    exact List.not_mem_nil fired
  rw [completed] at length_eq
  change values.length = 3 at length_eq
  have echo_mem : (⟨"echo", .recurrence, .lagged "flag" 1, []⟩ : Equation) ∈
      echoingEngine.model.equationsOf .recurrence := .tail _ (.head _)
  have first_eq := (replays 0 (by omega) (unassigned 1)).1 _ echo_mem rfl
  have second_eq := (replays 1 (by omega) (unassigned 2)).1 _ echo_mem rfl
  rw [first] at first_eq
  rw [second] at second_eq
  exact ⟨result, values, ran, found, first_eq, second_eq⟩

end Engine

end EconModel
