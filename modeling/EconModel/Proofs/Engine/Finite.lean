import EconModel.Proofs.Evaluation.Finite
import EconModel.Proofs.ZeroDivision.Run

/-!
# Finite numbers in results

Parameters may be infinite or undefined, and functions may yield such numbers.  Still no result has
one: scalars, slots, arguments of events and the sides of missed comparisons are checked before they
are kept, and opening a timestep only carries on what has been kept.
-/

namespace EconModel

namespace SimulationState

/-- Every number in the series is finite. -/
def AllFinite (state : SimulationState) : Prop :=
  ∀ name values, state.series.get? name = some values → ∀ value ∈ values, value.IsFinite

variable {state : SimulationState}

theorem allFinite_initial (names : List String) : (initial names).AllFinite := by
  intro name values found
  have member := Bindings.mem_of_get?_ofList found
  obtain ⟨_, _, pair_eq⟩ := List.mem_map.mp member
  cases pair_eq
  simp

theorem AllFinite.openNext (finite : state.AllFinite) {seed : String → Option Value → Value}
    (seed_finite : ∀ name previous, (∀ value, previous = some value → value.IsFinite) →
      (seed name previous).IsFinite) : (state.openNext seed).AllFinite := by
  intro name values found value member
  rw [SimulationState.openNext, Bindings.get?_map] at found
  obtain ⟨before, found_before, values_eq⟩ := Option.map_eq_some_iff.mp found
  rw [← values_eq, Array.mem_push] at member
  rcases member with member | rfl
  · exact finite name before found_before value member
  · refine seed_finite name before.back? fun last last_eq => ?_
    exact finite name before found_before last (Array.mem_of_back? last_eq)

theorem AllFinite.setCurrent (finite : state.AllFinite) {next : SimulationState} {name : String}
    {value : Value} (value_finite : value.IsFinite)
    (written : state.setCurrent name value = .ok next) : next.AllFinite := by
  obtain ⟨values, found, _, rfl⟩ := setCurrent_eq_ok_iff.mp written
  intro other others found_others other_value member
  rw [Bindings.get?_insert] at found_others
  split at found_others
  · cases found_others
    unfold overwriteLast at member
    split at member
    · exact finite name values found other_value member
    · rcases Array.mem_push.mp member with member | rfl
      · rw [← Array.mem_toList_iff, Array.toList_pop] at member
        exact finite name values found other_value
          (Array.mem_toList_iff.mp (List.dropLast_subset _ member))
      · exact value_finite
  · exact finite other others found_others other_value member

theorem AllFinite.committedSeries (finite : state.AllFinite) {name : String} {values : List Value}
    (found : state.committedSeries.get? name = some values) :
    ∀ value ∈ values, value.IsFinite := by
  rw [SimulationState.committedSeries, Bindings.get?_map] at found
  obtain ⟨all, found_all, rfl⟩ := Option.map_eq_some_iff.mp found
  intro value member
  apply finite name all found_all
  split at member
  · exact Array.mem_toList_iff.mp (List.mem_of_mem_take member)
  · exact Array.mem_toList_iff.mp member

end SimulationState

/-- The numbers that a log holds as numbers are finite. -/
structure Log.AllFinite (log : Log) : Prop where
  /-- The arguments of the events. -/
  events : ∀ event ∈ log.events, event.arguments.AllFinite
  /-- The sides of the missed comparisons. -/
  violations : ∀ violation ∈ log.violations, ∀ x, violation.shortfall.actual = some x ∨
    violation.shortfall.expected = some x → x.isFinite = true

namespace Log.AllFinite

theorem of_diagnostics (diagnostics : List Diagnostic) :
    AllFinite (.ofDiagnostics diagnostics) where
  events _ member := (List.not_mem_nil member).elim
  violations _ member := (List.not_mem_nil member).elim

theorem append {earlier later : Log} (first : earlier.AllFinite) (second : later.AllFinite) :
    (earlier ++ later).AllFinite where
  events event member := by
    rcases List.mem_append.mp member with member | member
    · exact first.events event member
    · exact second.events event member
  violations violation member := by
    rcases List.mem_append.mp member with member | member
    · exact first.violations violation member
    · exact second.violations violation member

end Log.AllFinite

namespace PolicySetting

/-- Policies keep the numbers in the series finite, and emit finite numbers only. -/
theorem allFinite_run (setting : PolicySetting) (policies : List Policy) {state : SimulationState}
    (finite : state.AllFinite) :
    (setting.run policies state).state.AllFinite ∧ (setting.run policies state).log.AllFinite := by
  have kept : Kept setting policies fun effect =>
      effect.state.AllFinite ∧ effect.log.AllFinite := {
    mark := fun _ _ start => ⟨start.1, start.2.events, start.2.violations⟩
    failed := fun _ _ start => ⟨start.1, start.2.events, start.2.violations⟩
    fire := fun _ start => ⟨start.1, start.2.events, start.2.violations⟩
    emit := by
      intro effect policy name arguments values _ _ _ found start
      refine ⟨start.1, fun event member => ?_, start.2.violations⟩
      rcases List.mem_append.mp member with earlier | new
      · exact start.2.events event earlier
      · rw [List.mem_singleton.mp new]
        exact Context.allFinite_of_evalArguments found
    write := by
      intro effect policy target expr value state _ _ _ found written start
      exact ⟨start.1.setCurrent (Context.isFinite_of_evalFinite found) written, start.2⟩ }
  exact run_kept kept ⟨finite, .of_diagnostics []⟩

end PolicySetting

namespace Engine

variable {engine : Engine}

/-! ## Scalars -/

theorem allFinite_scalars {parameters scalars : Bindings Value} {diagnostics : List Diagnostic}
    (solved : engine.solveScalars parameters = .ok (scalars, diagnostics)) :
    scalars.AllFinite := by
  obtain ⟨_, result_eq⟩ := solveScalars_eq_ok_iff.mp solved
  have stays : Solver.Stays (engine.scalarStep parameters) (engine.model.equationsOf .scalar)
      fun entry => entry.1.AllFinite := by
    rw [scalarStep_eq]
    refine Solver.stays_storing fun equation _ scalars next value finite found written => ?_
    cases written
    exact finite.insert (Context.isFinite_of_evalFinite found) equation.target
  have finite := stays.solve (engine.startingLimit (engine.model.equationsOf .scalar))
    (show Bindings.AllFinite (Bindings.empty, ([] : List Diagnostic)).1 from .empty)
  change (engine.resolveScalars parameters).2.1.AllFinite at finite
  rwa [result_eq] at finite

/-! ## Timesteps -/

theorem allFinite_opened {state : SimulationState} (finite : state.AllFinite) (timestep : Nat)
    {next : Bindings Value} (next_finite : next.AllFinite) :
    (engine.opened timestep state next).AllFinite := by
  refine finite.openNext fun name previous previous_finite => ?_
  unfold seed
  split
  · trivial
  · cases found : next.get? name with
    | some value => exact next_finite name value found
    | none =>
        cases previous with
        | none => trivial
        | some value => exact previous_finite value rfl

variable {environment : Environment} {timestep : Nat} {before : SimulationState}

theorem allFinite_settledAt (finite : before.AllFinite) :
    (engine.settledAt environment timestep before).AllFinite := by
  have stays : Solver.Stays (equationStep environment timestep) (engine.pendingAt timestep)
      fun entry => entry.1.AllFinite := by
    rw [equationStep_eq]
    refine Solver.stays_storing fun equation _ state next value finite found written => ?_
    exact finite.setCurrent (Context.isFinite_of_evalFinite found) written
  exact stays.solve (engine.limitAt timestep)
    (show SimulationState.AllFinite (before, ([] : List Diagnostic)).1 from finite)

theorem allFinite_recurrences (context : Context) (equations : List Equation) :
    (recurrences context equations).1.AllFinite := by
  refine .ofList fun pair member => ?_
  simp only [List.map_map, List.mem_map] at member
  obtain ⟨equation, _, rfl⟩ := member
  change (recurrence context equation).1.IsFinite
  cases evaluated : (context.evalFinite equation.expr).result with
  | ok value =>
      rw [recurrence_of_ok evaluated]
      exact Context.isFinite_of_evalFinite evaluated
  | error error =>
      rw [recurrence_of_error evaluated]
      trivial

theorem allFinite_settledLog : (engine.settledLog environment timestep before).AllFinite := by
  refine (Log.AllFinite.of_diagnostics _).append ⟨?_, ?_⟩
  · exact fun _ member => (List.not_mem_nil member).elim
  · intro violation member x found
    obtain ⟨constraint, _, rfl, _⟩ := Context.exists_of_mem_check _ member
    exact Context.isFinite_of_shortfall found

/-- A timestep keeps the numbers in the series finite, whatever the functions yield. -/
theorem allFinite_finish (isLast : Bool) (finite : before.AllFinite) :
    (engine.finish environment timestep isLast before).state.AllFinite ∧
      (engine.finish environment timestep isLast before).next.AllFinite ∧
      (engine.finish environment timestep isLast before).log.AllFinite := by
  have settled_finite : (engine.settledAt environment timestep before).AllFinite :=
    allFinite_settledAt finite
  obtain ⟨effect_finite, records_finite⟩ :=
    (engine.policySetting environment timestep).allFinite_run engine.model.policies settled_finite
  unfold finish
  split
  · exact ⟨settled_finite, .empty, allFinite_settledLog⟩
  · refine ⟨effect_finite, ?_, ?_⟩
    · unfold recurrencesAt
      split
      · exact .empty
      · exact allFinite_recurrences _ _
    · exact (allFinite_settledLog.append records_finite).append (.of_diagnostics _)

section Course

variable {checkpoint : Checkpoint} {position : Position}

theorem Does.allFinite {outcome : StepOutcome}
    (does : engine.Does environment checkpoint position outcome)
    (finite : position.state.AllFinite) (next_finite : position.next.AllFinite) :
    outcome.state.AllFinite ∧ outcome.next.AllFinite ∧ outcome.log.AllFinite := by
  rw [does.outcome_eq]
  exact allFinite_finish _ (allFinite_opened finite position.timestep next_finite)

theorem Executes.allFinite {status : RunStatus} {final : SimulationState} {log : Log}
    (executes : engine.Executes environment checkpoint position status final log)
    (finite : position.state.AllFinite) (next_finite : position.next.AllFinite) :
    final.AllFinite ∧ log.AllFinite := by
  induction executes with
  | completed _ => exact ⟨finite, .of_diagnostics []⟩
  | halted does _ =>
      obtain ⟨state_finite, _, log_finite⟩ := does.allFinite finite next_finite
      exact ⟨state_finite, log_finite⟩
  | advanced does _ _ ih =>
      obtain ⟨state_finite, outcome_next_finite, log_finite⟩ := does.allFinite finite next_finite
      obtain ⟨final_finite, later_finite⟩ := ih state_finite outcome_next_finite
      exact ⟨final_finite, log_finite.append later_finite⟩

end Course

/-! ## Runs -/

/-- What functions yield where a number is not finite does not matter. -/
theorem run_eq_of_agree {other : Engine} (model_eq : other.model = engine.model)
    (config_eq : other.config = engine.config)
    (agree : ∀ function values, (∀ value ∈ values, value.IsFinite) →
      other.functions.call function values = engine.functions.call function values)
    (parameters : Bindings Value) (seed : UInt64) (index : Option UInt64)
    (checkpoint : Checkpoint) :
    other.run parameters seed index checkpoint = engine.run parameters seed index checkpoint := by
  have treats : Treats .warn engine other := {
    model_eq
    passLimit_eq := by rw [config_eq]
    blockLimit_eq := by rw [config_eq]
    environment := by
      intro parameters scalars timestep state
      refine ⟨rfl, fun expr => ?_⟩
      have context_eq : (other.environment parameters scalars).view timestep state =
          ((engine.environment parameters scalars).view timestep state).withFunctions
            other.functions := by
        rw [environment, config_eq]
        rfl
      rw [context_eq]
      exact Context.eval_withFunctions other.functions expr fun function values calls =>
        agree function values calls.isFinite }
  rcases treats.run parameters seed index checkpoint with forbidden | alike
  · cases forbidden.1
  · generalize engine.run parameters seed index checkpoint = first at alike ⊢
    generalize other.run parameters seed index checkpoint = second at alike ⊢
    cases alike with
    | failed error => rfl
    | succeeded follows => rw [follows.eq]

/-- Numbers that are infinite or undefined are contained.  Whatever parameters and functions yield,
the numbers in a result are finite, functions are called with finite numbers, and what they would
yield for other ones does not change the run. -/
theorem nonfinite_contained {parameters : Bindings Value} {seed : UInt64}
    {index : Option UInt64} {checkpoint : Checkpoint} {result : RunResult}
    (ran : engine.run parameters seed index checkpoint = .ok result) :
    result.scalars.AllFinite ∧
      (∀ name values, result.series.get? name = some values → ∀ value ∈ values, value.IsFinite) ∧
      (∀ event ∈ result.log.events, event.arguments.AllFinite) ∧
      (∀ violation ∈ result.log.violations, ∀ x, violation.shortfall.actual = some x ∨
        violation.shortfall.expected = some x → x.isFinite = true) ∧
      (∀ (context : Context) expr function values, context.Calls expr function values →
        ∀ value ∈ values, value.IsFinite) ∧
      ∀ other : Engine, other.model = engine.model → other.config = engine.config →
        (∀ function values, (∀ value ∈ values, value.IsFinite) →
          other.functions.call function values = engine.functions.call function values) →
        other.run parameters seed index checkpoint = .ok result := by
  obtain ⟨scalars, diagnostics, final, log, solved, executes, scalars_eq, _, series_eq, log_eq⟩ :=
    exists_executes_of_run ran
  obtain ⟨final_finite, records_finite⟩ :=
    executes.allFinite (SimulationState.allFinite_initial _) .empty
  have log_finite : result.log.AllFinite := by
    rw [log_eq]
    exact (Log.AllFinite.of_diagnostics diagnostics).append records_finite
  refine ⟨?_, ?_, log_finite.events, log_finite.violations, ?_, ?_⟩
  · rw [scalars_eq]
    exact allFinite_scalars solved
  · intro name values found
    rw [series_eq] at found
    exact final_finite.committedSeries found
  · exact fun context expr function values calls => calls.isFinite
  · intro other model_eq config_eq agree
    rw [run_eq_of_agree model_eq config_eq agree, ran]

/-- One function, which yields an infinite number. -/
def wildFunctions : FunctionRegistry where
  contains name := name == "wild"
  call _ _ := .ok (.number (1.0 / 0.0))

/-- A model that compares an infinite number, fails to store it, and reports what it has stored. -/
def wildModel : Model :=
  { Model.blank "wild" 1 with
    equations :=
      [⟨"level", .current, .conditional (.binary .gt (.call "wild" []) (.number 1.0))
          (.number 2.0) (.number 3.0), []⟩,
        ⟨"raw", .current, .call "wild" [], []⟩]
    constraints := [⟨"low", .binary .lt (.ident "level") (.number 1.0), .warning, none⟩]
    policies := [⟨"report", .boolean true,
      .emit "seen" (Bindings.empty.insert "level" (.ident "level"))⟩] }

def wildEngine : Engine := .ofValid wildModel wildFunctions .default validate_default rfl

theorem nonfinite_contained_wild : ∃ result,
    wildEngine.run .empty 7 none .uninterrupted = .ok result ∧
      result.series? "level" = some [.number 2.0] ∧ result.series? "raw" = some [.undefined] ∧
      (∀ event ∈ result.log.events, event.arguments.AllFinite) ∧
      ∀ violation ∈ result.log.violations, ∀ x, violation.shortfall.actual = some x ∨
        violation.shortfall.expected = some x → x.isFinite = true := by
  have ran : ∃ result, wildEngine.run .empty 7 none .uninterrupted = .ok result ∧
      result.series? "level" = some [.number 2.0] ∧ result.series? "raw" = some [.undefined] :=
    ⟨_, rfl, rfl, rfl⟩
  obtain ⟨result, ran, level_eq, raw_eq⟩ := ran
  obtain ⟨_, _, events, violations, _⟩ := nonfinite_contained ran
  exact ⟨result, ran, level_eq, raw_eq, events, violations⟩

end Engine

end EconModel
