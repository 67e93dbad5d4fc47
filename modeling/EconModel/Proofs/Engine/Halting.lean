import EconModel.Proofs.Engine.Progress

/-!
# Completion and halting

A run that is completed has a value for every timestep and no fatal violation.  A run that is halted
stops within the timestep of its only fatal violation: that violation is the last one, and nothing
that follows the constraints of a timestep is recorded there any more.
-/

namespace EconModel

/-- The records of a run that a fatal constraint has halted at a timestep. -/
structure Log.HaltsAt (log : Log) (timestep : UInt64) : Prop where
  /-- The last violation is fatal, and no other one is. -/
  violations : ∃ earlier last, log.violations = earlier ++ [last] ∧
    last.severity.isFatal = true ∧ last.timestep = timestep ∧
    ∀ violation ∈ earlier, violation.severity.isFatal = false
  events : ∀ event ∈ log.events, event.timestep < timestep
  firings : ∀ firing ∈ log.firings, firing.timestep < timestep
  /-- Failures of policies are earlier. -/
  policies : ∀ stamp policy reason,
    .policyFailed stamp policy reason ∈ log.diagnostics → stamp < timestep
  /-- Failures of recurrences are earlier. -/
  recurrences : ∀ stamp target reason,
    .recurrenceFailed stamp target reason ∈ log.diagnostics → stamp < timestep
  /-- Other diagnostics are not later. -/
  diagnostics : ∀ diagnostic ∈ log.diagnostics, diagnostic.timestep ≤ timestep

/-- A diagnostic is early enough if it is so wherever it belongs to the later part of a log. -/
theorem Log.timestep_lt_of_mem_append {earlier later : Log} {stamp timestep : UInt64}
    (belongs : earlier.BelongsTo stamp) (before : stamp < timestep) {diagnostic : Diagnostic}
    (later_lt : diagnostic ∈ later.diagnostics → diagnostic.timestep < timestep)
    (member : diagnostic ∈ (earlier ++ later).diagnostics) : diagnostic.timestep < timestep := by
  rcases List.mem_append.mp member with member | member
  · rw [belongs.diagnostics diagnostic member]
    exact before
  · exact later_lt member

/-- Records of earlier timesteps, none of them fatal, may come first. -/
theorem Log.HaltsAt.append {earlier later : Log} {stamp timestep : UInt64}
    (halts : later.HaltsAt timestep) (belongs : earlier.BelongsTo stamp)
    (before : stamp < timestep)
    (harmless : ∀ violation ∈ earlier.violations, violation.severity.isFatal = false) :
    (earlier ++ later).HaltsAt timestep where
  violations := by
    obtain ⟨others, last, violations_eq, fatal, timestep_eq, others_harmless⟩ := halts.violations
    refine ⟨earlier.violations ++ others, last, ?_, fatal, timestep_eq, ?_⟩
    · rw [violations_append, violations_eq, List.append_assoc]
    · exact List.forall_mem_append.mpr ⟨harmless, others_harmless⟩
  events := by
    rw [events_append, List.forall_mem_append]
    exact ⟨fun event member => belongs.events event member ▸ before, halts.events⟩
  firings := by
    rw [firings_append, List.forall_mem_append]
    exact ⟨fun firing member => belongs.firings firing member ▸ before, halts.firings⟩
  policies stamp' policy reason :=
    timestep_lt_of_mem_append belongs before (halts.policies stamp' policy reason)
  recurrences stamp' target reason :=
    timestep_lt_of_mem_append belongs before (halts.recurrences stamp' target reason)
  diagnostics := by
    rw [diagnostics_append, List.forall_mem_append]
    refine ⟨fun diagnostic member => ?_, halts.diagnostics⟩
    rw [belongs.diagnostics diagnostic member, UInt64.le_iff_toNat_le]
    exact Nat.le_of_lt (UInt64.lt_iff_toNat_lt.mp before)

/-- Marks from before the first timestep may come first. -/
theorem Log.HaltsAt.append_marks {log : Log} {marks : List Diagnostic} {timestep : UInt64}
    (halts : log.HaltsAt timestep)
    (marked : ∀ diagnostic ∈ marks, ∃ location, diagnostic = .divisionByZero 0 location) :
    (ofDiagnostics marks ++ log).HaltsAt timestep where
  violations := halts.violations
  events := halts.events
  firings := halts.firings
  policies stamp policy reason member :=
    halts.policies stamp policy reason ((mem_append_marks_iff marked (by nofun)).mp member)
  recurrences stamp target reason member :=
    halts.recurrences stamp target reason ((mem_append_marks_iff marked (by nofun)).mp member)
  diagnostics := by
    intro diagnostic member
    rcases List.mem_append.mp member with member | member
    · obtain ⟨location, rfl⟩ := marked _ member
      rw [UInt64.le_iff_toNat_le]
      exact Nat.zero_le _
    · exact halts.diagnostics diagnostic member

namespace Engine

variable {engine : Engine} {environment : Environment} {checkpoint : Checkpoint}
  {position : Position} {outcome : StepOutcome} {status : RunStatus} {final : SimulationState}
  {log : Log}

section Unhidden

variable (unhidden : engine.Unhidden environment.scalars)

include unhidden

/-- A timestep after which the run goes on has no fatal violation. -/
theorem Does.not_isFatal_of_mem (does : engine.Does environment checkpoint position outcome)
    (rests : engine.Rests position.state position.timestep) (proceeding : outcome.halted = false)
    {violation : Violation} (member : violation ∈ outcome.log.violations) :
    violation.severity.isFatal = false := by
  obtain ⟨done, failed, ends⟩ := exists_endsAt unhidden rests
  rw [← does.isFatal_eq] at proceeding
  rw [does.outcome_eq, violations_finish ends (openAt_opened rests position.next)] at member
  exact Context.not_isFatal_of_mem_check _ proceeding member

/-- A timestep at which the run is halted has a single fatal violation. -/
theorem Does.haltsAt (does : engine.Does environment checkpoint position outcome)
    (rests : engine.Rests position.state position.timestep) (halted : outcome.halted = true) :
    outcome.log.HaltsAt (UInt64.ofNat position.timestep) := by
  obtain ⟨done, failed, ends⟩ := exists_endsAt unhidden rests
  have opened_open := openAt_opened rests position.next
  have belongs := does.belongsTo unhidden rests
  rw [← does.isFatal_eq] at halted
  rw [does.outcome_eq] at belongs ⊢
  have violations_eq : (engine.finish environment position.timestep
      (engine.isLastAt position.timestep) (engine.openedAt position)).log.violations =
        (engine.reportAt environment position.timestep (engine.openedAt position)).violations :=
    violations_finish ends opened_open
  have passed_false {passed : Prop} (passes : (engine.reportAt environment position.timestep
      (engine.openedAt position)).isFatal = false) : passed := by
    rw [halted] at passes
    cases passes
  refine ⟨?_, ?_, ?_, ?_, ?_, ?_⟩
  · obtain ⟨earlier, last, report_eq, fatal, harmless⟩ :=
      Context.exists_last_of_isFatal_check _ halted
    refine ⟨earlier, last, violations_eq.trans report_eq, fatal, ?_, harmless⟩
    apply belongs.violations
    rw [violations_eq.trans report_eq]
    exact List.mem_append_right _ (List.mem_singleton_self last)
  · exact fun event member => passed_false (mem_events_finish_iff.mp member).1
  · exact fun firing member => passed_false (mem_firings_finish_iff.mp member).1
  · intro stamp policy reason member
    cases recorded_of_mem_finish ends opened_open member with
    | unresolved stuck => cases (mem_convergenceDiagnostics_iff.mp stuck).2
    | policy _ _ passes => exact passed_false passes
  · intro stamp target reason member
    cases recorded_of_mem_finish ends opened_open member with
    | unresolved stuck => cases (mem_convergenceDiagnostics_iff.mp stuck).2
    | recurrence passes _ _ _ => exact passed_false passes
  · intro diagnostic member
    rw [belongs.diagnostics diagnostic member]
    exact UInt64.le_refl _

namespace Executes

theorem not_isFatal_of_mem
    (executes : engine.Executes environment checkpoint position status final log)
    (rests : engine.Rests position.state position.timestep) (completed : status = .completed)
    {violation : Violation} (member : violation ∈ log.violations) :
    violation.severity.isFatal = false := by
  induction executes with
  | completed _ => exact (List.not_mem_nil member).elim
  | halted _ _ => cases completed
  | advanced does proceeding _ ih =>
      rcases List.mem_append.mp member with member | member
      · exact does.not_isFatal_of_mem unhidden rests proceeding member
      · exact ih (does.rests unhidden rests) completed member

theorem haltsAt (executes : engine.Executes environment checkpoint position status final log)
    (rests : engine.Rests position.state position.timestep) {timestep : UInt64}
    (halted : status = .halted timestep) :
    position.timestep ≤ timestep.toNat ∧ timestep < engine.model.horizon ∧
      log.HaltsAt timestep := by
  induction executes with
  | completed _ => cases halted
  | halted does stopped =>
      cases halted
      refine ⟨Nat.le_of_eq does.begins.toNat_stamp.symm, ?_, does.haltsAt unhidden rests stopped⟩
      rw [UInt64.lt_iff_toNat_lt, does.begins.toNat_stamp]
      exact does.begins.within
  | advanced does proceeding _ ih =>
      obtain ⟨later, within, halts⟩ := ih (does.rests unhidden rests) halted
      change _ + 1 ≤ _ at later
      refine ⟨by omega, within, ?_⟩
      apply halts.append (does.belongsTo unhidden rests)
      · rw [UInt64.lt_iff_toNat_lt, does.begins.toNat_stamp]
        omega
      · exact fun violation member =>
          does.not_isFatal_of_mem unhidden rests proceeding member

end Executes

end Unhidden

/-- A violated fatal constraint halts the run. -/
theorem Executes.status_eq_of_isFatal {start : Position}
    (executes : engine.Executes environment checkpoint start status final log)
    (path : Relation.ReflTransGen (engine.Advances environment checkpoint) start position)
    (begins : engine.Begins checkpoint position)
    (fatal : (engine.reportAt environment position.timestep (engine.openedAt position)).isFatal =
      true) :
    status = .halted (UInt64.ofNat position.timestep) := by
  obtain ⟨rest, executes_here⟩ := executes.of_path path
  cases executes_here with
  | completed timestep_eq =>
      have within := begins.within
      omega
  | halted _ _ => rfl
  | advanced does proceeding _ =>
      rw [← does.isFatal_eq, fatal] at proceeding
      cases proceeding

/-- The length of the series of a state between two timesteps. -/
theorem length_of_rests {timestep : Nat} {name : String} {values : List Value}
    (rests : engine.Rests final timestep) (found : final.committedSeries.get? name = some values) :
    values.length = timestep := by
  rw [SimulationState.get?_committedSeries rests.closed] at found
  obtain ⟨array, found_array, rfl⟩ := Option.map_eq_some_iff.mp found
  rw [Array.length_toList, rests.closed.size_eq found_array]

/-- A completed run has a value for every timestep and no fatal violation.  A run that is halted at
a timestep has its values up to that timestep, and its only fatal violation is the last one.  A
fatal constraint that is violated where a timestep has settled halts the run at that timestep. -/
theorem status_contract {parameters : Bindings Value} {seed : UInt64} {index : Option UInt64}
    {result : RunResult} (ran : engine.run parameters seed index checkpoint = .ok result) :
    (result.status = .completed →
      (∀ name values, result.series.get? name = some values →
        values.length = engine.model.horizon.toNat) ∧
      ∀ violation ∈ result.log.violations, violation.severity.isFatal = false) ∧
    (∀ timestep, result.status = .halted timestep →
      timestep < engine.model.horizon ∧
      (∀ name values, result.series.get? name = some values →
        values.length = timestep.toNat + 1) ∧
      result.log.HaltsAt timestep) ∧
    ∀ position,
      engine.Reaches (engine.environment parameters result.scalars) checkpoint position →
      ∀ constraint ∈ engine.model.constraints, constraint.severity = .fatal →
        ((engine.settledContext (engine.environment parameters result.scalars)
            position).evalBoolean constraint.condition).result = .ok false →
          result.status = .halted (UInt64.ofNat position.timestep) := by
  obtain ⟨scalars, marks, final, log, solved, executes, rfl, rfl, series_eq, log_eq⟩ :=
    exists_executes_of_run ran
  have unhidden : engine.Unhidden
      (engine.environment result.parameters result.scalars).scalars :=
    unhidden_of_solveScalars solved
  have rests := executes.rests unhidden engine.rests_initial
  rw [series_eq, log_eq]
  refine ⟨?_, ?_, ?_⟩
  · intro completed
    rw [completed] at rests
    refine ⟨fun name values found => length_of_rests rests found, ?_⟩
    intro violation member
    exact executes.not_isFatal_of_mem unhidden engine.rests_initial completed member
  · intro timestep halted
    rw [halted] at rests
    obtain ⟨_, within, halts⟩ := executes.haltsAt unhidden engine.rests_initial halted
    refine ⟨within, fun name values found => length_of_rests rests found, ?_⟩
    exact halts.append_marks fun diagnostic member => exists_mark_of_solveScalars solved member
  · intro position reaches constraint member fatal violated
    apply executes.status_eq_of_isFatal reaches.path reaches.begins
    exact Context.isFatal_check_of_mem _ member (by rw [fatal]; rfl) violated

/-- A model of a variable that flips and must not become false. -/
def flippingModel : Model :=
  { Model.blank "flipping" 3 with
    equations :=
      [⟨"flag", .initial, .boolean true, []⟩,
        ⟨"flag", .recurrence, .unary .not (.ident "flag"), []⟩]
    constraints := [⟨"upright", .ident "flag", .fatal, none⟩] }

def flippingEngine : Engine := .plain flippingModel rfl

theorem status_contract_flipping :
    ∃ result, flippingEngine.run .empty 0 none .uninterrupted = .ok result ∧
      result.status = .halted 1 ∧ result.log.HaltsAt 1 ∧
      ∀ name values, result.series.get? name = some values → values.length = 2 := by
  obtain ⟨result, ran, scalars_eq⟩ : ∃ result,
      flippingEngine.run .empty 0 none .uninterrupted = .ok result ∧ result.scalars = .empty :=
    ⟨_, rfl, rfl⟩
  obtain ⟨outcome, does, proceeding, violated⟩ : ∃ outcome,
      flippingEngine.Does (flippingEngine.environment .empty .empty) .uninterrupted
          flippingEngine.start outcome ∧
        outcome.halted = false ∧
        ((flippingEngine.settledContext (flippingEngine.environment .empty .empty)
          ⟨1, outcome.state, outcome.next⟩).evalBoolean (.ident "flag")).result = .ok false :=
    ⟨_, ⟨⟨by decide, rfl⟩, rfl⟩, rfl, rfl⟩
  obtain ⟨_, of_halted, of_violated⟩ := status_contract ran
  rw [scalars_eq] at of_violated
  have halted : result.status = .halted 1 :=
    of_violated ⟨1, outcome.state, outcome.next⟩
      ⟨.single ⟨outcome, does, proceeding, rfl⟩, (by decide : 1 < 3), rfl⟩
      ⟨"upright", .ident "flag", .fatal, none⟩ (.head _) rfl violated
  obtain ⟨_, lengths, halts⟩ := of_halted 1 halted
  exact ⟨result, ran, halted, halts, lengths⟩

end Engine

end EconModel
