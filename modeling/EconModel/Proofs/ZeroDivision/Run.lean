import EconModel.Proofs.Engine.Progress
import EconModel.Proofs.ZeroDivision.Timestep

/-!
# Runs under treatments of zero divisors

Marking zero divisors only adds records: without them a run is the one in which zero divisors are
replaced silently.  And where a run records none, zero divisors could as well be failures.  Both are
cases of one comparison of two runs, timestep by timestep.  What a run records is also known if it
fails, since a mark can stand before the failure.
-/

namespace EconModel

namespace Engine

/-! ## What is recorded -/

/-- The diagnostics that a timestep records.  One that fails has recorded the marks of its
equations. -/
def stepRecorded (engine : Engine) (environment : Environment) (timestep : Nat) (isLast : Bool)
    (state : SimulationState) (next : Bindings Value) : List Diagnostic :=
  match engine.step environment timestep isLast state next with
  | .ok outcome => outcome.log.diagnostics
  | .error _ =>
      (engine.resolveAt environment timestep (engine.opened timestep state next)).2.2

/-- The diagnostics that the last `remaining` timesteps of a run record. -/
def stepsRecorded (engine : Engine) (environment : Environment) (checkpoint : Checkpoint) :
    (remaining : Nat) → (timestep : Nat) → SimulationState → Bindings Value → List Diagnostic
  | 0, _, _, _ => []
  | remaining + 1, timestep, state, next =>
      match checkpoint timestep with
      | some _ => []
      | none =>
          engine.stepRecorded environment timestep (remaining == 0) state next ++
            match engine.step environment timestep (remaining == 0) state next with
            | .error _ => []
            | .ok outcome =>
                if outcome.halted then []
                else
                  stepsRecorded engine environment checkpoint remaining (timestep + 1)
                    outcome.state outcome.next

/-- The diagnostics that a run records, whether it succeeds or not. -/
def recorded (engine : Engine) (parameters : Bindings Value) (checkpoint : Checkpoint) :
    List Diagnostic :=
  match engine.solveScalars parameters with
  | .error _ => (engine.resolveScalars parameters).2.2
  | .ok (scalars, diagnostics) =>
      diagnostics ++
        engine.stepsRecorded (engine.environment parameters scalars) checkpoint
          engine.model.horizon.toNat 0 (.initial engine.model.variableNames) .empty

theorem stepsRecorded_of_steps {engine : Engine} {environment : Environment}
    {checkpoint : Checkpoint} {index : Option UInt64} {remaining timestep : Nat}
    {state final : SimulationState} {next : Bindings Value} {status : RunStatus} {log : Log}
    (ran : engine.steps environment index checkpoint remaining timestep state next =
      .ok (status, final, log)) :
    engine.stepsRecorded environment checkpoint remaining timestep state next =
      log.diagnostics := by
  induction remaining generalizing timestep state next log with
  | zero =>
      cases ran
      rfl
  | succ remaining ih =>
      rw [steps] at ran
      rw [stepsRecorded, stepRecorded]
      cases interrupted : checkpoint timestep with
      | some cause => simp [interrupted] at ran
      | none =>
          simp only [interrupted] at ran
          obtain ⟨outcome, stepped, ran⟩ := exists_of_bind_eq_ok ran
          simp only [stepped]
          split at ran
          · next halted =>
            cases ran
            rw [if_pos halted, List.append_nil]
          · next proceeding =>
            obtain ⟨⟨status', final', later⟩, continued, ran⟩ := exists_of_bind_eq_ok ran
            cases ran
            rw [if_neg proceeding, ih continued, Log.diagnostics_append]

/-- A successful run has the diagnostics that it records. -/
theorem recorded_of_run {engine : Engine} {parameters : Bindings Value} {seed : UInt64}
    {index : Option UInt64} {checkpoint : Checkpoint} {result : RunResult}
    (ran : engine.run parameters seed index checkpoint = .ok result) :
    engine.recorded parameters checkpoint = result.log.diagnostics := by
  obtain ⟨⟨scalars, diagnostics⟩, solved, ran⟩ := exists_of_bind_eq_ok ran
  obtain ⟨⟨status, final, log⟩, stepped, ran⟩ := exists_of_bind_eq_ok ran
  cases ran
  rw [recorded, solved]
  dsimp only
  rw [stepsRecorded_of_steps stepped]
  rfl

/-! ## Ends of two runs -/

/-- Both fail with the same error, or both succeed with related values. -/
inductive EndAlike {α : Type} (related : α → α → Prop) :
    Except EngineError α → Except EngineError α → Prop where
  | failed (error : EngineError) : EndAlike related (.error error) (.error error)
  | succeeded {left right : α} : related left right → EndAlike related (.ok left) (.ok right)

theorem EndAlike.bind {α β : Type} {related : α → α → Prop} {related' : β → β → Prop}
    {left right : Except EngineError α} {next next' : α → Except EngineError β}
    (alike : EndAlike related left right)
    (nexts : ∀ {value value' : α}, related value value' →
      EndAlike related' (next value) (next' value')) :
    EndAlike related' (left >>= next) (right >>= next') := by
  cases alike with
  | failed error => exact .failed error
  | succeeded values => exact nexts values

theorem EndAlike.map_eq {α β : Type} {related : α → α → Prop} {left right : Except EngineError α}
    {f g : α → β} (alike : EndAlike related left right)
    (values_eq : ∀ {value value' : α}, related value value' → f value = g value') :
    left.map f = right.map g := by
  cases alike with
  | failed error => rfl
  | succeeded values => exact congrArg Except.ok (values_eq values)

/-- What the timesteps of the right run come to is what a treatment makes of the left ones. -/
structure StepsFollow (treatment : ZeroDivision) (left right : RunStatus × SimulationState × Log) :
    Prop where
  status_eq : right.1 = left.1
  final_eq : right.2.1 = left.2.1
  log : Log.Follows treatment left.2.2 right.2.2

end Engine

/-- The right result is what a treatment makes of the left one. -/
structure RunResult.Follows (treatment : ZeroDivision) (left right : RunResult) : Prop where
  metadata_eq : right.metadata = left.metadata
  status_eq : right.status = left.status
  parameters_eq : right.parameters = left.parameters
  scalars_eq : right.scalars = left.scalars
  series_eq : right.series = left.series
  log : Log.Follows treatment left.log right.log

namespace RunResult.Follows

variable {treatment : ZeroDivision} {left right : RunResult}

/-- The results differ in their diagnostics at most. -/
theorem eq_with_diagnostics (follows : Follows treatment left right) :
    right = { left with log := { left.log with diagnostics := right.log.diagnostics } } := by
  obtain ⟨metadata, status, parameters, scalars, series, violations, events, firings,
    diagnostics⟩ := right
  obtain ⟨rfl, rfl, rfl, rfl, rfl, log⟩ := follows
  obtain ⟨rfl, rfl, rfl, _⟩ := log
  rfl

theorem eq_withoutDivisions (follows : Follows .zero left right) :
    right = left.withoutDivisions := by
  rw [follows.eq_with_diagnostics, follows.log.diagnostics.eq_filter]
  rfl

theorem eq (follows : Follows .warn left right) : right = left := by
  rw [follows.eq_with_diagnostics, follows.log.diagnostics.eq]

theorem withoutReasons_eq (follows : Follows .error left right) :
    right.withoutReasons = left.withoutReasons := by
  rw [follows.eq_with_diagnostics, withoutReasons, withoutReasons, follows.log.diagnostics.map_eq]

end RunResult.Follows

namespace Engine

namespace Treats

variable {treatment : ZeroDivision} {engine other : Engine}
  (treats : Treats treatment engine other)

include treats

theorem solveScalars (parameters : Bindings Value) :
    treatment.Forbids (engine.resolveScalars parameters).2.2 ∨
      EndAlike (fun left right => right.1 = left.1 ∧ Diagnostic.Follow treatment left.2 right.2)
        (engine.solveScalars parameters) (other.solveScalars parameters) := by
  rcases treats.resolveScalars parameters with forbidden | ⟨alike, scalars_eq, follow⟩
  · exact .inl forbidden
  · right
    rw [solveScalars_eq, solveScalars_eq, ← alike.isConverged_eq, ← alike.names_eq]
    split
    · exact .succeeded ⟨scalars_eq, follow⟩
    · exact .failed _

section Timesteps

variable {left right : Environment} (environments : Environment.Treats treatment left right)

include environments

/-- A timestep fails under both treatments or comes to the same, unless a mark is recorded that is
refused. -/
theorem step (timestep : Nat) (isLast : Bool) (state : SimulationState) (next : Bindings Value) :
    treatment.Forbids (engine.stepRecorded left timestep isLast state next) ∨
      EndAlike (StepOutcome.Follows treatment) (engine.step left timestep isLast state next)
        (other.step right timestep isLast state next) := by
  have resolved := treats.resolveAt environments timestep (engine.opened timestep state next)
  have finished := treats.finish environments timestep (engine.opened timestep state next) isLast
  rw [stepRecorded, step_eq, step_eq, treats.opened_eq]
  cases missing : engine.missingInitials timestep
      (engine.resolveAt left timestep (engine.opened timestep state next)).1 with
  | nil =>
      rcases resolved with forbidden | ⟨alike, _, _⟩
      · left
        have settled_forbidden : treatment.Forbids
            (engine.settledLog left timestep (engine.opened timestep state next)).diagnostics :=
          (forbidden.append_right _).append_right _
        exact settled_forbidden.mono settledLog_subset_finish
      · rw [treats.missingInitials_eq alike, missing]
        exact finished.imp_right .succeeded
  | cons target targets =>
      rcases resolved with forbidden | ⟨alike, _, _⟩
      · exact .inl forbidden
      · rw [treats.missingInitials_eq alike, missing]
        exact .inr (.failed _)

theorem steps (index : Option UInt64) (checkpoint : Checkpoint) (remaining timestep : Nat)
    (state : SimulationState) (next : Bindings Value) :
    treatment.Forbids (engine.stepsRecorded left checkpoint remaining timestep state next) ∨
      EndAlike (StepsFollow treatment)
        (engine.steps left index checkpoint remaining timestep state next)
        (other.steps right index checkpoint remaining timestep state next) := by
  induction remaining generalizing timestep state next with
  | zero => exact .inr (.succeeded ⟨rfl, rfl, .empty treatment⟩)
  | succ remaining ih =>
      rw [stepsRecorded, Engine.steps, Engine.steps]
      cases checkpoint timestep with
      | some cause => exact .inr (.failed _)
      | none =>
          dsimp only
          rcases treats.step environments timestep (remaining == 0) state next with
            forbidden | alike
          · exact .inl (forbidden.append_right _)
          · generalize engine.step left timestep (remaining == 0) state next = first at alike ⊢
            generalize other.step right timestep (remaining == 0) state next = second at alike ⊢
            cases alike with
            | failed error => exact .inr (.failed error)
            | @succeeded outcome outcome' follows =>
                change _ ∨ EndAlike _ (if outcome.halted = true then _ else _)
                  (if outcome'.halted = true then _ else _)
                rw [follows.halted_eq, follows.state_eq, follows.next_eq]
                dsimp only
                split
                · exact .inr (.succeeded ⟨rfl, rfl, follows.log⟩)
                · refine (ih (timestep + 1) outcome.state outcome.next).imp ?_ ?_
                  · exact fun forbidden => forbidden.append_left _
                  · intro continued
                    refine continued.bind fun later => .succeeded ?_
                    exact ⟨later.status_eq, later.final_eq, follows.log.append later.log⟩

end Timesteps

/-- Two runs under two treatments end alike, unless a mark is recorded that is refused. -/
theorem run (parameters : Bindings Value) (seed : UInt64) (index : Option UInt64)
    (checkpoint : Checkpoint) :
    treatment.Forbids (engine.recorded parameters checkpoint) ∨
      EndAlike (RunResult.Follows treatment) (engine.run parameters seed index checkpoint)
        (other.run parameters seed index checkpoint) := by
  have fingerprint_eq : other.fingerprint = engine.fingerprint := by
    rw [other.fingerprint_eq, engine.fingerprint_eq, treats.model_eq]
  have metadata_eq : other.metadata seed index = engine.metadata seed index := by
    rw [metadata, metadata, fingerprint_eq, treats.model_eq]
  rw [recorded, Engine.run, Engine.run, metadata_eq, treats.model_eq]
  have solved := treats.solveScalars parameters
  rcases found : engine.solveScalars parameters with error | ⟨scalars, diagnostics⟩
  · rw [found] at solved
    refine solved.imp_right fun alike => ?_
    generalize other.solveScalars parameters = second at alike ⊢
    cases alike with
    | failed error => exact .failed error
  · rcases solved with forbidden | alike
    · rw [(solveScalars_eq_ok_iff.mp found).2] at forbidden
      exact .inl (forbidden.append_right _)
    · rw [found] at alike
      generalize other.solveScalars parameters = second at alike ⊢
      cases alike with
      | @succeeded _ later scalars_follow =>
          obtain ⟨scalars', diagnostics'⟩ := later
          obtain ⟨scalars_eq, follow⟩ := scalars_follow
          obtain rfl : scalars' = scalars := scalars_eq
          refine (treats.steps (treats.environment parameters scalars') index checkpoint
            engine.model.horizon.toNat 0 (.initial engine.model.variableNames) .empty).imp ?_ ?_
          · exact fun forbidden => forbidden.append_left _
          · intro stepped
            refine stepped.bind fun follows => .succeeded ?_
            exact ⟨rfl, follows.status_eq, rfl, rfl,
              congrArg SimulationState.committedSeries follows.final_eq,
              (Log.Follows.of_diagnostics follow).append follows.log⟩

end Treats

/-! ## One engine under different treatments -/

/-- The engine with another treatment of zero divisors. -/
def treating (engine : Engine) (treatment : ZeroDivision) : Engine where
  model := engine.model
  functions := engine.functions
  config := { engine.config with zeroDivision := treatment }
  fingerprint := engine.fingerprint
  config_valid := engine.config_valid
  model_valid := engine.model_valid
  fingerprint_eq := engine.fingerprint_eq

theorem treats_treating (engine : Engine) (treatment : ZeroDivision) :
    Treats treatment (engine.treating .warn) (engine.treating treatment) where
  model_eq := rfl
  passLimit_eq := rfl
  blockLimit_eq := rfl
  environment parameters scalars timestep state :=
    .of_warn (engine.environment parameters scalars) treatment state timestep

/-- Where zero divisors are not marked, there are no marks to be dropped. -/
theorem treats_self {engine : Engine} (unmarked : engine.config.zeroDivision ≠ .warn) :
    Treats .zero engine engine where
  model_eq := rfl
  passLimit_eq := rfl
  blockLimit_eq := rfl
  environment parameters scalars timestep state :=
    .zero_of_ne_warn (engine.environment parameters scalars) unmarked state timestep

/-- Where zero divisors are not marked, none is recorded. -/
theorem not_isDivision_of_run {engine : Engine} (unmarked : engine.config.zeroDivision ≠ .warn)
    {parameters : Bindings Value} {seed : UInt64} {index : Option UInt64} {checkpoint : Checkpoint}
    {result : RunResult} (ran : engine.run parameters seed index checkpoint = .ok result) :
    ∀ diagnostic ∈ result.log.diagnostics, diagnostic.isDivision = false := by
  rcases (treats_self unmarked).run parameters seed index checkpoint with forbidden | alike
  · cases forbidden.1
  · rw [ran] at alike
    cases alike with
    | succeeded follows =>
        have unchanged := follows.log.diagnostics.eq_filter
        intro diagnostic member
        rw [unchanged, List.mem_filter] at member
        simpa using member.2

/-- Marking zero divisors only adds records.  The run in which they are replaced silently fails with
the same error or has the same result without these records, and neither it nor the run in which
zero divisors are failures has such a record. -/
theorem warn_only_adds (engine : Engine) (parameters : Bindings Value) (seed : UInt64)
    (index : Option UInt64) (checkpoint : Checkpoint) :
    (engine.treating .zero).run parameters seed index checkpoint =
        ((engine.treating .warn).run parameters seed index checkpoint).map
          RunResult.withoutDivisions ∧
      ∀ treatment, treatment = .zero ∨ treatment = .error → ∀ result,
        (engine.treating treatment).run parameters seed index checkpoint = .ok result →
          ∀ diagnostic ∈ result.log.diagnostics, diagnostic.isDivision = false := by
  constructor
  · rcases (engine.treats_treating .zero).run parameters seed index checkpoint with
      forbidden | alike
    · cases forbidden.1
    · generalize (engine.treating .warn).run parameters seed index checkpoint = marked at alike ⊢
      generalize (engine.treating .zero).run parameters seed index checkpoint = silent at alike ⊢
      cases alike with
      | failed error => rfl
      | succeeded follows => exact congrArg Except.ok follows.eq_withoutDivisions
  · rintro treatment (rfl | rfl) result ran
    · exact not_isDivision_of_run (by simp [treating]) ran
    · exact not_isDivision_of_run (by simp [treating]) ran

/-- A model that divides by zero. -/
def dividingModel : Model :=
  { Model.blank "dividing" 1 with
    equations := [⟨"ratio", .current, .binary .div (.number 1.0) (.number 0.0), []⟩] }

def dividingEngine : Engine := .plain dividingModel rfl

theorem warn_only_adds_dividing :
    (∃ diagnostic ∈ (dividingEngine.treating .warn).recorded .empty .uninterrupted,
      diagnostic.isDivision = true) ∧
    (dividingEngine.treating .zero).run .empty 7 none .uninterrupted =
      ((dividingEngine.treating .warn).run .empty 7 none .uninterrupted).map
        RunResult.withoutDivisions := by
  have recorded_eq : (dividingEngine.treating .warn).recorded .empty .uninterrupted =
      [.divisionByZero 0 "current equation 'ratio'"] := rfl
  refine ⟨?_, (warn_only_adds dividingEngine .empty 7 none .uninterrupted).1⟩
  rw [recorded_eq]
  exact ⟨_, List.mem_singleton_self _, rfl⟩

/-- A run that records no zero divisor certifies that zero divisors could be failures: the run in
which they are fails with the same error, or has the same result up to the reasons in its
diagnostics. -/
theorem clean_warn_certifies (engine : Engine) (parameters : Bindings Value) (seed : UInt64)
    (index : Option UInt64) (checkpoint : Checkpoint)
    (clean : ∀ diagnostic ∈ (engine.treating .warn).recorded parameters checkpoint,
      diagnostic.isDivision = false) :
    (∀ result, (engine.treating .warn).run parameters seed index checkpoint = .ok result →
        (engine.treating .warn).recorded parameters checkpoint = result.log.diagnostics) ∧
      ((engine.treating .error).run parameters seed index checkpoint).map
          RunResult.withoutReasons =
        ((engine.treating .warn).run parameters seed index checkpoint).map
          RunResult.withoutReasons := by
  refine ⟨fun result ran => recorded_of_run ran, ?_⟩
  rcases (engine.treats_treating .error).run parameters seed index checkpoint with
    ⟨_, diagnostic, member, division⟩ | alike
  · rw [clean diagnostic member] at division
    cases division
  · exact (alike.map_eq fun follows => follows.withoutReasons_eq.symm).symm

/-- A model in which one zero divisor is not reached, and another one belongs to an equation that
has no value. -/
def guardedModel : Model :=
  { Model.blank "guarded" 1 with
    equations :=
      [⟨"safe", .current, .binary .or (.boolean true) (.binary .gt
          (.binary .div (.number 1.0) (.number 0.0)) (.number 0.0)), []⟩,
        ⟨"broken", .current, .unary .not (.binary .div (.number 1.0) (.number 0.0)), []⟩] }

def guardedEngine : Engine := .plain guardedModel rfl

theorem clean_warn_certifies_guarded :
    (∀ diagnostic ∈ (guardedEngine.treating .warn).recorded .empty .uninterrupted,
      diagnostic.isDivision = false) ∧
    ((guardedEngine.treating .error).run .empty 7 none .uninterrupted).map
        RunResult.withoutReasons =
      ((guardedEngine.treating .warn).run .empty 7 none .uninterrupted).map
        RunResult.withoutReasons := by
  have unmarked : (guardedEngine.treating .warn).recorded .empty .uninterrupted =
      [.convergence ⟨0, 2, Bindings.empty.insert "broken"
        "Type mismatch: expected bool, found number"⟩] := rfl
  have clean : ∀ diagnostic ∈ (guardedEngine.treating .warn).recorded .empty .uninterrupted,
      diagnostic.isDivision = false := by
    rw [unmarked]
    exact fun diagnostic member => List.mem_singleton.mp member ▸ rfl
  exact ⟨clean, (clean_warn_certifies guardedEngine .empty 7 none .uninterrupted clean).2⟩

end Engine

end EconModel
