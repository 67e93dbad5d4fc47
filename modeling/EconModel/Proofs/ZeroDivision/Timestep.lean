import EconModel.Proofs.Engine.Storing
import EconModel.Proofs.Engine.Timestep
import EconModel.Proofs.ZeroDivision.Policies

/-!
# Timesteps under treatments of zero divisors

Two engines that differ in how zero divisors are treated resolve the scalars and the timesteps in
lockstep.  A timestep comes to the same under both, unless a mark is recorded that is refused.
Every mark that a value depends on is recorded, because a mark is dropped only where an evaluation
fails and nothing is stored.
-/

namespace EconModel

/-- The right environment is the left one under a treatment. -/
def Environment.Treats (treatment : ZeroDivision) (left right : Environment) : Prop :=
  ∀ timestep state, Context.Treats treatment (left.view timestep state) (right.view timestep state)

namespace Solver

variable {σ : Type} {treatment : ZeroDivision} {view view' : σ → Context}
  {write : Equation → Value → σ → Except EvalError σ}

/-- Attempts that store values are in lockstep under two treatments. -/
theorem lockstep_storing (pending : List Equation)
    (treats : ∀ state, Context.Treats treatment (view state) (view' state)) :
    Lockstep (storing view write) (storing view' write) pending treatment.look
      (fun entry => treatment.Forbids entry.2)
      fun entry entry' => entry'.1 = entry.1 ∧ Diagnostic.Follow treatment entry.2 entry'.2 where
  stays := by
    rintro equation _ ⟨state, diagnostics⟩ forbidden
    cases evaluated : ((view state).evalFinite equation.expr).result with
    | error error =>
        rw [storing_of_error evaluated]
        exact forbidden
    | ok value =>
        rw [storing_of_ok evaluated]
        cases write equation value state with
        | error error => exact forbidden.append_right _
        | ok next => exact forbidden.append_right _
  attempt := by
    rintro equation _ ⟨_, diagnostics⟩ ⟨state, diagnostics'⟩ ⟨rfl, follow⟩
    have treated := (treats state).evalFinite_eq equation.expr
    rcases Classical.em (treatment.Refuses ((view state).evalFinite equation.expr).dividedByZero)
      with refused | accepted
    · rw [Evaluation.treat_of_refuses refused] at treated
      have failed' : storing view' write equation (state, diagnostics') =
          (.error .divisionByZero, (state, diagnostics')) :=
        storing_of_error (congrArg Evaluation.result treated) diagnostics'
      cases evaluated : ((view state).evalFinite equation.expr).result with
      | error error =>
          right
          rw [storing_of_error evaluated, failed']
          refine ⟨?_, rfl, follow⟩
          rw [refused.1]
          rfl
      | ok value =>
          left
          have marked := refused.forbids (view state).stamp equation.location
          rw [storing_of_ok evaluated]
          cases write equation value state with
          | error error => exact marked.append_left _
          | ok next => exact marked.append_left _
    · right
      rw [Evaluation.treat_of_not_refuses accepted] at treated
      have result_eq := congrArg Evaluation.result treated
      have mark_follows : Diagnostic.Follow treatment ((view state).mark equation)
          ((view' state).mark equation) := by
        rw [Context.mark, Context.mark, treated, (treats state).stamp_eq]
        exact Diagnostic.follow_ofMark _ _ _ _
      cases evaluated : ((view state).evalFinite equation.expr).result with
      | error error =>
          rw [storing_of_error evaluated, storing_of_error (result_eq.trans evaluated)]
          exact ⟨rfl, rfl, follow⟩
      | ok value =>
          rw [storing_of_ok evaluated, storing_of_ok (result_eq.trans evaluated)]
          cases write equation value state with
          | error error => exact ⟨rfl, rfl, follow.append mark_follows⟩
          | ok next => exact ⟨rfl, rfl, follow.append mark_follows⟩

end Solver

/-- The right outcome is what a treatment makes of the left one. -/
structure Engine.StepOutcome.Follows (treatment : ZeroDivision) (left right : Engine.StepOutcome) :
    Prop where
  state_eq : right.state = left.state
  next_eq : right.next = left.next
  halted_eq : right.halted = left.halted
  log : Log.Follows treatment left.log right.log

namespace Engine

/-- The right engine is the left one under a treatment. -/
structure Treats (treatment : ZeroDivision) (engine other : Engine) : Prop where
  model_eq : other.model = engine.model
  passLimit_eq : other.config.passLimit = engine.config.passLimit
  blockLimit_eq : other.config.blockLimit = engine.config.blockLimit
  environment : ∀ parameters scalars, Environment.Treats treatment
    (engine.environment parameters scalars) (other.environment parameters scalars)

theorem follow_convergenceDiagnostics {treatment : ZeroDivision} {left right : Resolution}
    (alike : left.LooksLike treatment.look right) (timestep : Nat) :
    Diagnostic.Follow treatment (convergenceDiagnostics timestep left)
      (convergenceDiagnostics timestep right) := by
  unfold convergenceDiagnostics
  rw [alike.isConverged_eq]
  split
  · exact Diagnostic.follow_nil treatment
  · refine Diagnostic.follow_singleton rfl ?_
    have blurred (resolution : Resolution) :
        (resolution.unresolved.map fun _ error => error.message).map (fun _ => treatment.blur) =
          (resolution.unresolved.map fun _ => treatment.look).map
            fun _ error => treatment.blur error.message := by
      simp [Bindings.map, ZeroDivision.blur_message_look]
    rw [Diagnostic.mapReason, Diagnostic.mapReason, blurred, blurred, alike.unresolved_eq,
      alike.iterations_eq]

/-! ## Recurrences -/

theorem follow_recurrence {treatment : ZeroDivision} {left right : Context}
    (treats : left.Treats treatment right) (equation : Equation) :
    treatment.Forbids (recurrence left equation).2 ∨
      (recurrence right equation).1 = (recurrence left equation).1 ∧
        Diagnostic.Follow treatment (recurrence left equation).2 (recurrence right equation).2 := by
  have treated := treats.evalFinite_eq equation.expr
  rcases Classical.em (treatment.Refuses (left.evalFinite equation.expr).dividedByZero)
    with refused | accepted
  · left
    have marked : treatment.Forbids (left.mark equation) :=
      refused.forbids left.stamp equation.location
    cases evaluated : (left.evalFinite equation.expr).result with
    | error error =>
        rw [recurrence_of_error evaluated]
        exact marked.append_left [_]
    | ok value =>
        rw [recurrence_of_ok evaluated]
        exact marked
  · right
    rw [Evaluation.treat_of_not_refuses accepted] at treated
    have result_eq := congrArg Evaluation.result treated
    have mark_follows : Diagnostic.Follow treatment (left.mark equation) (right.mark equation) := by
      rw [Context.mark, Context.mark, treated, treats.stamp_eq]
      exact Diagnostic.follow_ofMark _ _ _ _
    cases evaluated : (left.evalFinite equation.expr).result with
    | error error =>
        rw [recurrence_of_error evaluated, recurrence_of_error (result_eq.trans evaluated),
          treats.stamp_eq]
        exact ⟨rfl, (Diagnostic.follow_singleton rfl rfl).append mark_follows⟩
    | ok value =>
        rw [recurrence_of_ok evaluated, recurrence_of_ok (result_eq.trans evaluated)]
        exact ⟨rfl, mark_follows⟩

theorem follow_recurrences {treatment : ZeroDivision} {left right : Context}
    (treats : left.Treats treatment right) (equations : List Equation) :
    treatment.Forbids (recurrences left equations).2 ∨
      (recurrences right equations).1 = (recurrences left equations).1 ∧
        Diagnostic.Follow treatment (recurrences left equations).2
          (recurrences right equations).2 := by
  rcases Classical.em (treatment.Forbids (recurrences left equations).2) with forbidden | accepted
  · exact .inl forbidden
  · right
    have each : ∀ equation ∈ equations,
        (recurrence right equation).1 = (recurrence left equation).1 ∧
          Diagnostic.Follow treatment (recurrence left equation).2
            (recurrence right equation).2 := by
      intro equation member
      refine (follow_recurrence treats equation).resolve_left fun forbidden => accepted ?_
      exact forbidden.mono fun diagnostic recorded =>
        mem_diagnostics_recurrences_iff.mpr ⟨equation, member, recorded⟩
    constructor
    · have values_eq : equations.map (fun equation =>
          (equation.target, (recurrence right equation).1)) =
          equations.map fun equation => (equation.target, (recurrence left equation).1) :=
        List.map_congr_left fun equation member => by rw [(each equation member).1]
      simp only [recurrences, List.map_map]
      exact congrArg Bindings.ofList values_eq
    · simp only [recurrences, List.flatMap_map]
      clear accepted
      induction equations with
      | nil => exact Diagnostic.follow_nil treatment
      | cons equation rest ih =>
          have ih' := ih fun other member => each other (List.mem_cons_of_mem equation member)
          exact (each equation List.mem_cons_self).2.append ih'

namespace Treats

variable {treatment : ZeroDivision} {engine other : Engine}

section Parts

variable (treats : Treats treatment engine other)

include treats

theorem startingLimit_eq (pending : List Equation) :
    other.startingLimit pending = engine.startingLimit pending := by
  rw [startingLimit, startingLimit, treats.passLimit_eq]

theorem pendingAt_eq (timestep : Nat) : other.pendingAt timestep = engine.pendingAt timestep := by
  rw [pendingAt, pendingAt, treats.model_eq]

theorem limitAt_eq (timestep : Nat) : other.limitAt timestep = engine.limitAt timestep := by
  rw [limitAt, limitAt, treats.startingLimit_eq, treats.model_eq, treats.passLimit_eq]

theorem opened_eq : other.opened = engine.opened := by
  funext timestep state next
  have seed_eq : other.seed timestep next = engine.seed timestep next := by
    funext name previous
    rw [seed, seed, treats.model_eq]
  rw [opened, opened, seed_eq]

theorem missingInitials_eq {left right : Resolution} (alike : left.LooksLike treatment.look right)
    (timestep : Nat) :
    other.missingInitials timestep right = engine.missingInitials timestep left := by
  rw [missingInitials, missingInitials, treats.model_eq, alike.names_eq]

/-! ## Resolutions -/

/-- The resolutions of the scalars come to the same, unless a mark is recorded that is refused. -/
theorem resolveScalars (parameters : Bindings Value) :
    treatment.Forbids (engine.resolveScalars parameters).2.2 ∨
      (engine.resolveScalars parameters).1.LooksLike treatment.look
          (other.resolveScalars parameters).1 ∧
        (other.resolveScalars parameters).2.1 = (engine.resolveScalars parameters).2.1 ∧
        Diagnostic.Follow treatment (engine.resolveScalars parameters).2.2
          (other.resolveScalars parameters).2.2 := by
  rw [Engine.resolveScalars, Engine.resolveScalars, treats.startingLimit_eq, treats.model_eq,
    scalarStep_eq, scalarStep_eq]
  exact (Solver.lockstep_storing _ fun scalars =>
    treats.environment parameters scalars 0 (.initial [])).solve _
      ⟨rfl, Diagnostic.follow_nil treatment⟩

variable {left right : Environment} (environments : Environment.Treats treatment left right)
  (timestep : Nat) (before : SimulationState)

include environments

/-- The resolutions of a timestep come to the same, unless a mark is recorded that is refused. -/
theorem resolveAt :
    treatment.Forbids (engine.resolveAt left timestep before).2.2 ∨
      (engine.resolveAt left timestep before).1.LooksLike treatment.look
          (other.resolveAt right timestep before).1 ∧
        (other.resolveAt right timestep before).2.1 =
          (engine.resolveAt left timestep before).2.1 ∧
        Diagnostic.Follow treatment (engine.resolveAt left timestep before).2.2
          (other.resolveAt right timestep before).2.2 := by
  rw [Engine.resolveAt, Engine.resolveAt, treats.limitAt_eq, treats.pendingAt_eq, equationStep_eq,
    equationStep_eq]
  exact (Solver.lockstep_storing _ (environments timestep)).solve _
    ⟨rfl, Diagnostic.follow_nil treatment⟩

/-! ## Outcomes -/

/-- Up to the constraints a timestep comes to the same, unless a mark is recorded that is
refused. -/
theorem settled :
    treatment.Forbids (engine.settledLog left timestep before).diagnostics ∨
      other.settledAt right timestep before = engine.settledAt left timestep before ∧
        (other.reportAt right timestep before).isFatal =
          (engine.reportAt left timestep before).isFatal ∧
        Log.Follows treatment (engine.settledLog left timestep before)
          (other.settledLog right timestep before) := by
  rcases treats.resolveAt environments timestep before with forbidden | ⟨alike, state_eq, follow⟩
  · exact .inl ((forbidden.append_right _).append_right _)
  · change other.settledAt right timestep before = engine.settledAt left timestep before at state_eq
    have contexts := environments timestep (engine.settledAt left timestep before)
    rcases Classical.em (treatment.Refuses (engine.reportAt left timestep before).dividedByZero)
      with refused | accepted
    · left
      have marked := refused.forbids
        (left.view timestep (engine.settledAt left timestep before)).stamp "constraints"
      exact (marked.append_right _).append_left _
    · right
      have report_eq : other.reportAt right timestep before =
          ⟨(engine.reportAt left timestep before).violations,
            (engine.reportAt left timestep before).skipped,
            treatment.mark (engine.reportAt left timestep before).dividedByZero⟩ := by
        rw [reportAt, state_eq, treats.model_eq]
        exact contexts.check_eq engine.model.constraints accepted
      have fatal_eq : (other.reportAt right timestep before).isFatal =
          (engine.reportAt left timestep before).isFatal := by
        rw [report_eq]
        rfl
      refine ⟨state_eq, fatal_eq, ?_⟩
      have resolved := Log.Follows.of_diagnostics
        (follow.append (follow_convergenceDiagnostics alike timestep))
      refine resolved.append ?_
      rw [report_eq, state_eq]
      refine ⟨rfl, rfl, rfl, ?_⟩
      simp only [constraintLog, contexts.stamp_eq]
      refine (Diagnostic.follow_ofMark _ _ _ _).append ?_
      refine Diagnostic.follow_of_not_isDivision treatment fun diagnostic member => ?_
      obtain ⟨constraint, reason, rfl⟩ := Context.exists_of_mem_skipped _ member
      rfl

/-- The policies of a timestep do the same, unless they record a mark that is refused. -/
theorem effectAt
    (state_eq : other.settledAt right timestep before = engine.settledAt left timestep before) :
    treatment.Forbids (engine.effectAt left timestep before).log.diagnostics ∨
      PolicyEffect.Follows treatment (engine.effectAt left timestep before)
        (other.effectAt right timestep before) := by
  have settings : PolicySetting.Treats treatment (engine.policySetting left timestep)
      (other.policySetting right timestep) :=
    ⟨environments timestep, treats.blockLimit_eq⟩
  rw [Engine.effectAt, Engine.effectAt, state_eq, treats.model_eq]
  exact settings.run engine.model.policies (engine.settledAt left timestep before)

/-- A timestep comes to the same, unless a mark is recorded that is refused. -/
theorem finish (isLast : Bool) :
    treatment.Forbids (engine.finish left timestep isLast before).log.diagnostics ∨
      (engine.finish left timestep isLast before).Follows treatment
        (other.finish right timestep isLast before) := by
  have settled := treats.settled environments timestep before
  rcases fatal : (engine.reportAt left timestep before).isFatal with _ | _
  · rw [finish_of_not_isFatal fatal]
    rcases settled with forbidden | ⟨state_eq, fatal_eq, settled_follows⟩
    · exact .inl ((forbidden.append_right _).append_right _)
    · rw [finish_of_not_isFatal (fatal_eq.trans fatal)]
      rcases treats.effectAt environments timestep before state_eq with forbidden | effect_follows
      · exact .inl ((forbidden.append_left _).append_right _)
      · have recurrences :
            treatment.Forbids (engine.recurrencesAt left timestep isLast before).2 ∨
              (other.recurrencesAt right timestep isLast before).1 =
                  (engine.recurrencesAt left timestep isLast before).1 ∧
                Diagnostic.Follow treatment (engine.recurrencesAt left timestep isLast before).2
                  (other.recurrencesAt right timestep isLast before).2 := by
          rw [recurrencesAt, recurrencesAt, effect_follows.state_eq, treats.model_eq]
          split
          · exact .inr ⟨rfl, Diagnostic.follow_nil treatment⟩
          · exact follow_recurrences (environments timestep _) _
        rcases recurrences with forbidden | ⟨next_eq, follow⟩
        · exact .inl (forbidden.append_left _)
        · right
          refine ⟨?_, next_eq, rfl, ?_⟩
          · exact congrArg SimulationState.commit effect_follows.state_eq
          · exact (settled_follows.append effect_follows.log).append (.of_diagnostics follow)
  · rw [finish_of_isFatal fatal]
    rcases settled with forbidden | ⟨state_eq, fatal_eq, settled_follows⟩
    · exact .inl forbidden
    · rw [finish_of_isFatal (fatal_eq.trans fatal)]
      exact .inr ⟨congrArg SimulationState.commit state_eq, rfl, rfl, settled_follows⟩

end Parts

end Treats

end Engine

end EconModel
