import EconModel.Proofs.PolicyRun
import EconModel.Proofs.ZeroDivision.Records

/-!
# Policies under treatments of zero divisors

Policies run side by side under two treatments.  As long as no mark is recorded that the treatment
refuses, they come to the same states and record the same, up to what `Log.Follows` allows.  A mark
that belongs to an evaluation that fails is not recorded, but then the policy fails either way.
-/

namespace EconModel

/-- The right effect is what a treatment makes of the left one. -/
structure PolicyEffect.Follows (treatment : ZeroDivision) (left right : PolicyEffect) : Prop where
  state_eq : right.state = left.state
  log : Log.Follows treatment left.log right.log

namespace PolicyEffect.Follows

variable {treatment : ZeroDivision} {left right : PolicyEffect}

theorem diagnose (follows : Follows treatment left right)
    {diagnostics diagnostics' : List Diagnostic}
    (follow : Diagnostic.Follow treatment diagnostics diagnostics') :
    Follows treatment (left.diagnose diagnostics) (right.diagnose diagnostics') :=
  ⟨follows.state_eq, { follows.log with diagnostics := follows.log.diagnostics.append follow }⟩

theorem emit (follows : Follows treatment left right) (event : EmittedEvent) :
    Follows treatment (left.emit event) (right.emit event) :=
  ⟨follows.state_eq, { follows.log with
    events_eq := congrArg (· ++ [event]) follows.log.events_eq }⟩

theorem fire (follows : Follows treatment left right) (firing : PolicyFiring) :
    Follows treatment (left.fire firing) (right.fire firing) :=
  ⟨follows.state_eq, { follows.log with
    firings_eq := congrArg (· ++ [firing]) follows.log.firings_eq }⟩

end PolicyEffect.Follows

namespace PolicySetting

/-- The right setting is the left one under a treatment. -/
structure Treats (treatment : ZeroDivision) (left right : PolicySetting) : Prop where
  context : ∀ state, Context.Treats treatment (left.context state) (right.context state)
  blockLimit_eq : right.blockLimit = left.blockLimit

/-- What is done in parallel.  Either a mark has been recorded that the treatment refuses, or both
sides fail or succeed together. -/
inductive Parallel (treatment : ZeroDivision) {α : Type} :
    Except EvalError α × PolicyEffect → Except EvalError α × PolicyEffect → Prop where
  | forbidden {left right : Except EvalError α × PolicyEffect} :
      treatment.Forbids left.2.log.diagnostics → Parallel treatment left right
  | failed {error error' : EvalError} {left right : PolicyEffect} :
      treatment.look error = treatment.look error' →
        PolicyEffect.Follows treatment left right →
          Parallel treatment (.error error, left) (.error error', right)
  | succeeded {value : α} {left right : PolicyEffect} :
      PolicyEffect.Follows treatment left right →
        Parallel treatment (.ok value, left) (.ok value, right)

variable {treatment : ZeroDivision}

/-- A mark that has been recorded stays recorded while an action is performed. -/
theorem forbids_perform (setting : PolicySetting) (policy : String) (action : Action) (depth : Nat)
    {effect : PolicyEffect} (forbidden : treatment.Forbids effect.log.diagnostics) :
    treatment.Forbids (setting.perform policy depth action effect).2.log.diagnostics := by
  have kept : KeptBy setting policy action
      fun effect => treatment.Forbids effect.log.diagnostics := {
    mark := fun _ forbidden => forbidden.append_right _
    emit := fun _ _ forbidden => forbidden
    write := fun _ _ _ forbidden => forbidden }
  exact perform_kept kept action depth (fun _ node => node) forbidden

theorem forbids_performAll (setting : PolicySetting) (policy : String) (actions : List Action)
    (depth : Nat) {effect : PolicyEffect}
    (forbidden : treatment.Forbids effect.log.diagnostics) :
    treatment.Forbids (setting.performAll policy depth actions effect).2.log.diagnostics :=
  performAll_kept (fun effect => treatment.Forbids effect.log.diagnostics) actions forbidden
    fun action _ _ start => setting.forbids_perform policy action depth start

/-- A mark that has been recorded stays recorded. -/
theorem kept_forbids (setting : PolicySetting) (policies : List Policy) :
    Kept setting policies fun effect => treatment.Forbids effect.log.diagnostics where
  mark _ _ forbidden := forbidden.append_right _
  failed _ _ forbidden := forbidden.append_right _
  fire _ forbidden := forbidden
  emit _ _ _ _ forbidden := forbidden
  write _ _ _ _ _ forbidden := forbidden

namespace Treats

variable {left right : PolicySetting} {effect effect' : PolicyEffect}
  (treats : Treats treatment left right)

include treats

theorem stamp_eq : right.stamp = left.stamp :=
  (treats.context (.initial [])).stamp_eq

theorem settle {α : Type} (policy : String) {evaluation evaluation' : Evaluation α}
    (treated : evaluation' = evaluation.treat treatment)
    (follows : PolicyEffect.Follows treatment effect effect') :
    Parallel treatment (left.settle policy evaluation effect)
      (right.settle policy evaluation' effect') := by
  subst treated
  unfold PolicySetting.settle
  rw [treats.stamp_eq]
  rcases Classical.em (treatment.Refuses evaluation.dividedByZero) with refused | accepted
  · rw [Evaluation.treat_of_refuses refused]
    cases evaluation.result with
    | error error =>
        refine .failed ?_ follows
        rw [refused.1]
        rfl
    | ok value => exact .forbidden ((refused.forbids _ _).append_left _)
  · rw [Evaluation.treat_of_not_refuses accepted]
    cases evaluation.result with
    | error error => exact .failed rfl follows
    | ok value => exact .succeeded (follows.diagnose (Diagnostic.follow_ofMark _ _ _ _))

theorem assign (policy target : String) (value : Expr)
    (follows : PolicyEffect.Follows treatment effect effect') :
    Parallel treatment (left.assign policy target value effect)
      (right.assign policy target value effect') := by
  have settled := treats.settle policy ((treats.context effect.state).evalFinite_eq value) follows
  unfold PolicySetting.assign
  rw [follows.state_eq]
  generalize left.settle policy _ effect = first at settled ⊢
  generalize right.settle policy _ effect' = second at settled ⊢
  cases settled with
  | forbidden forbidden =>
      refine .forbidden ?_
      obtain ⟨result, after⟩ := first
      cases result with
      | error error => exact forbidden
      | ok found =>
          dsimp only
          cases after.state.setCurrent target found with
          | error error => exact forbidden
          | ok state => exact forbidden
  | failed look_eq after_follows => exact .failed look_eq after_follows
  | @succeeded found after after' after_follows =>
      dsimp only
      rw [after_follows.state_eq]
      cases after.state.setCurrent target found with
      | error error => exact .failed rfl after_follows
      | ok state => exact .succeeded ⟨rfl, after_follows.log⟩

theorem emit (policy name : String) (arguments : Bindings Expr)
    (follows : PolicyEffect.Follows treatment effect effect') :
    Parallel treatment (left.emit policy name arguments effect)
      (right.emit policy name arguments effect') := by
  have settled := treats.settle policy
    ((treats.context effect.state).evalArguments_eq arguments) follows
  unfold PolicySetting.emit
  rw [follows.state_eq, treats.stamp_eq]
  generalize left.settle policy _ effect = first at settled ⊢
  generalize right.settle policy _ effect' = second at settled ⊢
  cases settled with
  | forbidden forbidden =>
      refine .forbidden ?_
      obtain ⟨result, after⟩ := first
      cases result with
      | error error => exact forbidden
      | ok values => exact forbidden
  | failed look_eq after_follows => exact .failed look_eq after_follows
  | succeeded after_follows => exact .succeeded (after_follows.emit _)

theorem perform (policy : String) (action : Action) (depth : Nat)
    (follows : PolicyEffect.Follows treatment effect effect') :
    Parallel treatment (left.perform policy depth action effect)
      (right.perform policy depth action effect') := by
  induction action generalizing depth effect effect' with
  | assign target value => exact treats.assign policy target value follows
  | emit name arguments => exact treats.emit policy name arguments follows
  | block actions ih =>
      have performAll (rest : List Action) (rest_mem : ∀ action ∈ rest, action ∈ actions)
          {effect effect' : PolicyEffect}
          (follows : PolicyEffect.Follows treatment effect effect') :
          Parallel treatment (left.performAll policy (depth + 1) rest effect)
            (right.performAll policy (depth + 1) rest effect') := by
        induction rest generalizing effect effect' with
        | nil => exact .succeeded follows
        | cons action rest ih_rest =>
            have performed := ih action (rest_mem action List.mem_cons_self) (depth + 1) follows
            rw [PolicySetting.performAll, PolicySetting.performAll]
            generalize left.perform policy (depth + 1) action effect = first at performed ⊢
            generalize right.perform policy (depth + 1) action effect' = second at performed ⊢
            cases performed with
            | forbidden forbidden =>
                refine .forbidden ?_
                obtain ⟨result, after⟩ := first
                cases result with
                | error error => exact forbidden
                | ok _ => exact left.forbids_performAll policy rest _ forbidden
            | failed look_eq after_follows => exact .failed look_eq after_follows
            | succeeded after_follows =>
                exact ih_rest (fun other other_mem =>
                  rest_mem other (List.mem_cons_of_mem action other_mem)) after_follows
      rw [PolicySetting.perform, PolicySetting.perform, treats.blockLimit_eq]
      split
      · exact .failed rfl follows
      · exact performAll actions (fun _ member => member) follows

/-- What is recorded about a policy that fails. -/
theorem diagnose_failed (policy : String) {error error' : EvalError}
    (look_eq : treatment.look error = treatment.look error')
    (follows : PolicyEffect.Follows treatment effect effect') :
    PolicyEffect.Follows treatment
      (effect.diagnose [.policyFailed left.stamp policy error.message])
      (effect'.diagnose [.policyFailed right.stamp policy error'.message]) := by
  refine follows.diagnose (Diagnostic.follow_singleton rfl ?_)
  rw [treats.stamp_eq, Diagnostic.mapReason, Diagnostic.mapReason,
    ZeroDivision.blur_eq_of_look_eq look_eq]

theorem runOne (policy : Policy) (follows : PolicyEffect.Follows treatment effect effect') :
    treatment.Forbids (left.runOne effect policy).log.diagnostics ∨
      PolicyEffect.Follows treatment (left.runOne effect policy)
        (right.runOne effect' policy) := by
  have settled := treats.settle policy.name
    ((treats.context effect.state).evalBoolean_eq policy.trigger) follows
  unfold PolicySetting.runOne
  dsimp only
  rw [follows.state_eq]
  generalize left.settle policy.name _ effect = first at settled ⊢
  generalize right.settle policy.name _ effect' = second at settled ⊢
  cases settled with
  | forbidden forbidden =>
      left
      obtain ⟨result, after⟩ := first
      cases result with
      | error error => exact forbidden.append_right _
      | ok fires =>
          cases fires with
          | false => exact forbidden
          | true =>
              have performed := left.forbids_perform policy.name policy.action 0
                (show treatment.Forbids (after.fire ⟨policy.name, left.stamp⟩).log.diagnostics
                  from forbidden)
              dsimp only
              generalize left.perform policy.name 0 policy.action _ = final at performed ⊢
              obtain ⟨result, final⟩ := final
              cases result with
              | error error => exact performed.append_right _
              | ok _ => exact performed
  | failed look_eq after_follows =>
      exact .inr (treats.diagnose_failed policy.name look_eq after_follows)
  | @succeeded fires after after' after_follows =>
      cases fires with
      | false => exact .inr after_follows
      | true =>
          have performed := treats.perform policy.name policy.action 0
            (after_follows.fire ⟨policy.name, left.stamp⟩)
          dsimp only
          rw [treats.stamp_eq]
          generalize left.perform policy.name 0 policy.action _ = first at performed ⊢
          generalize right.perform policy.name 0 policy.action _ = second at performed ⊢
          cases performed with
          | forbidden forbidden =>
              left
              obtain ⟨result, final⟩ := first
              cases result with
              | error error => exact forbidden.append_right _
              | ok _ => exact forbidden
          | failed look_eq final_follows =>
              have diagnosed := treats.diagnose_failed policy.name look_eq final_follows
              rw [treats.stamp_eq] at diagnosed
              exact .inr diagnosed
          | succeeded final_follows => exact .inr final_follows

/-- Policies do the same under both treatments, unless they record a mark that is refused. -/
theorem run (policies : List Policy) (state : SimulationState) :
    treatment.Forbids (left.run policies state).log.diagnostics ∨
      PolicyEffect.Follows treatment (left.run policies state) (right.run policies state) := by
  have foldl_follows {effect effect' : PolicyEffect}
      (follows : PolicyEffect.Follows treatment effect effect') :
      treatment.Forbids (policies.foldl left.runOne effect).log.diagnostics ∨
        PolicyEffect.Follows treatment (policies.foldl left.runOne effect)
          (policies.foldl right.runOne effect') := by
    induction policies generalizing effect effect' with
    | nil => exact .inr follows
    | cons policy rest ih =>
        rcases treats.runOne policy follows with forbidden | follows_after
        · exact .inl (foldl_kept (left.kept_forbids rest) (fun _ member => member) forbidden)
        · exact ih follows_after
  exact foldl_follows ⟨rfl, .empty treatment⟩

end Treats

end PolicySetting

end EconModel
