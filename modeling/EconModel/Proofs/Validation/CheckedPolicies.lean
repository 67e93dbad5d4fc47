import EconModel.Proofs.Evaluation.Checked
import EconModel.Proofs.PolicyRun

/-!
# Policies that have been checked

Checking a model looks at every expression that stands in it, and at how deep the blocks of every
policy stand.  `PolicySetting.Performs` says which actions are performed when policies run, and in
which effects.  An action of a checked policy is performed without the failures that the checks rule
out: its blocks are within the limit, its writes find their slots, and its expressions are evaluated
soundly.
-/

namespace EconModel

open Validation

namespace Action

theorem depth_le_maxDepth {actions : List Action} {action : Action} (member : action ∈ actions) :
    action.depth ≤ maxDepth actions := by
  induction actions with
  | nil => exact (List.not_mem_nil member).elim
  | cons first rest ih =>
      rw [maxDepth]
      rcases List.mem_cons.mp member with rfl | member
      · exact Nat.le_max_left _ _
      · exact Nat.le_trans (ih member) (Nat.le_max_right _ _)

theorem mem_nodes_self (action : Action) : action ∈ action.nodes := by
  cases action <;> simp [nodes]

end Action

/-! ## The expressions of a model -/

namespace Model

/-- The expressions that stand in a model. -/
inductive HasExpr (model : Model) : Expr → Prop where
  | equation {equation : Equation} : equation ∈ model.equations → HasExpr model equation.expr
  | condition {constraint : Constraint} : constraint ∈ model.constraints →
      HasExpr model constraint.condition
  | trigger {policy : Policy} : policy ∈ model.policies → HasExpr model policy.trigger
  | assigned {policy : Policy} {target : String} {value : Expr} : policy ∈ model.policies →
      .assign target value ∈ policy.action.nodes → HasExpr model value
  | argument {policy : Policy} {name : String} {arguments : Bindings Expr} {entry : String × Expr} :
      policy ∈ model.policies → .emit name arguments ∈ policy.action.nodes →
        entry ∈ arguments.entries → HasExpr model entry.2

namespace Accepted

variable {model : Model} {enumeration : Enumeration} {functions : FunctionRegistry}
  {blockLimit : UInt64} (accepted : Accepted enumeration model functions blockLimit)

include accepted

theorem checkPolicy_parts {policy : Policy} (member : policy ∈ model.policies) :
    (scope model).Admits functions policy.trigger ∧
      policy.action.depth ≤ blockLimit.toNat ∧
      ∀ node ∈ policy.action.nodes,
        checkAction (scope model) functions policy.name node = .ok () :=
  checkPolicy_eq_ok_iff.mp (accepted.policy policy member)

/-- A policy assigns to variables only. -/
theorem mem_variableNames_of_assign {policy : Policy} (member : policy ∈ model.policies)
    {target : String} {value : Expr} (node : .assign target value ∈ policy.action.nodes) :
    target ∈ model.variableNames :=
  (checkAction_assign_eq_ok_iff.mp ((accepted.checkPolicy_parts member).2.2 _ node)).1

/-- Every expression of an accepted model has been checked. -/
theorem admits {expr : Expr} (given : model.HasExpr expr) :
    (scope model).Admits functions expr := by
  cases given with
  | equation member =>
      have passed := accepted.equation _ member
      rw [checkEquation, bind_eq_ok_iff] at passed
      exact Scope.checkExpr_eq_ok_iff.mp passed.1
  | condition member => exact checkConstraint_eq_ok_iff.mp (accepted.constraint _ member)
  | trigger member => exact (accepted.checkPolicy_parts member).1
  | assigned member node =>
      have passed := (accepted.checkPolicy_parts member).2.2 _ node
      exact (checkAction_assign_eq_ok_iff.mp passed).2
  | argument member node entry_mem =>
      have passed := (accepted.checkPolicy_parts member).2.2 _ node
      exact (checkAction_emit_eq_ok_iff.mp passed).2 _ entry_mem

end Accepted

end Model

/-! ## What policies do with expressions -/

namespace PolicySetting

/-- Running some policies comes to performing an action inside `depth` blocks: that of a policy that
has fired, or a member of a block after the members in front of it have succeeded. -/
inductive Performs (setting : PolicySetting) (policies : List Policy) (state : SimulationState) :
    Policy → (depth : Nat) → Action → PolicyEffect → Prop where
  | fired {earlier later : List Policy} {policy : Policy} {after : PolicyEffect} :
      policies = earlier ++ policy :: later →
        setting.settle policy.name ((setting.context
            (setting.run earlier state).state).evalBoolean policy.trigger)
          (setting.run earlier state) = (.ok true, after) →
          Performs setting policies state policy 0 policy.action
            (after.fire (setting.firing policy))
  | member {policy : Policy} {depth : Nat} {actions earlier later : List Action} {action : Action}
      {effect before : PolicyEffect} :
      Performs setting policies state policy depth (.block actions) effect →
        depth < setting.blockLimit.toNat → actions = earlier ++ action :: later →
          setting.performAll policy.name (depth + 1) earlier effect = (.ok (), before) →
            Performs setting policies state policy (depth + 1) action before

/-- A state with an open slot for each of some names. -/
structure HasSlots (names : List String) (state : SimulationState) : Prop where
  isOpen_eq : state.isOpen = true
  names_eq : state.series.names = names

theorem HasSlots.exists_setCurrent {names : List String} {state : SimulationState}
    (slots : HasSlots names state) {name : String} (declared : name ∈ names) (value : Value) :
    ∃ next, state.setCurrent name value = .ok next := by
  rw [← slots.names_eq] at declared
  obtain ⟨values, found⟩ := (Bindings.mem_names_iff _ _).mp declared
  exact ⟨_, SimulationState.setCurrent_eq_ok_iff.mpr ⟨values, found, slots.isOpen_eq, rfl⟩⟩

theorem HasSlots.setCurrent {names : List String} {state next : SimulationState}
    (slots : HasSlots names state) {name : String} {value : Value}
    (written : state.setCurrent name value = .ok next) : HasSlots names next := by
  refine ⟨?_, (SimulationState.names_setCurrent written).trans slots.names_eq⟩
  obtain ⟨_, _, open_eq, rfl⟩ := SimulationState.setCurrent_eq_ok_iff.mp written
  exact open_eq

section Slots

variable {setting : PolicySetting} {names : List String} {effect : PolicyEffect}

theorem slots_perform (slots : HasSlots names effect.state) (policy : String) (action : Action)
    (depth : Nat) : HasSlots names (setting.perform policy depth action effect).2.state := by
  have kept : KeptBy setting policy action fun effect => HasSlots names effect.state := {
    mark := fun _ slots => slots
    emit := fun _ _ slots => slots
    write := fun _ _ written slots => slots.setCurrent written }
  exact perform_kept kept action depth (fun _ node => node) slots

theorem slots_performAll (slots : HasSlots names effect.state) (policy : String)
    (actions : List Action) (depth : Nat) :
    HasSlots names (setting.performAll policy depth actions effect).2.state :=
  performAll_kept (fun effect => HasSlots names effect.state) actions slots
    fun action _ _ slots => slots_perform slots policy action depth

theorem slots_run {state : SimulationState} (slots : HasSlots names state)
    (policies : List Policy) : HasSlots names (setting.run policies state).state := by
  have kept : Kept setting policies fun effect => HasSlots names effect.state := {
    mark := fun _ _ slots => slots
    failed := fun _ _ slots => slots
    fire := fun _ slots => slots
    emit := fun _ _ _ _ slots => slots
    write := fun _ _ _ _ written slots => slots.setCurrent written }
  exact run_kept kept slots

end Slots

/-! ## Performing checked actions -/

section Checked

variable {model : Model} {functions : FunctionRegistry} {blockLimit : UInt64}
  {setting : PolicySetting} {state : SimulationState} {policy : Policy} {depth : Nat}
  {action : Action} {effect : PolicyEffect}

/-- What is known when an action is performed. -/
structure Standing (model : Model) (setting : PolicySetting) (policy : Policy) (depth : Nat)
    (action : Action) (effect : PolicyEffect) : Prop where
  member : policy ∈ model.policies
  slots : HasSlots model.variableNames effect.state
  /-- The action is a part of that of its policy. -/
  nodes : ∀ node ∈ action.nodes, node ∈ policy.action.nodes
  /-- What is left of the limit is enough for the blocks inside. -/
  bound : depth + action.depth ≤ setting.blockLimit.toNat

theorem Standing.of_member {actions : List Action} (standing :
    Standing model setting policy depth (.block actions) effect) (member : action ∈ actions)
    {before : PolicyEffect} (slots : HasSlots model.variableNames before.state) :
    Standing model setting policy (depth + 1) action before where
  member := standing.member
  slots := slots
  nodes node node_mem := standing.nodes node (Action.mem_nodes_block member node_mem)
  bound := by
    have bound := standing.bound
    have within := Action.depth_le_maxDepth member
    rw [Action.depth] at bound
    omega

theorem Performs.standing (accepted : model.Accepted .declared functions setting.blockLimit)
    (slots : HasSlots model.variableNames state)
    (performs : setting.Performs model.policies state policy depth action effect) :
    Standing model setting policy depth action effect := by
  induction performs with
  | @fired earlier later policy after policies_eq settled =>
      have member : policy ∈ model.policies := by
        rw [policies_eq]
        exact List.mem_append_right _ List.mem_cons_self
      refine ⟨member, ?_, fun _ node => node, ?_⟩
      · change HasSlots _ after.state
        rw [(settle_eq_ok settled).2.1]
        exact slots_run slots earlier
      · rw [Nat.zero_add]
        exact (accepted.checkPolicy_parts member).2.1
  | @member policy depth actions earlier later action effect before _ _ actions_eq performed ih =>
      have member : action ∈ actions := by
        rw [actions_eq]
        exact List.mem_append_right _ List.mem_cons_self
      refine ih.of_member member ?_
      have before_slots : HasSlots model.variableNames
          (setting.performAll policy.name (depth + 1) earlier effect).2.state :=
        slots_performAll ih.slots policy.name earlier (depth + 1)
      rwa [performed] at before_slots

/-- Expressions of a model are evaluated without the failures that are ruled out, in every state
that has the slots. -/
def Sound (setting : PolicySetting) (model : Model) : Prop :=
  ∀ expr, model.HasExpr expr → ∀ state, HasSlots model.variableNames state →
    (setting.context state).RegularAt expr

private theorem Standing.regular_assign
    (accepted : model.Accepted .declared functions setting.blockLimit)
    (sound : setting.Sound model) {target : String} {value : Expr}
    (standing : Standing model setting policy depth (.assign target value) effect)
    {error : EvalError}
    (failed : (setting.assign policy.name target value effect).1 = .error error) :
    error.isRuledOut = false := by
  have node := standing.nodes _ (Action.mem_nodes_self _)
  have regular := (sound value (.assigned standing.member node) _ standing.slots).evalFinite
  unfold assign at failed
  split at failed
  · next settled =>
    cases failed
    exact regular _ (settle_eq_error settled)
  · next settled =>
    -- The slot of the target is there, so the write succeeds.
    have declared := accepted.mem_variableNames_of_assign standing.member node
    obtain ⟨next, written⟩ := standing.slots.exists_setCurrent declared _
    rw [← (settle_eq_ok settled).2.1] at written
    rw [written] at failed
    cases failed

private theorem Standing.regular_emit (sound : setting.Sound model) {name : String}
    {arguments : Bindings Expr}
    (standing : Standing model setting policy depth (.emit name arguments) effect)
    {error : EvalError}
    (failed : (setting.emit policy.name name arguments effect).1 = .error error) :
    error.isRuledOut = false := by
  have node := standing.nodes _ (Action.mem_nodes_self _)
  have regular : ((setting.context effect.state).evalArguments arguments).Regular := by
    refine (Evaluation.regular_forAll fun entry entry_mem => ?_).andThen fun _ _ =>
      Evaluation.regular_pure _
    have argument := sound entry.2 (.argument standing.member node entry_mem) _ standing.slots
    exact argument.evalFinite.andThen fun _ _ => Evaluation.regular_pure _
  unfold emit at failed
  split at failed
  · next settled =>
    cases failed
    exact regular _ (settle_eq_error settled)
  · cases failed

/-- An action of a checked policy is performed without the failures that are ruled out. -/
theorem Standing.regular_perform
    (accepted : model.Accepted .declared functions setting.blockLimit)
    (sound : setting.Sound model) (standing : Standing model setting policy depth action effect)
    {error : EvalError}
    (failed : (setting.perform policy.name depth action effect).1 = .error error) :
    error.isRuledOut = false := by
  induction action generalizing depth effect with
  | assign target value => exact standing.regular_assign accepted sound failed
  | emit name arguments => exact standing.regular_emit sound failed
  | block actions ih =>
      have within : ¬ setting.blockLimit.toNat ≤ depth := by
        have bound := standing.bound
        rw [Action.depth] at bound
        omega
      rw [perform, if_neg within] at failed
      have rest_fails (rest : List Action) (rest_mem : ∀ action ∈ rest, action ∈ actions)
          {effect' : PolicyEffect} (slots : HasSlots model.variableNames effect'.state)
          (failed : (setting.performAll policy.name (depth + 1) rest effect').1 = .error error) :
          error.isRuledOut = false := by
        induction rest generalizing effect' with
        | nil => cases failed
        | cons action rest ih_rest =>
            have member := rest_mem action List.mem_cons_self
            rw [performAll] at failed
            split at failed
            · next after performed =>
              have after_slots : HasSlots model.variableNames
                  (setting.perform policy.name (depth + 1) action effect').2.state :=
                slots_perform slots policy.name action (depth + 1)
              rw [performed] at after_slots
              exact ih_rest (fun other other_mem =>
                rest_mem other (List.mem_cons_of_mem action other_mem)) after_slots failed
            · next performed =>
              cases failed
              exact ih action member (standing.of_member member slots)
                (congrArg Prod.fst performed)
      exact rest_fails actions (fun _ member => member) standing.slots failed

end Checked

end PolicySetting

end EconModel
