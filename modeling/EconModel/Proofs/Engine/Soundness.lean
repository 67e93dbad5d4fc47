import EconModel.Proofs.Engine.Settlement
import EconModel.Proofs.Engine.Storing
import EconModel.Proofs.Validation.CheckedPolicies

/-!
# Soundness of the checks

The checks of a model look at its text only.  They are sound: at every timestep that a run reaches,
every name that an expression refers to is in exactly one place, every evaluation finds the names
and functions it asks for, no action stands too deep, and every write finds its slot.  For this the
run is described by what it does with expressions: in which states it evaluates them, and in which
states it writes.
-/

namespace EconModel

namespace Engine

/-! ## What a timestep does with expressions -/

section Course

variable (engine : Engine) (environment : Environment) (position : Position)

/-- The attempts at the equations of a position, each with the state that it finds. -/
def visitsAt : List (Equation × SimulationState × List Diagnostic) :=
  Solver.visits (equationStep environment position.timestep) (engine.limitAt position.timestep)
    (engine.pendingAt position.timestep) (engine.openedAt position, [])

/-- The policies of a position perform an action. -/
abbrev PerformsAt (policy : Policy) (depth : Nat) (action : Action) (effect : PolicyEffect) :
    Prop :=
  (engine.policySetting environment position.timestep).Performs engine.model.policies
    (engine.settledContext environment position).state policy depth action effect

/-- In the timestep of a position an expression is evaluated in a state.  What would follow is
counted too where a fatal constraint halts the run or another failure comes first. -/
inductive Evaluates : SimulationState → Expr → Prop where
  | equation {visit : Equation × SimulationState × List Diagnostic} :
      visit ∈ engine.visitsAt environment position → Evaluates visit.2.1 visit.1.expr
  | condition {constraint : Constraint} : constraint ∈ engine.model.constraints →
      Evaluates (engine.settledContext environment position).state constraint.condition
  /-- A side of a comparison that is missed. -/
  | operand {constraint : Constraint} {op : BinaryOp} {left right side : Expr} :
      constraint ∈ engine.model.constraints → constraint.condition = .binary op left right →
        side = left ∨ side = right →
          Evaluates (engine.settledContext environment position).state side
  /-- The trigger of a policy, after the policies in front of it have run. -/
  | trigger {earlier later : List Policy} {policy : Policy} :
      engine.model.policies = earlier ++ policy :: later →
        Evaluates ((engine.policySetting environment position.timestep).run earlier
          (engine.settledContext environment position).state).state policy.trigger
  | assigned {policy : Policy} {depth : Nat} {target : String} {value : Expr}
      {effect : PolicyEffect} :
      engine.PerformsAt environment position policy depth (.assign target value) effect →
        Evaluates effect.state value
  /-- An argument of an event. -/
  | argument {policy : Policy} {depth : Nat} {name : String} {arguments : Bindings Expr}
      {effect : PolicyEffect} {entry : String × Expr} :
      engine.PerformsAt environment position policy depth (.emit name arguments) effect →
        entry ∈ arguments.entries → Evaluates effect.state entry.2
  | recurrence {equation : Equation} : equation ∈ engine.model.equationsOf .recurrence →
      Evaluates (engine.effectAt environment position.timestep (engine.openedAt position)).state
        equation.expr

/-- In the timestep of a position the open slot of a variable is written in a state. -/
inductive Writes : SimulationState → String → Prop where
  | equation {visit : Equation × SimulationState × List Diagnostic} :
      visit ∈ engine.visitsAt environment position → Writes visit.2.1 visit.1.target
  | assigned {policy : Policy} {depth : Nat} {target : String} {value : Expr}
      {effect : PolicyEffect} :
      engine.PerformsAt environment position policy depth (.assign target value) effect →
        Writes effect.state target

end Course

/-! ## The states of a timestep -/

section Slots

open PolicySetting (HasSlots)

variable {engine : Engine} {environment : Environment} {checkpoint : Checkpoint}
  {position : Position}

theorem slots_opened (rests : engine.Rests position.state position.timestep) :
    HasSlots engine.model.variableNames (engine.openedAt position) where
  isOpen_eq := (openAt_opened rests position.next).isOpen_eq
  names_eq := by rw [openedAt, opened, SimulationState.names_openNext, rests.names_eq]

theorem stays_slots (timestep : Nat) :
    Solver.Stays (equationStep environment timestep) (engine.pendingAt timestep)
      fun entry => HasSlots engine.model.variableNames entry.1 := by
  rw [equationStep_eq]
  exact Solver.stays_storing fun _ _ _ _ _ slots _ written => slots.setCurrent written

theorem slots_settled (rests : engine.Rests position.state position.timestep) :
    HasSlots engine.model.variableNames (engine.settledContext environment position).state :=
  (stays_slots position.timestep).solve (engine.limitAt position.timestep)
    (show HasSlots _ (engine.openedAt position, ([] : List Diagnostic)).1 from slots_opened rests)

theorem slots_visit (rests : engine.Rests position.state position.timestep)
    {visit : Equation × SimulationState × List Diagnostic}
    (member : visit ∈ engine.visitsAt environment position) :
    visit.1 ∈ engine.pendingAt position.timestep ∧
      HasSlots engine.model.variableNames visit.2.1 :=
  (stays_slots position.timestep).visits (engine.limitAt position.timestep)
    (show HasSlots _ (engine.openedAt position, ([] : List Diagnostic)).1 from slots_opened rests)
    visit member

theorem PerformsAt.standing (rests : engine.Rests position.state position.timestep)
    {policy : Policy} {depth : Nat} {action : Action} {effect : PolicyEffect}
    (performs : engine.PerformsAt environment position policy depth action effect) :
    PolicySetting.Standing engine.model (engine.policySetting environment position.timestep) policy
      depth action effect :=
  PolicySetting.Performs.standing engine.accepted (slots_settled rests) performs

/-- What is evaluated has been checked, and is evaluated where the slots are. -/
theorem Evaluates.checked (rests : engine.Rests position.state position.timestep)
    {state : SimulationState} {expr : Expr}
    (evaluates : engine.Evaluates environment position state expr) :
    HasSlots engine.model.variableNames state ∧
      (Validation.scope engine.model).Admits engine.functions expr := by
  have accepted := engine.accepted
  cases evaluates with
  | equation member =>
      obtain ⟨pending, slots⟩ := slots_visit rests member
      exact ⟨slots, accepted.admits (.equation (mem_pendingAt_iff.mp pending).1)⟩
  | condition member => exact ⟨slots_settled rests, accepted.admits (.condition member)⟩
  | operand member condition_eq side_eq =>
      have whole := accepted.admits (.condition member)
      rw [condition_eq] at whole
      refine ⟨slots_settled rests, whole.of_subset fun node node_mem => ?_⟩
      rcases side_eq with rfl | rfl <;> simp [Expr.nodes, node_mem]
  | trigger policies_eq =>
      refine ⟨PolicySetting.slots_run (slots_settled rests) _, accepted.admits (.trigger ?_)⟩
      rw [policies_eq]
      exact List.mem_append_right _ List.mem_cons_self
  | assigned performs =>
      have standing := performs.standing rests
      exact ⟨standing.slots, accepted.admits
        (.assigned standing.member (standing.nodes _ (Action.mem_nodes_self _)))⟩
  | argument performs entry_mem =>
      have standing := performs.standing rests
      exact ⟨standing.slots, accepted.admits
        (.argument standing.member (standing.nodes _ (Action.mem_nodes_self _)) entry_mem)⟩
  | recurrence member =>
      exact ⟨PolicySetting.slots_run (slots_settled rests) _,
        accepted.admits (.equation ((Model.mem_equationsOf_iff _ _ _).mp member).1)⟩

end Slots

/-! ## Where names are -/

section Places

open PolicySetting (HasSlots)

variable {engine : Engine} {value : Parameter → Value} {scalars : Bindings Value}
  {marks : List Diagnostic} {state : SimulationState} {name : String}

theorem contains_parametersBy_iff : (parametersBy engine.model value).contains name = true ↔
    name ∈ engine.model.parameters.map Parameter.name := by
  have names_eq : (engine.model.parameters.map fun parameter =>
      (parameter.name, value parameter)).map Prod.fst =
        engine.model.parameters.map Parameter.name := by
    rw [List.map_map]
    rfl
  have distinct := engine.accepted.nodup_parameters
  rw [← names_eq] at distinct
  rw [Bindings.contains_iff_mem_names, parametersBy, Bindings.names_ofList distinct, names_eq]

theorem contains_scalars_iff
    (solved : engine.solveScalars (parametersBy engine.model value) = .ok (scalars, marks)) :
    scalars.contains name = true ↔ name ∈ engine.model.scalars := by
  rw [Bindings.contains_iff_mem_names, mem_names_iff_of_solveScalars solved]

theorem hasVariable_iff_of_slots (slots : HasSlots engine.model.variableNames state) :
    state.hasVariable name = true ↔ name ∈ engine.model.variableNames := by
  rw [SimulationState.hasVariable_iff, slots.names_eq]

/-- Where the slots are, every declared name is in its place. -/
theorem covers_view
    (solved : engine.solveScalars (parametersBy engine.model value) = .ok (scalars, marks))
    (slots : HasSlots engine.model.variableNames state) (timestep : Nat) :
    ((engine.environment (parametersBy engine.model value) scalars).view timestep state).Covers
      (Validation.scope engine.model) where
  parameter _ declared := contains_parametersBy_iff.mpr declared
  scalar _ declared := (contains_scalars_iff solved).mpr declared
  series _ declared := (hasVariable_iff_of_slots slots).mpr declared

/-- A declared name is in exactly one place: no equation defines a parameter, and no name is both a
scalar and a variable. -/
theorem count_places
    (solved : engine.solveScalars (parametersBy engine.model value) = .ok (scalars, marks))
    (names_eq : state.series.names = engine.model.variableNames)
    (declared : (Validation.scope engine.model).knows name = true) :
    [(parametersBy engine.model value).contains name, scalars.contains name,
      state.hasVariable name].count true = 1 := by
  have accepted := engine.accepted
  have parameter_iff : (parametersBy engine.model value).contains name = true ↔
      name ∈ engine.model.parameters.map Parameter.name := contains_parametersBy_iff
  have scalar_iff : scalars.contains name = true ↔ name ∈ engine.model.scalars :=
    contains_scalars_iff solved
  have variable_iff : state.hasVariable name = true ↔ name ∈ engine.model.variableNames := by
    rw [SimulationState.hasVariable_iff, names_eq]
  have no_parameter {equation : Equation} (member : equation ∈ engine.model.equations)
      (target_eq : equation.target = name) :
      (parametersBy engine.model value).contains name = false := by
    rw [Bool.eq_false_iff, Ne, parameter_iff, ← target_eq]
    exact accepted.target_ne_parameter member
  rcases Validation.Scope.knows_iff.mp declared with parameter | scalar | indexed
  · have held := parameter_iff.mpr parameter
    have no_scalar : scalars.contains name = false := by
      rw [Bool.eq_false_iff, Ne, scalar_iff, Model.mem_scalars_iff]
      rintro ⟨equation, member, _, target_eq⟩
      rw [no_parameter member target_eq] at held
      cases held
    have no_variable : state.hasVariable name = false := by
      rw [Bool.eq_false_iff, Ne, variable_iff, Model.mem_variableNames_iff]
      rintro ⟨equation, member, _, target_eq⟩
      rw [no_parameter member target_eq] at held
      cases held
    rw [held, no_scalar, no_variable]
    rfl
  · obtain ⟨equation, member, _, target_eq⟩ := (Model.mem_scalars_iff _ _).mp scalar
    have no_variable : state.hasVariable name = false := by
      rw [Bool.eq_false_iff, Ne, variable_iff]
      exact fun indexed => accepted.not_mem_scalars_of_mem_variableNames indexed scalar
    rw [no_parameter member target_eq, scalar_iff.mpr scalar, no_variable]
    rfl
  · obtain ⟨equation, member, _, target_eq⟩ := (Model.mem_variableNames_iff _ _).mp indexed
    have no_scalar : scalars.contains name = false := by
      rw [Bool.eq_false_iff, Ne, scalar_iff]
      exact accepted.not_mem_scalars_of_mem_variableNames indexed
    rw [no_parameter member target_eq, no_scalar, variable_iff.mpr indexed]
    rfl

end Places

/-! ## Soundness -/

/-- The checks of a model are sound.  At every timestep that a run reaches, every name that an
expression of the model refers to is a parameter, a scalar or a variable, and only one of them; no
evaluation comes to an unknown name or function; no action of a policy does so or stands too deep;
and every write succeeds. -/
theorem validation_sound {engine : Engine} (regular : engine.functions.Regular)
    {value : Parameter → Value} {scalars : Bindings Value} {marks : List Diagnostic}
    (solved : engine.solveScalars (parametersBy engine.model value) = .ok (scalars, marks))
    {checkpoint : Checkpoint} {position : Position}
    (reaches : engine.Reaches (engine.environment (parametersBy engine.model value) scalars)
      checkpoint position) :
    let environment := engine.environment (parametersBy engine.model value) scalars
    (∀ expr, engine.model.HasExpr expr → ∀ name, expr.RefersTo name →
      [environment.parameters.contains name, environment.scalars.contains name,
        position.state.hasVariable name].count true = 1) ∧
    (∀ state expr, engine.Evaluates environment position state expr →
      (environment.view position.timestep state).RegularAt expr) ∧
    (∀ policy depth action effect,
      engine.PerformsAt environment position policy depth action effect →
        ∀ error, ((engine.policySetting environment position.timestep).perform policy.name depth
          action effect).1 = .error error → error.isRuledOut = false) ∧
    ∀ state name, engine.Writes environment position state name →
      ∀ written, ∃ next, state.setCurrent name written = .ok next := by
  intro environment
  have accepted := engine.accepted
  have rests := reaches.rests (unhidden_of_solveScalars solved)
  have regularAt {state : SimulationState}
      (slots : PolicySetting.HasSlots engine.model.variableNames state) {expr : Expr}
      (admits : (Validation.scope engine.model).Admits engine.functions expr) :
      (environment.view position.timestep state).RegularAt expr :=
    (covers_view solved slots position.timestep).regularAt regular admits
  have sound : (engine.policySetting environment position.timestep).Sound engine.model :=
    fun expr given state slots => regularAt slots (accepted.admits given)
  refine ⟨?_, ?_, ?_, ?_⟩
  · intro expr given name refers
    exact count_places solved rests.names_eq ((accepted.admits given).knows_of_refersTo refers)
  · intro state expr evaluates
    obtain ⟨slots, admits⟩ := evaluates.checked rests
    exact regularAt slots admits
  · intro policy depth action effect performs error failed
    exact (performs.standing rests).regular_perform accepted sound failed
  · intro state name writes written
    cases writes with
    | equation member =>
        obtain ⟨pending, slots⟩ := slots_visit rests member
        exact slots.exists_setCurrent (mem_variableNames_of_mem_pendingAt pending) written
    | assigned performs =>
        have standing := performs.standing rests
        exact standing.slots.exists_setCurrent (accepted.mem_variableNames_of_assign
          standing.member (standing.nodes _ (Action.mem_nodes_self _))) written

/-- A policy that assigns to a variable and reports it, one block inside another. -/
def raisingPolicy : Policy :=
  ⟨"raise", .boolean true,
    .block [.assign "level" (.ident "gain"),
      .block [.emit "raised" (Bindings.empty.insert "level" (.ident "level"))]]⟩

/-- A model that calls a function, and has this policy. -/
def raisingModel : Model :=
  { Model.blank "raising" 2 with
    parameters := [⟨"gain", none, .literal (.number 2.0)⟩]
    equations :=
      [⟨"base", .scalar, .call "max" [.ident "gain"], []⟩,
        ⟨"level", .initial, .ident "base", []⟩,
        ⟨"level", .recurrence, .binary .add (.ident "level") (.ident "gain"), []⟩]
    constraints := [⟨"low", .binary .lt (.ident "level") (.number 1.0), .warning, none⟩]
    policies := [raisingPolicy] }

def raisingEngine : Engine :=
  .ofValid raisingModel Catalogue.standard.toRegistry .default validate_default rfl

/-- What the policy does first. -/
theorem exists_performsAt_raising (environment : Environment) :
    ∃ effect, raisingEngine.PerformsAt environment raisingEngine.start raisingPolicy 1
      (.assign "level" (.ident "gain")) effect := by
  have bound : 0 < EngineConfig.default.blockLimit.toNat := by decide
  have none_before : raisingModel.policies = [] ++ raisingPolicy :: [] := rfl
  exact ⟨_, .member (.fired none_before rfl) bound (List.nil_append _).symm rfl⟩

theorem validation_sound_raising : ∃ (scalars : Bindings Value) (effect : PolicyEffect),
    let environment :=
      raisingEngine.environment (parametersBy raisingModel Parameter.pointValue) scalars
    [environment.parameters.contains "base", environment.scalars.contains "base",
      raisingEngine.start.state.hasVariable "base"].count true = 1 ∧
    raisingEngine.PerformsAt environment raisingEngine.start raisingPolicy 1
      (.assign "level" (.ident "gain")) effect ∧
    (environment.view 0 effect.state).RegularAt (.ident "gain") ∧
    (∀ error, ((raisingEngine.policySetting environment 0).perform "raise" 1
      (.assign "level" (.ident "gain")) effect).1 = .error error → error.isRuledOut = false) ∧
    ∃ next, effect.state.setCurrent "level" (.number 2.0) = .ok next := by
  have solved : ∃ scalars, raisingEngine.solveScalars
      (parametersBy raisingEngine.model Parameter.pointValue) = .ok (scalars, []) := ⟨_, rfl⟩
  obtain ⟨scalars, solved⟩ := solved
  have reaches : raisingEngine.Reaches
      (raisingEngine.environment (parametersBy raisingEngine.model Parameter.pointValue) scalars)
      .uninterrupted raisingEngine.start := ⟨.refl, by decide, rfl⟩
  obtain ⟨places, evaluated, performed, written⟩ :=
    validation_sound (Catalogue.regular_toRegistry _) solved reaches
  obtain ⟨effect, performs⟩ := exists_performsAt_raising
    (raisingEngine.environment (parametersBy raisingEngine.model Parameter.pointValue) scalars)
  exact ⟨scalars, effect, places _ (.equation (.tail _ (.head _))) _ (Expr.refersTo_ident "base"),
    performs, evaluated _ _ (.assigned performs), performed _ _ _ _ performs,
    written _ _ (.assigned performs) _⟩

end Engine

end EconModel
