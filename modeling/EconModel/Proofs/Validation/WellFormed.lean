import EconModel.Proofs.Evaluation.Checked
import EconModel.Proofs.PolicyRun

/-!
# Well-formed models

What it means for a model to be in order, said of the model alone: which names may be shared, what
has to be defined, and what may stand in an expression or an action at any depth.  The main
statement says that the validation accepts exactly these models, whatever functions there are,
however deep blocks may stand, and whichever of several clashes would be reported first.
-/

namespace EconModel

/-! ## Parts of expressions and actions -/

namespace Expr

/-- An expression stands in another one, at any depth. -/
inductive Within (part : Expr) : Expr → Prop where
  | self : Within part part
  | operand {op : UnaryOp} {operand : Expr} : Within part operand → Within part (.unary op operand)
  | left {op : BinaryOp} {left right : Expr} : Within part left →
      Within part (.binary op left right)
  | right {op : BinaryOp} {left right : Expr} : Within part right →
      Within part (.binary op left right)
  | condition {condition whenTrue whenFalse : Expr} : Within part condition →
      Within part (.conditional condition whenTrue whenFalse)
  | whenTrue {condition whenTrue whenFalse : Expr} : Within part whenTrue →
      Within part (.conditional condition whenTrue whenFalse)
  | whenFalse {condition whenTrue whenFalse : Expr} : Within part whenFalse →
      Within part (.conditional condition whenTrue whenFalse)
  | argument {function : String} {arguments : List Expr} {argument : Expr} :
      argument ∈ arguments → Within part argument → Within part (.call function arguments)

theorem mem_nodes_self (expr : Expr) : expr ∈ expr.nodes := by
  cases expr <;> simp [nodes]

/-- The nodes of an expression are everything that stands in it. -/
theorem mem_nodes_iff {part expr : Expr} : part ∈ expr.nodes ↔ part.Within expr := by
  constructor
  · intro member
    induction expr with
    | number | boolean | text | ident | lagged | time =>
        rw [nodes.eq_def, List.mem_singleton] at member
        exact member ▸ .self
    | unary op operand ih =>
        rw [nodes, List.mem_cons] at member
        rcases member with rfl | inner
        · exact .self
        · exact .operand (ih inner)
    | binary op left right ih_left ih_right =>
        rw [nodes, List.mem_cons, List.mem_append] at member
        rcases member with rfl | inner | inner
        · exact .self
        · exact .left (ih_left inner)
        · exact .right (ih_right inner)
    | conditional condition whenTrue whenFalse ih_condition ih_true ih_false =>
        rw [nodes, List.mem_cons, List.mem_append, List.mem_append] at member
        rcases member with rfl | (inner | inner) | inner
        · exact .self
        · exact .condition (ih_condition inner)
        · exact .whenTrue (ih_true inner)
        · exact .whenFalse (ih_false inner)
    | call function arguments ih =>
        rw [nodes, List.mem_cons, mem_nodesOfAll_iff] at member
        rcases member with rfl | ⟨argument, argument_mem, inner⟩
        · exact .self
        · exact .argument argument_mem (ih argument argument_mem inner)
  · intro within
    induction within with
    | self => exact mem_nodes_self part
    | operand _ ih | left _ ih | right _ ih | condition _ ih | whenTrue _ ih | whenFalse _ ih =>
        simp [nodes, ih]
    | argument member _ ih => exact mem_nodes_call member ih

end Expr

namespace Action

/-- An action stands in another one, inside any number of blocks. -/
inductive Within (part : Action) : Action → Prop where
  | self : Within part part
  | member {actions : List Action} {action : Action} : action ∈ actions → Within part action →
      Within part (.block actions)

/-- The nodes of an action are everything that stands in it. -/
theorem mem_nodes_iff {part action : Action} : part ∈ action.nodes ↔ part.Within action := by
  constructor
  · intro member
    induction action with
    | assign | emit =>
        rw [nodes.eq_def, List.mem_singleton] at member
        exact member ▸ .self
    | block actions ih =>
        rw [nodes, List.mem_cons, mem_nodesOfAll_iff] at member
        rcases member with rfl | ⟨action, action_mem, inner⟩
        · exact .self
        · exact .member action_mem (ih action action_mem inner)
  · intro within
    induction within with
    | self => cases part <;> simp [nodes]
    | member action_mem _ ih => exact mem_nodes_block action_mem ih

end Action

/-! ## Well-formed models -/

namespace Model

/-- Names that can be told apart: none is blank, and no two are equal. -/
structure Distinguishable (names : List String) : Prop where
  named : ∀ name ∈ names, Text.isBlank name = false
  distinct : names.Nodup

/-- A name belongs to a parameter. -/
def DeclaresParameter (model : Model) (name : String) : Prop :=
  ∃ parameter ∈ model.parameters, parameter.name = name

/-- A name belongs to a scalar. -/
def DeclaresScalar (model : Model) (name : String) : Prop :=
  ∃ equation ∈ model.equations, equation.kind = .scalar ∧ equation.target = name

/-- A name belongs to a variable, which has values over time. -/
def DeclaresVariable (model : Model) (name : String) : Prop :=
  ∃ equation ∈ model.equations, equation.kind ≠ .scalar ∧ equation.target = name

/-- A name belongs to a parameter, a scalar or a variable. -/
def Declares (model : Model) (name : String) : Prop :=
  model.DeclaresParameter name ∨ model.DeclaresScalar name ∨ model.DeclaresVariable name

/-- Everything that an expression refers to, at any depth, is there. -/
structure Resolves (model : Model) (functions : FunctionRegistry) (expr : Expr) : Prop where
  ident : ∀ name, (Expr.ident name).Within expr → model.Declares name
  /-- What is looked up at a lag has values over time. -/
  lagged : ∀ name lag, (Expr.lagged name lag).Within expr → model.DeclaresVariable name
  call : ∀ function arguments, (Expr.call function arguments).Within expr →
    functions.contains function = true

/-- An equation is in order. -/
structure SoundEquation (model : Model) (functions : FunctionRegistry) (equation : Equation) :
    Prop where
  named : Text.isBlank equation.target = false
  notParameter : ¬ model.DeclaresParameter equation.target
  /-- A recurrence has something to start from. -/
  started : equation.kind = .recurrence →
    ∃ start ∈ model.equations, start.target = equation.target ∧
      (start.kind = .initial ∨ start.kind = .current)
  resolves : model.Resolves functions equation.expr
  dependencies : ∀ name ∈ equation.dependencies, model.Declares name
  /-- An initial value does not look back. -/
  unlagged : equation.kind = .initial →
    ∀ name lag, (Expr.lagged name lag).Within equation.expr → lag = 0

/-- A policy is in order. -/
structure SoundPolicy (model : Model) (functions : FunctionRegistry) (blockLimit : UInt64)
    (policy : Policy) : Prop where
  trigger : model.Resolves functions policy.trigger
  /-- Its blocks stand no deeper inside one another than they may. -/
  depth : policy.action.depth ≤ blockLimit.toNat
  assign : ∀ target value, (Action.assign target value).Within policy.action →
    model.DeclaresVariable target ∧ model.Resolves functions value
  emit : ∀ name arguments, (Action.emit name arguments).Within policy.action →
    Text.isBlank name = false ∧
      ∀ entry ∈ arguments.entries, model.Resolves functions entry.2

/-- A model is in order, given the functions it may call and how deep blocks may stand. -/
structure WellFormed (model : Model) (functions : FunctionRegistry) (blockLimit : UInt64) :
    Prop where
  named : Text.isBlank model.name = false
  horizon : 1 ≤ model.horizon.toNat
  parameters : Distinguishable (model.parameters.map Parameter.name)
  constraints : Distinguishable (model.constraints.map Constraint.name)
  policies : Distinguishable (model.policies.map Policy.name)
  /-- The numbers of every distribution are in order. -/
  marginals : ∀ parameter ∈ model.parameters, ∀ marginal,
    parameter.marginal? = some marginal → marginal.validate = .ok ()
  /-- No variable has two equations of one kind. -/
  single : model.equations.Pairwise fun left right =>
    ¬ (left.target = right.target ∧ left.kind = right.kind)
  /-- No name is both a scalar and a variable. -/
  apart : ∀ name, model.DeclaresScalar name → ¬ model.DeclaresVariable name
  equation : ∀ equation ∈ model.equations, model.SoundEquation functions equation
  condition : ∀ constraint ∈ model.constraints, model.Resolves functions constraint.condition
  policy : ∀ policy ∈ model.policies, model.SoundPolicy functions blockLimit policy

/-! ## What each check means -/

open Validation

variable {model : Model} {functions : FunctionRegistry} {blockLimit : UInt64}

theorem distinguishable_iff {declaration : Declaration} {names : List String} :
    checkDistinct declaration [] names = .ok () ↔ Distinguishable names := by
  rw [checkDistinct_eq_ok_iff]
  constructor
  · rintro ⟨named, distinct⟩
    exact ⟨fun name member => (named name member).1, distinct⟩
  · rintro ⟨named, distinct⟩
    exact ⟨fun name member => ⟨named name member, List.not_mem_nil⟩, distinct⟩

theorem declaresParameter_iff {name : String} :
    model.DeclaresParameter name ↔ name ∈ model.parameters.map Parameter.name :=
  List.mem_map.symm

theorem declaresScalar_iff {name : String} : model.DeclaresScalar name ↔ name ∈ model.scalars :=
  (model.mem_scalars_iff name).symm

theorem declaresVariable_iff {name : String} :
    model.DeclaresVariable name ↔ name ∈ model.variableNames := by
  rw [mem_variableNames_iff, DeclaresVariable]
  refine exists_congr fun equation => and_congr_right fun _ => and_congr_left fun _ => ?_
  cases equation.kind <;> simp [EquationKind.isTimeIndexed]

theorem declares_iff {name : String} : model.Declares name ↔ (scope model).knows name = true := by
  rw [Scope.knows_iff, Declares, declaresParameter_iff, declaresScalar_iff, declaresVariable_iff]
  rfl

theorem resolves_iff {expr : Expr} :
    model.Resolves functions expr ↔ (scope model).Admits functions expr := by
  constructor
  · intro resolves
    exact {
      ident := fun name node => declares_iff.mp (resolves.ident name (Expr.mem_nodes_iff.mp node))
      lagged := fun name lag node =>
        declaresVariable_iff.mp (resolves.lagged name lag (Expr.mem_nodes_iff.mp node))
      call := fun function arguments node =>
        resolves.call function arguments (Expr.mem_nodes_iff.mp node) }
  · intro admits
    exact {
      ident := fun name within =>
        declares_iff.mpr (admits.ident name (Expr.mem_nodes_iff.mpr within))
      lagged := fun name lag within =>
        declaresVariable_iff.mpr (admits.lagged name lag (Expr.mem_nodes_iff.mpr within))
      call := fun function arguments within =>
        admits.call function arguments (Expr.mem_nodes_iff.mpr within) }

theorem laggedName?_eq_none_iff {expr : Expr} :
    laggedName? expr = none ↔ ∀ name lag, (Expr.lagged name lag).Within expr → lag = 0 := by
  rw [laggedName?, List.findSome?_eq_none_iff]
  constructor
  · intro unlagged name lag within
    have node := unlagged _ (Expr.mem_nodes_iff.mpr within)
    by_contra nonzero
    have positive : 0 < lag := UInt64.pos_iff_ne_zero.mpr nonzero
    simp [positive] at node
  · intro unlagged node member
    cases node with
    | lagged name lag =>
        have zero := unlagged name lag (Expr.mem_nodes_iff.mp member)
        simp [zero]
    | number | boolean | text | ident | time | unary | binary | conditional | call => rfl

theorem checkEquation_eq_ok_iff {equation : Equation} :
    checkEquation (scope model) functions equation = .ok () ↔
      model.Resolves functions equation.expr ∧
        (∀ name ∈ equation.dependencies, model.Declares name) ∧
        (equation.kind = .initial →
          ∀ name lag, (Expr.lagged name lag).Within equation.expr → lag = 0) := by
  have dependencies_iff :
      (equation.dependencies.find? fun name => !(scope model).knows name) = none ↔
        ∀ name ∈ equation.dependencies, model.Declares name := by
    simp [declares_iff]
  have starting_iff (check : Check) :
      (if equation.kind = .initial then check else pure ()) = .ok () ↔
        (equation.kind = .initial → check = .ok ()) := by
    split <;> simp_all [pure, Except.pure]
  rw [checkEquation, bind_eq_ok_iff, bind_eq_ok_iff, Scope.checkExpr_eq_ok_iff, ← resolves_iff,
    checkNone_eq_ok_iff, Option.map_eq_none_iff, dependencies_iff, starting_iff,
    checkNone_eq_ok_iff, Option.map_eq_none_iff, laggedName?_eq_none_iff]

theorem soundPolicy_iff {policy : Policy} :
    model.SoundPolicy functions blockLimit policy ↔
      checkPolicy (scope model) functions blockLimit policy = .ok () := by
  rw [checkPolicy_eq_ok_iff, ← resolves_iff]
  constructor
  · rintro ⟨trigger, depth, assign, emit⟩
    refine ⟨trigger, depth, fun node member => ?_⟩
    have within := Action.mem_nodes_iff.mp member
    cases node with
    | assign target value =>
        obtain ⟨declared, resolves⟩ := assign target value within
        exact checkAction_assign_eq_ok_iff.mpr
          ⟨declaresVariable_iff.mp declared, resolves_iff.mp resolves⟩
    | emit name arguments =>
        obtain ⟨named, resolves⟩ := emit name arguments within
        exact checkAction_emit_eq_ok_iff.mpr
          ⟨named, fun entry entry_mem => resolves_iff.mp (resolves entry entry_mem)⟩
    | block actions => rfl
  · rintro ⟨trigger, depth, nodes⟩
    refine ⟨trigger, depth, fun target value within => ?_, fun name arguments within => ?_⟩
    · have passed := nodes _ (Action.mem_nodes_iff.mpr within)
      obtain ⟨declared, admits⟩ := checkAction_assign_eq_ok_iff.mp passed
      exact ⟨declaresVariable_iff.mpr declared, resolves_iff.mpr admits⟩
    · have passed := nodes _ (Action.mem_nodes_iff.mpr within)
      obtain ⟨named, admits⟩ := checkAction_emit_eq_ok_iff.mp passed
      exact ⟨named, fun entry entry_mem => resolves_iff.mpr (admits entry entry_mem)⟩

theorem marginals_iff {parameter : Parameter} :
    checkParameter parameter = .ok () ↔
      ∀ marginal, parameter.marginal? = some marginal → marginal.validate = .ok () := by
  rw [checkParameter]
  cases parameter.marginal? with
  | none => simp
  | some marginal => cases checked : marginal.validate <;> simp [checked]

theorem hasEquation_or_iff {target : String} :
    model.hasEquation target .initial = true ∨ model.hasEquation target .current = true ↔
      ∃ start ∈ model.equations, start.target = target ∧
        (start.kind = .initial ∨ start.kind = .current) := by
  rw [hasEquation_iff, hasEquation_iff, ← exists_or]
  refine exists_congr fun start => ?_
  tauto

/-! ## The validation -/

/-- The validation accepts exactly the well-formed models. -/
theorem validateBy_eq_ok_iff_wellFormed (enumeration : Enumeration) (model : Model)
    (functions : FunctionRegistry) (blockLimit : UInt64) :
    model.validateBy enumeration functions blockLimit = .ok () ↔
      model.WellFormed functions blockLimit := by
  rw [validateBy_eq_ok_iff]
  constructor
  · intro accepted
    obtain ⟨⟨targets, single⟩, started, apart⟩ := checkEquations_eq_ok_iff.mp accepted.targets
    refine {
      named := accepted.named
      horizon := Nat.one_le_iff_ne_zero.mpr fun zero =>
        accepted.horizon_ne (UInt64.toNat_inj.mp zero)
      parameters := distinguishable_iff.mp accepted.parameters
      constraints := distinguishable_iff.mp accepted.constraints
      policies := distinguishable_iff.mp accepted.policies
      marginals := fun parameter member => marginals_iff.mp (accepted.marginals parameter member)
      single := single.imp fun different same => ?_
      apart := fun name scalar declared =>
        apart name (declaresScalar_iff.mp scalar) (declaresVariable_iff.mp declared)
      equation := fun equation member => ?_
      condition := fun constraint member =>
        resolves_iff.mpr (checkConstraint_eq_ok_iff.mp (accepted.constraint constraint member))
      policy := fun policy member => soundPolicy_iff.mpr (accepted.policy policy member) }
    · rw [sameDefinition_iff.mpr same] at different
      cases different
    · obtain ⟨named, notParameter⟩ := targets equation member
      obtain ⟨resolves, dependencies, unlagged⟩ :=
        checkEquation_eq_ok_iff.mp (accepted.equation equation member)
      exact {
        named
        notParameter := fun declared => notParameter (declaresParameter_iff.mp declared)
        started := fun recurrence => hasEquation_or_iff.mp (started equation member recurrence)
        resolves
        dependencies
        unlagged }
  · intro wellFormed
    refine {
      named := wellFormed.named
      horizon_ne := fun zero => ?_
      parameters := distinguishable_iff.mpr wellFormed.parameters
      constraints := distinguishable_iff.mpr wellFormed.constraints
      policies := distinguishable_iff.mpr wellFormed.policies
      marginals := fun parameter member =>
        marginals_iff.mpr (wellFormed.marginals parameter member)
      targets := checkEquations_eq_ok_iff.mpr ⟨⟨fun equation member => ?_, ?_⟩, ?_, ?_⟩
      equation := fun equation member => ?_
      constraint := fun constraint member =>
        checkConstraint_eq_ok_iff.mpr (resolves_iff.mp (wellFormed.condition constraint member))
      policy := fun policy member => soundPolicy_iff.mp (wellFormed.policy policy member) }
    · have positive := wellFormed.horizon
      rw [zero] at positive
      cases positive
    · have sound := wellFormed.equation equation member
      exact ⟨sound.named, fun declared => sound.notParameter (declaresParameter_iff.mpr declared)⟩
    · refine wellFormed.single.imp fun different => ?_
      rw [Bool.eq_false_iff]
      exact fun same => different (sameDefinition_iff.mp same)
    · exact fun equation member recurrence =>
        hasEquation_or_iff.mpr ((wellFormed.equation equation member).started recurrence)
    · exact fun name scalar declared =>
        wellFormed.apart name (declaresScalar_iff.mpr scalar) (declaresVariable_iff.mpr declared)
    · have sound := wellFormed.equation equation member
      exact checkEquation_eq_ok_iff.mpr ⟨sound.resolves, sound.dependencies, sound.unlagged⟩

end Model

end EconModel
