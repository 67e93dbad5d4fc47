import EconModel.Validation
import Mathlib.Data.List.Pairwise
import Mathlib.Data.List.Perm.Basic
import Mathlib.Data.List.Nodup

/-!
# Accepted models

A model is accepted if every check of the validation passes.  Of the checks of equations this file
says what they mean: no variable has two equations of one kind, no name is both a scalar and a
variable or both a parameter and a variable, and every recurrence has something to start from.  None
of it depends on the order of the equations, so an accepted model stays accepted when its equations
are reordered.
-/

namespace EconModel

namespace Validation

theorem bind_eq_ok_iff {check : Check} {next : Unit → Check} :
    (check >>= next) = .ok () ↔ check = .ok () ∧ next () = .ok () := by
  cases check with
  | ok _ => exact ⟨fun passed => ⟨rfl, passed⟩, And.right⟩
  | error defect =>
      constructor
      · intro passed
        cases passed
      · rintro ⟨passed, _⟩
        cases passed

theorem ite_error_eq_ok_iff {condition : Prop} [Decidable condition] {defect : ModelDefect}
    {check : Check} :
    (if condition then .error defect else check) = .ok () ↔ ¬ condition ∧ check = .ok () := by
  by_cases holds : condition <;> simp [holds]

theorem checkNone_eq_ok_iff {defect : Option ModelDefect} :
    checkNone defect = .ok () ↔ defect = none := by
  cases defect <;> simp [checkNone]

theorem checkAll_eq_ok_iff {α : Type} {check : α → Check} {entries : List α} :
    checkAll check entries = .ok () ↔ ∀ entry ∈ entries, check entry = .ok () := by
  induction entries with
  | nil => simp [checkAll]
  | cons entry rest ih => rw [checkAll, bind_eq_ok_iff, ih, List.forall_mem_cons]

theorem checkName_eq_ok_iff {declaration : Declaration} {name : String} :
    checkName declaration name = .ok () ↔ Text.isBlank name = false := by
  cases blank : Text.isBlank name <;> simp [checkName, blank]

theorem checkDistinct_eq_ok_iff {declaration : Declaration} {seen names : List String} :
    checkDistinct declaration seen names = .ok () ↔
      (∀ name ∈ names, Text.isBlank name = false ∧ name ∉ seen) ∧ names.Nodup := by
  induction names generalizing seen with
  | nil => simp [checkDistinct]
  | cons name rest ih =>
      rw [checkDistinct, bind_eq_ok_iff, checkName_eq_ok_iff, ite_error_eq_ok_iff, ih,
        List.forall_mem_cons, List.nodup_cons]
      simp only [List.contains_iff_mem, List.mem_cons, not_or]
      constructor
      · rintro ⟨named, unseen, others, distinct⟩
        exact ⟨⟨⟨named, unseen⟩, fun other member => ⟨(others other member).1,
            (others other member).2.2⟩⟩,
          fun member => (others name member).2.1 rfl, distinct⟩
      · rintro ⟨⟨⟨named, unseen⟩, others⟩, absent, distinct⟩
        exact ⟨named, unseen, fun other member => ⟨(others other member).1,
          fun same => absent (same ▸ member), (others other member).2⟩, distinct⟩

/-! ## Targets of equations -/

theorem sameDefinition_iff {left right : Equation} :
    sameDefinition left right = true ↔ left.target = right.target ∧ left.kind = right.kind := by
  simp [sameDefinition]

theorem sameDefinition_comm (left right : Equation) :
    sameDefinition left right = sameDefinition right left := by
  rw [Bool.eq_iff_iff, sameDefinition_iff, sameDefinition_iff, eq_comm, @eq_comm _ left.kind]

theorem checkTargets_eq_ok_iff {parameters : List String} {seen equations : List Equation} :
    checkTargets parameters seen equations = .ok () ↔
      (∀ equation ∈ equations, Text.isBlank equation.target = false ∧
        equation.target ∉ parameters ∧
        ∀ earlier ∈ seen, sameDefinition equation earlier = false) ∧
      equations.Pairwise fun left right => sameDefinition left right = false := by
  induction equations generalizing seen with
  | nil => simp [checkTargets]
  | cons equation rest ih =>
      rw [checkTargets, bind_eq_ok_iff, checkName_eq_ok_iff, ite_error_eq_ok_iff,
        ite_error_eq_ok_iff, ih, List.forall_mem_cons, List.pairwise_cons]
      simp only [List.contains_iff_mem, List.any_eq_true, not_exists, not_and,
        Bool.not_eq_true, List.forall_mem_cons]
      constructor
      · rintro ⟨named, apart, unseen, others, distinct⟩
        refine ⟨⟨⟨named, apart, unseen⟩, fun other member => ?_⟩, fun other member => ?_, distinct⟩
        · exact ⟨(others other member).1, (others other member).2.1, (others other member).2.2.2⟩
        · rw [sameDefinition_comm]
          exact (others other member).2.2.1
      · rintro ⟨⟨⟨named, apart, unseen⟩, others⟩, fresh, distinct⟩
        refine ⟨named, apart, unseen, fun other member => ?_, distinct⟩
        refine ⟨(others other member).1, (others other member).2.1, ?_, (others other member).2.2⟩
        rw [sameDefinition_comm]
        exact fresh other member

end Validation

namespace Model

open Validation

variable {model : Model}

theorem mem_firstOccurrences_iff (names : List String) (name : String) :
    name ∈ firstOccurrences names ↔ name ∈ names := by
  suffices collected : ∀ seen : List String,
      name ∈ names.foldl (fun seen name => if seen.contains name then seen else name :: seen) seen ↔
        name ∈ seen ∨ name ∈ names by
    rw [firstOccurrences, List.mem_reverse, collected]
    simp
  induction names with
  | nil => simp
  | cons first rest ih =>
      intro seen
      rw [List.foldl_cons, ih, List.mem_cons]
      split
      · next present =>
        have member : first ∈ seen := List.contains_iff_mem.mp present
        constructor
        · exact Or.imp_right Or.inr
        · rintro (old | rfl | new)
          · exact .inl old
          · exact .inl member
          · exact .inr new
      · rw [List.mem_cons, or_comm (a := name = first), or_assoc]

theorem nodup_firstOccurrences (names : List String) : (firstOccurrences names).Nodup := by
  suffices collected : ∀ seen : List String, seen.Nodup →
      (names.foldl (fun seen name => if seen.contains name then seen else name :: seen)
        seen).Nodup by
    rw [firstOccurrences, List.nodup_reverse]
    exact collected [] List.nodup_nil
  induction names with
  | nil => exact fun seen distinct => distinct
  | cons first rest ih =>
      intro seen distinct
      rw [List.foldl_cons]
      apply ih
      split
      · exact distinct
      · next absent =>
        rw [List.contains_iff_mem] at absent
        exact List.nodup_cons.mpr ⟨absent, distinct⟩

theorem nodup_variableNames (model : Model) : model.variableNames.Nodup :=
  nodup_firstOccurrences _

theorem mem_variableNames_iff (model : Model) (name : String) :
    name ∈ model.variableNames ↔
      ∃ equation ∈ model.equations,
        equation.kind.isTimeIndexed = true ∧ equation.target = name := by
  rw [variableNames, mem_firstOccurrences_iff]
  simp only [List.mem_map, List.mem_filter, and_assoc]

theorem mem_scalars_iff (model : Model) (name : String) :
    name ∈ model.scalars ↔
      ∃ equation ∈ model.equations, equation.kind = .scalar ∧ equation.target = name := by
  simp only [scalars, equationsOf, List.mem_map, List.mem_filter, decide_eq_true_eq, and_assoc]

theorem mem_equationsOf_iff (model : Model) (kind : EquationKind) (equation : Equation) :
    equation ∈ model.equationsOf kind ↔ equation ∈ model.equations ∧ equation.kind = kind := by
  simp [equationsOf]

theorem hasEquation_iff (model : Model) (target : String) (kind : EquationKind) :
    model.hasEquation target kind = true ↔
      ∃ equation ∈ model.equations, equation.kind = kind ∧ equation.target = target := by
  simp [hasEquation]

theorem mem_variableNames_of_hasEquation {model : Model} {name : String} {kind : EquationKind}
    (given : model.hasEquation name kind = true) (indexed : kind.isTimeIndexed = true) :
    name ∈ model.variableNames := by
  obtain ⟨equation, member, rfl, target_eq⟩ := (model.hasEquation_iff name kind).mp given
  exact (model.mem_variableNames_iff name).mpr ⟨equation, member, indexed, target_eq⟩

/-! ## Checks of a model -/

/-- Every check passes. -/
structure Accepted (enumeration : Enumeration) (model : Model) (functions : FunctionRegistry)
    (blockLimit : UInt64) : Prop where
  named : Text.isBlank model.name = false
  horizon_ne : model.horizon ≠ 0
  parameters : checkDistinct .parameter [] (model.parameters.map Parameter.name) = .ok ()
  constraints : checkDistinct .constraint [] (model.constraints.map Constraint.name) = .ok ()
  policies : checkDistinct .policy [] (model.policies.map Policy.name) = .ok ()
  /-- The distributions are in order. -/
  marginals : ∀ parameter ∈ model.parameters, checkParameter parameter = .ok ()
  /-- The targets of the equations are in order. -/
  targets : checkEquations enumeration model = .ok ()
  /-- The expressions of the equations are in order. -/
  equation : ∀ equation ∈ model.equations,
    checkEquation (scope model) functions equation = .ok ()
  /-- The conditions of the constraints are in order. -/
  constraint : ∀ constraint ∈ model.constraints,
    checkConstraint (scope model) functions constraint = .ok ()
  /-- The triggers and the actions of the policies are in order. -/
  policy : ∀ policy ∈ model.policies,
    checkPolicy (scope model) functions blockLimit policy = .ok ()

theorem validateBy_eq_ok_iff {enumeration : Enumeration} {functions : FunctionRegistry}
    {blockLimit : UInt64} :
    model.validateBy enumeration functions blockLimit = .ok () ↔
      Accepted enumeration model functions blockLimit := by
  have checks : model.validateBy enumeration functions blockLimit =
      if Text.isBlank model.name = true then .error .emptyModelName
      else if model.horizon = 0 then .error .zeroHorizon
      else
        checkDistinct .parameter [] (model.parameters.map Parameter.name) >>= fun _ =>
        checkDistinct .constraint [] (model.constraints.map Constraint.name) >>= fun _ =>
        checkDistinct .policy [] (model.policies.map Policy.name) >>= fun _ =>
        checkAll checkParameter model.parameters >>= fun _ =>
        checkEquations enumeration model >>= fun _ =>
        checkAll (checkEquation (scope model) functions) model.equations >>= fun _ =>
        checkAll (checkConstraint (scope model) functions) model.constraints >>= fun _ =>
        checkAll (checkPolicy (scope model) functions blockLimit) model.policies := by
    unfold validateBy
    split
    · rfl
    · split <;> rfl
  rw [checks]
  simp only [ite_error_eq_ok_iff, bind_eq_ok_iff, checkAll_eq_ok_iff, Bool.not_eq_true]
  constructor
  · rintro ⟨named, horizon_ne, parameters, constraints, policies, marginals, targets, equation,
      constraint, policy⟩
    exact ⟨named, horizon_ne, parameters, constraints, policies, marginals, targets, equation,
      constraint, policy⟩
  · rintro ⟨named, horizon_ne, parameters, constraints, policies, marginals, targets, equation,
      constraint, policy⟩
    exact ⟨named, horizon_ne, parameters, constraints, policies, marginals, targets, equation,
      constraint, policy⟩

theorem clashes_eq_nil_iff :
    clashes model = [] ↔ ∀ name ∈ model.scalars, name ∉ model.variableNames := by
  simp only [clashes, List.filter_eq_nil_iff, mem_firstOccurrences_iff, List.contains_iff_mem]

theorem unstarted?_eq_none_iff :
    unstarted? model = none ↔ ∀ equation ∈ model.equations, equation.kind = .recurrence →
      model.hasEquation equation.target .initial = true ∨
        model.hasEquation equation.target .current = true := by
  rw [unstarted?, List.find?_eq_none]
  refine forall_congr' fun equation => forall_congr' fun _ => ?_
  cases model.hasEquation equation.target .initial <;>
    cases model.hasEquation equation.target .current <;> simp

/-- The targets of the equations are in order if no name is blank or a parameter, no variable has
two equations of one kind, every recurrence has something to start from, and no name is both a
scalar and a variable. -/
theorem checkEquations_eq_ok_iff {enumeration : Enumeration} :
    checkEquations enumeration model = .ok () ↔
      ((∀ equation ∈ model.equations, Text.isBlank equation.target = false ∧
          equation.target ∉ model.parameters.map Parameter.name) ∧
        model.equations.Pairwise fun left right => sameDefinition left right = false) ∧
      (∀ equation ∈ model.equations, equation.kind = .recurrence →
        model.hasEquation equation.target .initial = true ∨
          model.hasEquation equation.target .current = true) ∧
      ∀ name ∈ model.scalars, name ∉ model.variableNames := by
  have clash_iff : (enumeration.order (clashes model)).head? = none ↔ clashes model = [] := by
    rw [List.head?_eq_none_iff]
    constructor
    · intro empty
      exact List.nil_perm.mp (empty ▸ enumeration.perm (clashes model))
    · intro empty
      exact List.perm_nil.mp (empty ▸ enumeration.perm (clashes model))
  rw [checkEquations, bind_eq_ok_iff, bind_eq_ok_iff, checkTargets_eq_ok_iff, checkNone_eq_ok_iff,
    checkNone_eq_ok_iff, Option.map_eq_none_iff, Option.map_eq_none_iff, unstarted?_eq_none_iff,
    clash_iff, clashes_eq_nil_iff]
  simp

namespace Accepted

variable {enumeration : Enumeration} {functions : FunctionRegistry} {blockLimit : UInt64}

theorem eq_of_target_of_kind (accepted : Accepted enumeration model functions blockLimit)
    {first second : Equation} (first_mem : first ∈ model.equations)
    (second_mem : second ∈ model.equations) (target_eq : first.target = second.target)
    (kind_eq : first.kind = second.kind) : first = second := by
  obtain ⟨⟨_, distinct⟩, _⟩ := checkEquations_eq_ok_iff.mp accepted.targets
  have symmetric : Std.Symm fun left right : Equation => sameDefinition left right = false :=
    ⟨fun left right different => (sameDefinition_comm right left).trans different⟩
  by_contra different
  have apart := distinct.forall first_mem second_mem different
  rw [sameDefinition_iff.mpr ⟨target_eq, kind_eq⟩] at apart
  cases apart

theorem nodup_equations (accepted : Accepted enumeration model functions blockLimit) :
    model.equations.Nodup := by
  obtain ⟨⟨_, distinct⟩, _⟩ := checkEquations_eq_ok_iff.mp accepted.targets
  refine distinct.imp ?_
  rintro left right different rfl
  rw [sameDefinition_iff.mpr ⟨rfl, rfl⟩] at different
  cases different

/-- Among equations whose targets tell their kinds, every target is there once. -/
theorem nodup_targets_filter (accepted : Accepted enumeration model functions blockLimit)
    (chosen : Equation → Bool)
    (kind_eq : ∀ left ∈ model.equations, ∀ right ∈ model.equations, chosen left = true →
      chosen right = true → left.target = right.target → left.kind = right.kind) :
    ((model.equations.filter chosen).map Equation.target).Nodup := by
  refine List.Nodup.map_on ?_ (accepted.nodup_equations.filter chosen)
  intro left left_mem right right_mem target_eq
  obtain ⟨left_mem, left_chosen⟩ := List.mem_filter.mp left_mem
  obtain ⟨right_mem, right_chosen⟩ := List.mem_filter.mp right_mem
  exact accepted.eq_of_target_of_kind left_mem right_mem target_eq
    (kind_eq left left_mem right right_mem left_chosen right_chosen target_eq)

theorem nodup_targets_equationsOf (accepted : Accepted enumeration model functions blockLimit)
    (kind : EquationKind) : ((model.equationsOf kind).map Equation.target).Nodup := by
  apply accepted.nodup_targets_filter
  intro left _ right _ left_kind right_kind _
  rw [of_decide_eq_true left_kind, of_decide_eq_true right_kind]

theorem not_mem_scalars_of_mem_variableNames
    (accepted : Accepted enumeration model functions blockLimit) {name : String}
    (declared : name ∈ model.variableNames) : name ∉ model.scalars := by
  obtain ⟨_, _, apart⟩ := checkEquations_eq_ok_iff.mp accepted.targets
  exact fun scalar => apart name scalar declared

theorem nodup_parameters (accepted : Accepted enumeration model functions blockLimit) :
    (model.parameters.map Parameter.name).Nodup :=
  (checkDistinct_eq_ok_iff.mp accepted.parameters).2

/-- No equation defines a parameter. -/
theorem target_ne_parameter (accepted : Accepted enumeration model functions blockLimit)
    {equation : Equation} (member : equation ∈ model.equations) :
    equation.target ∉ model.parameters.map Parameter.name := by
  obtain ⟨⟨targets, _⟩, _⟩ := checkEquations_eq_ok_iff.mp accepted.targets
  exact (targets equation member).2

theorem hasEquation_of_recurrence (accepted : Accepted enumeration model functions blockLimit)
    {equation : Equation} (member : equation ∈ model.equations)
    (recurrence : equation.kind = .recurrence) :
    model.hasEquation equation.target .initial = true ∨
      model.hasEquation equation.target .current = true := by
  obtain ⟨_, started, _⟩ := checkEquations_eq_ok_iff.mp accepted.targets
  exact started equation member recurrence

end Accepted

/-! ## Reordered equations -/

/-- Two scopes know the same names, and the same ones as variables. -/
structure ScopesAgree (left right : Scope) : Prop where
  knows_eq : left.knows = right.knows
  contains_eq : left.variableNames.contains = right.variableNames.contains

namespace ScopesAgree

variable {left right : Scope} {functions : FunctionRegistry}

theorem checkExpr_eq (agree : ScopesAgree left right) (location : String) (expr : Expr) :
    left.checkExpr functions location expr = right.checkExpr functions location expr := by
  have defects : left.nodeDefect? functions location = right.nodeDefect? functions location := by
    funext node
    cases node with
    | ident name => rw [Scope.nodeDefect?, Scope.nodeDefect?, agree.knows_eq]
    | lagged name lag =>
        rw [Scope.nodeDefect?, Scope.nodeDefect?, agree.knows_eq, agree.contains_eq]
    | number | boolean | text | time | unary | binary | conditional | call => rfl
  rw [Scope.checkExpr, Scope.checkExpr, defects]

theorem checkEquation_eq (agree : ScopesAgree left right) (equation : Equation) :
    checkEquation left functions equation = checkEquation right functions equation := by
  rw [checkEquation, checkEquation, agree.checkExpr_eq, agree.knows_eq]

theorem checkConstraint_eq (agree : ScopesAgree left right) (constraint : Constraint) :
    checkConstraint left functions constraint = checkConstraint right functions constraint :=
  agree.checkExpr_eq _ _

theorem checkAction_eq (agree : ScopesAgree left right) (policy : String) (action : Action) :
    checkAction left functions policy action = checkAction right functions policy action := by
  cases action with
  | assign target value => rw [checkAction, checkAction, agree.contains_eq, agree.checkExpr_eq]
  | emit name arguments => simp only [checkAction, agree.checkExpr_eq]
  | block actions => rfl

theorem checkPolicy_eq (agree : ScopesAgree left right) (blockLimit : UInt64) (policy : Policy) :
    checkPolicy left functions blockLimit policy =
      checkPolicy right functions blockLimit policy := by
  have actions : checkAction left functions policy.name = checkAction right functions policy.name :=
    funext fun action => agree.checkAction_eq policy.name action
  rw [checkPolicy, checkPolicy, agree.checkExpr_eq, actions]

end ScopesAgree

variable {equations : List Equation}

/-- A model with its equations in another order. -/
def reordered (model : Model) (equations : List Equation) : Model :=
  { model with equations }

theorem mem_variableNames_reordered_iff (perm : equations.Perm model.equations) (name : String) :
    name ∈ (model.reordered equations).variableNames ↔ name ∈ model.variableNames := by
  rw [mem_variableNames_iff, mem_variableNames_iff]
  exact exists_congr fun equation => and_congr_left' perm.mem_iff

theorem mem_scalars_reordered_iff (perm : equations.Perm model.equations) (name : String) :
    name ∈ (model.reordered equations).scalars ↔ name ∈ model.scalars := by
  rw [mem_scalars_iff, mem_scalars_iff]
  exact exists_congr fun equation => and_congr_left' perm.mem_iff

theorem hasEquation_reordered (perm : equations.Perm model.equations) (target : String)
    (kind : EquationKind) :
    (model.reordered equations).hasEquation target kind = model.hasEquation target kind := by
  rw [Bool.eq_iff_iff, hasEquation_iff, hasEquation_iff]
  exact exists_congr fun equation => and_congr_left' perm.mem_iff

theorem scopesAgree_reordered (perm : equations.Perm model.equations) :
    ScopesAgree (scope (model.reordered equations)) (scope model) := by
  have scalars_eq (name : String) :
      (model.reordered equations).scalars.contains name = model.scalars.contains name := by
    rw [Bool.eq_iff_iff, List.contains_iff_mem, List.contains_iff_mem,
      mem_scalars_reordered_iff perm]
  have variables_eq (name : String) : (model.reordered equations).variableNames.contains name =
      model.variableNames.contains name := by
    rw [Bool.eq_iff_iff, List.contains_iff_mem, List.contains_iff_mem,
      mem_variableNames_reordered_iff perm]
  refine ⟨funext fun name => ?_, funext variables_eq⟩
  simp only [Scope.knows, scope, scalars_eq, variables_eq]
  rfl

/-- An accepted model is accepted with its equations in any other order. -/
theorem Accepted.reordered {enumeration : Enumeration} {functions : FunctionRegistry}
    {blockLimit : UInt64} (accepted : Accepted enumeration model functions blockLimit)
    (perm : equations.Perm model.equations) :
    Accepted enumeration (model.reordered equations) functions blockLimit := by
  have agree := scopesAgree_reordered perm
  refine ⟨accepted.named, accepted.horizon_ne, accepted.parameters, accepted.constraints,
    accepted.policies, accepted.marginals, ?_, ?_, ?_, ?_⟩
  · obtain ⟨⟨named, distinct⟩, started, apart⟩ := checkEquations_eq_ok_iff.mp accepted.targets
    refine checkEquations_eq_ok_iff.mpr ⟨⟨?_, ?_⟩, ?_, ?_⟩
    · exact fun equation member => named equation (perm.mem_iff.mp member)
    · refine (perm.pairwise_iff ?_).mpr distinct
      exact fun {left right} different => (sameDefinition_comm right left).trans different
    · intro equation member recurrence
      rw [hasEquation_reordered perm, hasEquation_reordered perm]
      exact started equation (perm.mem_iff.mp member) recurrence
    · intro name scalar declared
      exact apart name ((mem_scalars_reordered_iff perm name).mp scalar)
        ((mem_variableNames_reordered_iff perm name).mp declared)
  · intro equation member
    rw [agree.checkEquation_eq]
    exact accepted.equation equation (perm.mem_iff.mp member)
  · intro constraint member
    rw [agree.checkConstraint_eq]
    exact accepted.constraint constraint member
  · intro policy member
    rw [agree.checkPolicy_eq]
    exact accepted.policy policy member

/-- A model with another horizon. -/
def withHorizon (model : Model) (horizon : UInt64) : Model := { model with horizon }

/-- The horizon of an accepted model may be any number of timesteps but zero. -/
theorem Accepted.withHorizon {enumeration : Enumeration} {functions : FunctionRegistry}
    {blockLimit : UInt64} (accepted : Accepted enumeration model functions blockLimit)
    {horizon : UInt64} (horizon_ne : horizon ≠ 0) :
    Accepted enumeration (model.withHorizon horizon) functions blockLimit :=
  ⟨accepted.named, horizon_ne, accepted.parameters, accepted.constraints, accepted.policies,
    accepted.marginals, accepted.targets, accepted.equation, accepted.constraint, accepted.policy⟩

end Model

end EconModel
