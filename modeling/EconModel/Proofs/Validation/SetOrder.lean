import EconModel.Proofs.Validation.WellFormed

/-!
# The order of sets

A validation collects names in sets, and a set may be enumerated in any order.  Here the orders of
all its sets are made explicit.  Only one of them shows: of several names that are both a scalar and
a variable, the one that is met first is reported.  Everywhere else a set is only asked whether it
has a name in it.
-/

namespace EconModel

namespace Validation

/-! ## Validation with explicit orders -/

/-- The orders in which the sets of a validation are enumerated. -/
structure SetOrders where
  parameters : Enumeration
  scalars : Enumeration
  variableNames : Enumeration
  /-- Of the names that a check of distinct names has seen. -/
  seen : Declaration → Enumeration
  /-- Of the equations whose targets and kinds are defined. -/
  defined : List Equation → List Equation
  perm_defined : ∀ equations, (defined equations).Perm equations

namespace SetOrders

variable (orders : SetOrders)

/-- The set of parameters. -/
def parameterSet (model : Model) : List String :=
  orders.parameters.order (Model.firstOccurrences (model.parameters.map Parameter.name))

/-- The set of scalars. -/
def scalarSet (model : Model) : List String :=
  orders.scalars.order (Model.firstOccurrences model.scalars)

/-- The set of variables. -/
def variableSet (model : Model) : List String := orders.variableNames.order model.variableNames

/-- Check that names are not blank and differ from one another and from a set of names. -/
def checkDistinct (declaration : Declaration) (seen : List String) : List String → Check
  | [] => .ok ()
  | name :: rest => do
      checkName declaration name
      if seen.contains name then .error (.duplicateName declaration name)
      else checkDistinct declaration ((orders.seen declaration).order (name :: seen)) rest

/-- Check the targets of equations against the set of parameters and a set of equations. -/
def checkTargets (parameters : List String) (defined : List Equation) : List Equation → Check
  | [] => .ok ()
  | equation :: rest => do
      checkName .variable equation.target
      if parameters.contains equation.target then .error (.nameCollision equation.target)
      else if defined.any (sameDefinition equation) then
        .error (.duplicateEquation equation.target equation.kind)
      else checkTargets parameters (orders.defined (equation :: defined)) rest

/-- Whether a set of equations defines a name in a way. -/
def defines (defined : List Equation) (target : String) (kind : EquationKind) : Bool :=
  defined.any fun equation => equation.kind = kind && equation.target = target

/-- The first recurrence that has nothing to start from. -/
def unstarted? (model : Model) : Option Equation :=
  model.equations.find? fun equation =>
    equation.kind = .recurrence &&
      !defines (orders.defined model.equations) equation.target .initial &&
      !defines (orders.defined model.equations) equation.target .current

/-- The name in both the scalars and the variables that is met first when the smaller one of these
sets is enumerated. -/
def clash? (model : Model) : Option String :=
  if (orders.scalarSet model).length ≤ (orders.variableSet model).length then
    (orders.scalarSet model).find? (orders.variableSet model).contains
  else (orders.variableSet model).find? (orders.scalarSet model).contains

/-- The names that the expressions of a model may refer to. -/
def scope (model : Model) : Scope :=
  ⟨orders.parameterSet model, orders.scalarSet model, orders.variableSet model⟩

end SetOrders

end Validation

namespace Model

open Validation

/-- Check a model, with every set in the order that is given for it. -/
def validateIn (orders : SetOrders) (model : Model) (functions : FunctionRegistry)
    (blockLimit : UInt64) : Except ModelDefect Unit := do
  if Text.isBlank model.name then throw .emptyModelName
  if model.horizon = 0 then throw .zeroHorizon
  orders.checkDistinct .parameter [] (model.parameters.map Parameter.name)
  orders.checkDistinct .constraint [] (model.constraints.map Constraint.name)
  orders.checkDistinct .policy [] (model.policies.map Policy.name)
  checkAll checkParameter model.parameters
  orders.checkTargets (orders.parameterSet model) [] model.equations
  checkNone ((orders.unstarted? model).map fun equation => .missingStartingValue equation.target)
  checkNone ((orders.clash? model).map fun name => .duplicateEquation name .scalar)
  checkAll (checkEquation (orders.scope model) functions) model.equations
  checkAll (checkConstraint (orders.scope model) functions) model.constraints
  checkAll (checkPolicy (orders.scope model) functions blockLimit) model.policies

end Model

/-! ## Sets that are only asked for members -/

namespace Validation

theorem Enumeration.mem_order_iff (enumeration : Enumeration) {names : List String}
    {name : String} : name ∈ enumeration.order names ↔ name ∈ names :=
  (enumeration.perm names).mem_iff

theorem contains_congr {left right : List String} (same : ∀ name, name ∈ left ↔ name ∈ right) :
    left.contains = right.contains := by
  funext name
  rw [Bool.eq_iff_iff, List.contains_iff_mem, List.contains_iff_mem, same]

namespace SetOrders

variable {orders : SetOrders} {model : Model}

theorem mem_parameterSet_iff {name : String} :
    name ∈ orders.parameterSet model ↔ name ∈ model.parameters.map Parameter.name := by
  rw [parameterSet, Enumeration.mem_order_iff, Model.mem_firstOccurrences_iff]

theorem mem_scalarSet_iff {name : String} :
    name ∈ orders.scalarSet model ↔ name ∈ model.scalars := by
  rw [scalarSet, Enumeration.mem_order_iff, Model.mem_firstOccurrences_iff]

theorem mem_variableSet_iff {name : String} :
    name ∈ orders.variableSet model ↔ name ∈ model.variableNames := by
  rw [variableSet, Enumeration.mem_order_iff]

theorem any_defined (orders : SetOrders) (test : Equation → Bool) (equations : List Equation) :
    (orders.defined equations).any test = equations.any test := by
  rw [Bool.eq_iff_iff, List.any_eq_true, List.any_eq_true]
  exact exists_congr fun equation => and_congr_left' (orders.perm_defined equations).mem_iff

theorem checkDistinct_eq {declaration : Declaration} {seen others names : List String}
    (same : ∀ name, name ∈ seen ↔ name ∈ others) :
    orders.checkDistinct declaration seen names =
      Validation.checkDistinct declaration others names := by
  induction names generalizing seen others with
  | nil => rfl
  | cons name rest ih =>
      have later : ∀ other, other ∈ (orders.seen declaration).order (name :: seen) ↔
          other ∈ name :: others := by
        intro other
        rw [Enumeration.mem_order_iff, List.mem_cons, List.mem_cons, same]
      rw [checkDistinct, Validation.checkDistinct, contains_congr same, ih later]

theorem checkTargets_eq {parameters names : List String} {defined others equations : List Equation}
    (same_names : ∀ name, name ∈ parameters ↔ name ∈ names)
    (same : ∀ equation, equation ∈ defined ↔ equation ∈ others) :
    orders.checkTargets parameters defined equations =
      Validation.checkTargets names others equations := by
  induction equations generalizing defined others with
  | nil => rfl
  | cons equation rest ih =>
      have later : ∀ other, other ∈ orders.defined (equation :: defined) ↔
          other ∈ equation :: others := by
        intro other
        rw [(orders.perm_defined _).mem_iff, List.mem_cons, List.mem_cons, same]
      have any_eq : defined.any (sameDefinition equation) = others.any (sameDefinition equation) := by
        rw [Bool.eq_iff_iff, List.any_eq_true, List.any_eq_true]
        exact exists_congr fun other => and_congr_left' (same other)
      rw [checkTargets, Validation.checkTargets, contains_congr same_names, any_eq, ih later]

theorem unstarted?_eq : orders.unstarted? model = Validation.unstarted? model := by
  simp only [unstarted?, Validation.unstarted?, defines, any_defined, Model.hasEquation]

theorem scopesAgree : Model.ScopesAgree (orders.scope model) (Validation.scope model) where
  knows_eq := by
    funext name
    rw [Bool.eq_iff_iff, Scope.knows_iff, Scope.knows_iff]
    exact or_congr mem_parameterSet_iff (or_congr mem_scalarSet_iff mem_variableSet_iff)
  contains_eq := contains_congr fun _ => mem_variableSet_iff

/-! ## The set whose order shows -/

theorem clash?_eq_none_iff : orders.clash? model = none ↔
    ∀ name, name ∈ model.scalars → name ∉ model.variableNames := by
  rw [clash?]
  split <;>
    simp only [List.find?_eq_none, List.contains_iff_mem, mem_scalarSet_iff, mem_variableSet_iff]
  exact forall_congr' fun name => ⟨fun apart scalar declared => apart declared scalar,
    fun apart declared scalar => apart scalar declared⟩

theorem mem_of_clash? {name : String} (found : orders.clash? model = some name) :
    name ∈ model.scalars ∧ name ∈ model.variableNames := by
  rw [clash?] at found
  split at found
  · have member := List.mem_of_find?_eq_some found
    have holds := List.find?_some found
    exact ⟨mem_scalarSet_iff.mp member,
      mem_variableSet_iff.mp (List.contains_iff_mem.mp holds)⟩
  · have member := List.mem_of_find?_eq_some found
    have holds := List.find?_some found
    exact ⟨mem_scalarSet_iff.mp (List.contains_iff_mem.mp holds),
      mem_variableSet_iff.mp member⟩

end SetOrders

/-- The enumeration that has a name in front of the others. -/
def Enumeration.front (name : String) : Enumeration where
  order names := if name ∈ names then name :: names.erase name else names
  perm names := by
    split
    · next member => exact (List.perm_cons_erase member).symm
    · exact .refl names

/-- Every set with a name in front. -/
def SetOrders.front (name : String) : SetOrders where
  parameters := .front name
  scalars := .front name
  variableNames := .front name
  seen _ := .front name
  defined := id
  perm_defined _ := .refl _

namespace SetOrders

variable {orders : SetOrders} {model : Model}

/-- Of a set that is enumerated with a name in front, that name is found if it passes a test. -/
theorem find?_front {name : String} {names : List String} {test : String → Bool}
    (member : name ∈ names) (holds : test name = true) :
    ((Enumeration.front name).order names).find? test = some name := by
  have front_eq : (Enumeration.front name).order names = name :: names.erase name := if_pos member
  rw [front_eq, List.find?_cons_of_pos holds]

/-- Any name that is both a scalar and a variable may be met first. -/
theorem clash?_front {name : String} (scalar : name ∈ model.scalars)
    (declared : name ∈ model.variableNames) : (front name).clash? model = some name := by
  rw [clash?]
  split
  · exact find?_front ((Model.mem_firstOccurrences_iff _ name).mpr scalar)
      (List.contains_iff_mem.mpr (mem_variableSet_iff.mpr declared))
  · exact find?_front declared (List.contains_iff_mem.mpr (mem_scalarSet_iff.mpr scalar))

end SetOrders

end Validation

namespace Model

open Validation

variable {orders : SetOrders} {model : Model} {functions : FunctionRegistry} {blockLimit : UInt64}

/-- The checks that come before the search for a name that is both a scalar and a variable. -/
def checkAhead (model : Model) : Check := do
  if Text.isBlank model.name then throw .emptyModelName
  if model.horizon = 0 then throw .zeroHorizon
  checkDistinct .parameter [] (model.parameters.map Parameter.name)
  checkDistinct .constraint [] (model.constraints.map Constraint.name)
  checkDistinct .policy [] (model.policies.map Policy.name)
  checkAll checkParameter model.parameters
  checkTargets (model.parameters.map Parameter.name) [] model.equations
  checkNone ((unstarted? model).map fun equation => .missingStartingValue equation.target)

/-- The checks that come after it. -/
def checkBehind (model : Model) (functions : FunctionRegistry) (blockLimit : UInt64) : Check := do
  checkAll (checkEquation (scope model) functions) model.equations
  checkAll (checkConstraint (scope model) functions) model.constraints
  checkAll (checkPolicy (scope model) functions blockLimit) model.policies

/-- The order of sets shows in one check only. -/
theorem validateIn_eq : model.validateIn orders functions blockLimit =
    model.checkAhead >>= fun _ =>
      checkNone ((orders.clash? model).map fun name => .duplicateEquation name .scalar) >>= fun _ =>
        model.checkBehind functions blockLimit := by
  -- the checks behind the search see the sets through the scope alone, those ahead of it through
  -- `contains` and `any`
  have agree : ScopesAgree (orders.scope model) (scope model) := SetOrders.scopesAgree
  have equation_eq : checkEquation (orders.scope model) functions =
      checkEquation (scope model) functions := funext agree.checkEquation_eq
  have constraint_eq : checkConstraint (orders.scope model) functions =
      checkConstraint (scope model) functions := funext agree.checkConstraint_eq
  have policy_eq : checkPolicy (orders.scope model) functions blockLimit =
      checkPolicy (scope model) functions blockLimit := funext (agree.checkPolicy_eq blockLimit)
  unfold validateIn checkAhead checkBehind
  rw [equation_eq, constraint_eq, policy_eq, SetOrders.unstarted?_eq,
    SetOrders.checkTargets_eq (fun _ => SetOrders.mem_parameterSet_iff) (fun _ => Iff.rfl)]
  simp only [SetOrders.checkDistinct_eq (fun _ => Iff.rfl)]
  split
  · rfl
  · split
    · rfl
    · simp [bind_assoc]

theorem validateBy_eq {enumeration : Enumeration} :
    model.validateBy enumeration functions blockLimit =
      model.checkAhead >>= fun _ =>
        checkNone ((enumeration.order (clashes model)).head?.map fun name =>
          .duplicateEquation name .scalar) >>= fun _ =>
          model.checkBehind functions blockLimit := by
  unfold validateBy checkAhead checkBehind
  by_cases blank : Text.isBlank model.name = true
  · rw [if_pos blank, if_pos blank]
    rfl
  · rw [if_neg blank, if_neg blank]
    by_cases zero : model.horizon = 0
    · rw [if_pos zero, if_pos zero]
      rfl
    · simp [zero, checkEquations, bind_assoc]

/-! ## Models whose defect depends on the order -/

/-- What is checked ahead of the names that are both a scalar and a variable is in order. -/
structure SoundAhead (model : Model) : Prop where
  named : Text.isBlank model.name = false
  horizon : 1 ≤ model.horizon.toNat
  parameters : Distinguishable (model.parameters.map Parameter.name)
  constraints : Distinguishable (model.constraints.map Constraint.name)
  policies : Distinguishable (model.policies.map Policy.name)
  /-- The numbers of every distribution are in order. -/
  marginals : ∀ parameter ∈ model.parameters, ∀ marginal,
    parameter.marginal? = some marginal → marginal.validate = .ok ()
  targets : ∀ equation ∈ model.equations,
    Text.isBlank equation.target = false ∧ ¬ model.DeclaresParameter equation.target
  /-- No variable has two equations of one kind. -/
  single : model.equations.Pairwise fun left right =>
    ¬ (left.target = right.target ∧ left.kind = right.kind)
  /-- Every recurrence has something to start from. -/
  started : ∀ equation ∈ model.equations, equation.kind = .recurrence →
    ∃ start ∈ model.equations, start.target = equation.target ∧
      (start.kind = .initial ∨ start.kind = .current)

/-- Nothing is wrong with a model until several names turn out to be both a scalar and a variable. -/
structure Contested (model : Model) : Prop extends model.SoundAhead where
  several : ∃ first second, first ≠ second ∧
    (model.DeclaresScalar first ∧ model.DeclaresVariable first) ∧
    model.DeclaresScalar second ∧ model.DeclaresVariable second

theorem checkAhead_eq_ok_iff : model.checkAhead = .ok () ↔ model.SoundAhead := by
  have checks : model.checkAhead =
      if Text.isBlank model.name = true then .error .emptyModelName
      else if model.horizon = 0 then .error .zeroHorizon
      else
        checkDistinct .parameter [] (model.parameters.map Parameter.name) >>= fun _ =>
        checkDistinct .constraint [] (model.constraints.map Constraint.name) >>= fun _ =>
        checkDistinct .policy [] (model.policies.map Policy.name) >>= fun _ =>
        checkAll checkParameter model.parameters >>= fun _ =>
        checkTargets (model.parameters.map Parameter.name) [] model.equations >>= fun _ =>
        checkNone ((unstarted? model).map fun equation =>
          .missingStartingValue equation.target) := by
    unfold checkAhead
    split
    · rfl
    · split <;> rfl
  have horizon_iff : model.horizon ≠ 0 ↔ 1 ≤ model.horizon.toNat := by
    rw [Nat.one_le_iff_ne_zero, ne_eq, ne_eq, ← UInt64.toNat_inj]
    rfl
  have single_iff : (model.equations.Pairwise fun left right => sameDefinition left right = false) ↔
      model.equations.Pairwise fun left right =>
        ¬ (left.target = right.target ∧ left.kind = right.kind) := by
    simp only [← sameDefinition_iff, Bool.not_eq_true]
  rw [checks]
  simp only [ite_error_eq_ok_iff, bind_eq_ok_iff, checkAll_eq_ok_iff, Bool.not_eq_true,
    distinguishable_iff, marginals_iff, checkTargets_eq_ok_iff, checkNone_eq_ok_iff,
    Option.map_eq_none_iff, unstarted?_eq_none_iff, hasEquation_or_iff, single_iff,
    ← declaresParameter_iff, List.not_mem_nil, false_imp_iff, implies_true, and_true]
  constructor
  · rintro ⟨named, horizon, parameters, constraints, policies, marginals, ⟨targets, single⟩,
      started⟩
    exact ⟨named, horizon_iff.mp horizon, parameters, constraints, policies, marginals, targets,
      single, started⟩
  · rintro ⟨named, horizon, parameters, constraints, policies, marginals, targets, single, started⟩
    exact ⟨named, horizon_iff.mpr horizon, parameters, constraints, policies, marginals,
      ⟨targets, single⟩, started⟩

theorem mem_clashes_iff {name : String} :
    name ∈ clashes model ↔ model.DeclaresScalar name ∧ model.DeclaresVariable name := by
  rw [clashes, List.mem_filter, mem_firstOccurrences_iff, List.contains_iff_mem,
    declaresScalar_iff, declaresVariable_iff]

theorem mem_clashes_of_clash? {name : String} (met : orders.clash? model = some name) :
    name ∈ clashes model := by
  obtain ⟨scalar, declared⟩ := SetOrders.mem_of_clash? met
  exact mem_clashes_iff.mpr ⟨declaresScalar_iff.mpr scalar, declaresVariable_iff.mpr declared⟩

/-- Where at most one name is both a scalar and a variable, every order meets the same one. -/
theorem clash?_eq_head? (single : ∀ first ∈ clashes model, ∀ second ∈ clashes model, first = second) :
    orders.clash? model = (clashes model).head? := by
  cases met : orders.clash? model with
  | none =>
      rw [clashes_eq_nil_iff.mpr (SetOrders.clash?_eq_none_iff.mp met)]
      rfl
  | some name =>
      have member := mem_clashes_of_clash? met
      cases listed : clashes model with
      | nil =>
          rw [listed] at member
          exact absurd member List.not_mem_nil
      | cons first rest =>
          have first_mem : first ∈ clashes model := listed ▸ List.mem_cons_self
          rw [single name member first first_mem, List.head?_cons]

theorem validateIn_eq_validate (agreed : ¬ model.Contested) :
    model.validateIn orders functions blockLimit = model.validate functions blockLimit := by
  rw [validateIn_eq, validate, validateBy_eq]
  cases ahead : model.checkAhead with
  | error defect => rfl
  | ok _ =>
      have sound := checkAhead_eq_ok_iff.mp ahead
      -- two different names would make the model a contested one
      have single : ∀ first ∈ clashes model, ∀ second ∈ clashes model, first = second := by
        intro first first_mem second second_mem
        by_contra different
        exact agreed ⟨sound, first, second, different, mem_clashes_iff.mp first_mem,
          mem_clashes_iff.mp second_mem⟩
      rw [clash?_eq_head? single]
      rfl

theorem validateIn_of_clash (sound : model.SoundAhead) {name : String}
    (met : orders.clash? model = some name) :
    model.validateIn orders functions blockLimit = .error (.duplicateEquation name .scalar) := by
  rw [validateIn_eq, checkAhead_eq_ok_iff.mpr sound, met]
  rfl

theorem validateIn_front (sound : model.SoundAhead) {name : String}
    (both : model.DeclaresScalar name ∧ model.DeclaresVariable name) :
    model.validateIn (.front name) functions blockLimit =
      .error (.duplicateEquation name .scalar) :=
  validateIn_of_clash sound
    (SetOrders.clash?_front (declaresScalar_iff.mp both.1) (declaresVariable_iff.mp both.2))

/-- The order of sets never shows in what a validation returns, unless several names are both a
scalar and a variable and nothing else is wrong with the model before that is found.  Then each of
these names is reported in some order, and nothing else in any. -/
theorem defect_same_iff (model : Model) (functions : FunctionRegistry) (blockLimit : UInt64) :
    ((∀ orders, model.validateIn orders functions blockLimit =
        model.validate functions blockLimit) ↔ ¬ model.Contested) ∧
      (model.Contested → ∀ result,
        (∃ orders, model.validateIn orders functions blockLimit = result) ↔
          ∃ name, (model.DeclaresScalar name ∧ model.DeclaresVariable name) ∧
            result = .error (.duplicateEquation name .scalar)) := by
  refine ⟨⟨?_, fun agreed orders => validateIn_eq_validate agreed⟩, fun contested result => ?_⟩
  · rintro same ⟨sound, first, second, different, first_both, second_both⟩
    have first_eq := (validateIn_front sound first_both).symm.trans (same (.front first))
    have second_eq := (validateIn_front sound second_both).symm.trans (same (.front second))
    cases first_eq.trans second_eq.symm
    exact different rfl
  · constructor
    · rintro ⟨orders, rfl⟩
      cases met : orders.clash? model with
      | none =>
          obtain ⟨first, _, _, ⟨scalar, declared⟩, _⟩ := contested.several
          exact absurd (declaresVariable_iff.mp declared)
            (SetOrders.clash?_eq_none_iff.mp met first (declaresScalar_iff.mp scalar))
      | some name =>
          exact ⟨name, mem_clashes_iff.mp (mem_clashes_of_clash? met),
            validateIn_of_clash contested.toSoundAhead met⟩
    · rintro ⟨name, both, rfl⟩
      exact ⟨.front name, validateIn_front contested.toSoundAhead both⟩

/-- Two names, each of them both a scalar and a variable. -/
def contestedModel : Model :=
  { Model.blank "contested" 1 with
    equations := [.ofExpr "a" .scalar (.number 1.0), .ofExpr "b" .scalar (.number 1.0),
      .ofExpr "b" .current (.number 2.0), .ofExpr "a" .current (.number 2.0)] }

theorem mem_clashes_contestedModel :
    "a" ∈ clashes contestedModel ∧ "b" ∈ clashes contestedModel := by
  decide

theorem soundAhead_contestedModel : contestedModel.SoundAhead := checkAhead_eq_ok_iff.mp rfl

theorem contested_contestedModel : contestedModel.Contested :=
  ⟨soundAhead_contestedModel, "a", "b", by decide,
    mem_clashes_iff.mp mem_clashes_contestedModel.1,
    mem_clashes_iff.mp mem_clashes_contestedModel.2⟩

theorem defect_same_iff_contested :
    contestedModel.Contested ∧
      (∃ orders, contestedModel.validateIn orders Catalogue.standard.toRegistry 16 =
        .error (.duplicateEquation "a" .scalar)) ∧
      ∃ orders, contestedModel.validateIn orders Catalogue.standard.toRegistry 16 =
        .error (.duplicateEquation "b" .scalar) := by
  obtain ⟨_, reported⟩ := defect_same_iff contestedModel Catalogue.standard.toRegistry 16
  exact ⟨contested_contestedModel,
    (reported contested_contestedModel _).mpr
      ⟨"a", mem_clashes_iff.mp mem_clashes_contestedModel.1, rfl⟩,
    (reported contested_contestedModel _).mpr
      ⟨"b", mem_clashes_iff.mp mem_clashes_contestedModel.2, rfl⟩⟩

/-- Two orders of the same sets lead to different defects of one model. -/
theorem defect_varies_contested : ∃ orders others,
    contestedModel.validateIn orders Catalogue.standard.toRegistry 16 ≠
      contestedModel.validateIn others Catalogue.standard.toRegistry 16 := by
  refine ⟨.front "a", .front "b", ?_⟩
  rw [validateIn_front soundAhead_contestedModel (mem_clashes_iff.mp mem_clashes_contestedModel.1),
    validateIn_front soundAhead_contestedModel (mem_clashes_iff.mp mem_clashes_contestedModel.2)]
  intro same
  have name_eq : "a" = "b" := (ModelDefect.duplicateEquation.inj (Except.error.inj same)).1
  exact absurd name_eq (by decide)

end Model

end EconModel
