import EconModel.Builder
import Mathlib.Data.List.Basic

/-!
# Where annotations go

A model is made by a sequence of calls, and an annotation is meant for the parameter that was added
last among those that are drawn.  It gets there as long as no parameter with a given value was added
since; if there is such a one, the annotation is without effect.
-/

namespace EconModel

/-- A call that goes on with a model under construction. -/
inductive BuilderCall where
  | parameter (name : String) (value : Float)
  | stochastic (name : String) (marginal : Distribution Float)
  | withParameter (declared : Parameter)
  | pointEstimate (value : Float)
  | correlatedWith (partner : String) (coefficient : Float)
  | correlation (first second : String) (coefficient : Float)
  | equation (target : String) (kind : EquationKind) (expr : Expr)
  | withConstraint (constraint : Constraint)
  | policy (name : String) (trigger : Expr) (action : Action)

namespace BuilderCall

/-- The model under construction after a call. -/
def apply (builder : ModelBuilder) : BuilderCall → ModelBuilder
  | .parameter name value => builder.parameter name value
  | .stochastic name marginal => builder.stochastic name marginal
  | .withParameter declared => builder.withParameter declared
  | .pointEstimate value => builder.pointEstimate value
  | .correlatedWith partner coefficient => builder.correlatedWith partner coefficient
  | .correlation first second coefficient => builder.correlation first second coefficient
  | .equation target kind expr => builder.equation target kind expr
  | .withConstraint constraint => builder.withConstraint constraint
  | .policy name trigger action => builder.policy name trigger action

/-- The parameter that a call adds. -/
def added? : BuilderCall → Option Parameter
  | .parameter name value => some ⟨name, none, .literal (.number value)⟩
  | .stochastic name marginal => some ⟨name, none, .distribution marginal none []⟩
  | .withParameter declared => some declared
  | _ => none

/-- What a call does to the parameter that was added last. -/
def effect : BuilderCall → Parameter → Parameter
  | .pointEstimate value => ModelBuilder.annotate fun _ partners => (some value, partners)
  | .correlatedWith partner coefficient =>
      ModelBuilder.annotate fun estimate partners => (estimate, partners ++ [⟨partner, coefficient⟩])
  | _ => id

end BuilderCall

namespace ModelBuilder

open BuilderCall

/-- The model under construction after some calls. -/
def perform (builder : ModelBuilder) (calls : List BuilderCall) : ModelBuilder :=
  calls.foldl apply builder

theorem perform_append (builder : ModelBuilder) (calls more : List BuilderCall) :
    builder.perform (calls ++ more) = (builder.perform calls).perform more :=
  List.foldl_append

/-! ## What a call does to the parameters -/

section ModifyLast

variable {α : Type} (f : α → α)

theorem modifyLast_append_cons (before : List α) (entry : α) (after : List α) :
    modifyLast f (before ++ entry :: after) = before ++ modifyLast f (entry :: after) := by
  induction before with
  | nil => rfl
  | cons first before ih =>
      refine Eq.trans ?_ (congrArg (first :: ·) ih)
      cases before <;> rfl

theorem modifyLast_eq_self {entries : List α} (fixed : ∀ entry ∈ entries, f entry = entry) :
    modifyLast f entries = entries := by
  rcases List.eq_nil_or_concat' entries with rfl | ⟨earlier, last, rfl⟩
  · rfl
  · rw [modifyLast_append_cons, modifyLast, fixed last (by simp)]

@[simp]
theorem modifyLast_id (entries : List α) : modifyLast id entries = entries :=
  modifyLast_eq_self id fun _ _ => rfl

@[simp]
theorem length_modifyLast (entries : List α) : (modifyLast f entries).length = entries.length := by
  rcases List.eq_nil_or_concat' entries with rfl | ⟨earlier, last, rfl⟩
  · rfl
  · rw [modifyLast_append_cons, modifyLast, List.length_append, List.length_append,
      List.length_singleton, List.length_singleton]

end ModifyLast

theorem annotate_of_literal
    (f : Option Float → List CorrelationPartner → Option Float × List CorrelationPartner)
    {parameter : Parameter} (literal : parameter.isStochastic = false) :
    annotate f parameter = parameter := by
  rw [Parameter.isStochastic] at literal
  rw [annotate]
  cases value_eq : parameter.value with
  | literal value => rfl
  | distribution marginal estimate partners => simp [value_eq] at literal

theorem effect_of_literal (call : BuilderCall) {parameter : Parameter}
    (literal : parameter.isStochastic = false) : call.effect parameter = parameter := by
  cases call with
  | pointEstimate | correlatedWith => rw [effect, annotate_of_literal _ literal]
  | parameter | stochastic | withParameter | correlation | equation | withConstraint | policy => rfl

/-- A list of parameters, seen from one of them that is drawn. -/
structure DrawnPlace where
  before : List Parameter
  name : String
  unit : Option String
  marginal : Distribution Float
  estimate : Option Float
  partners : List CorrelationPartner
  after : List Parameter

namespace DrawnPlace

/-- The parameter that is drawn. -/
def drawn (place : DrawnPlace) : Parameter :=
  ⟨place.name, place.unit, .distribution place.marginal place.estimate place.partners⟩

/-- The place after an annotation of the parameter. -/
def annotated (f : Option Float → List CorrelationPartner → Option Float × List CorrelationPartner)
    (place : DrawnPlace) : DrawnPlace :=
  { place with
    estimate := (f place.estimate place.partners).1
    partners := (f place.estimate place.partners).2 }

def withEstimate (place : DrawnPlace) (value : Float) : DrawnPlace :=
  { place with estimate := some value }

/-- The place after one more correlation of the parameter is declared. -/
def withPartner (place : DrawnPlace) (partner : CorrelationPartner) : DrawnPlace :=
  { place with partners := place.partners ++ [partner] }

/-- All parameters. -/
def parameters (place : DrawnPlace) : List Parameter := place.before ++ place.drawn :: place.after

/-- The parameter stays where it is and what it is, and it loses no correlation. -/
structure Keeps (place later : DrawnPlace) : Prop where
  before_eq : later.before = place.before
  name_eq : later.name = place.name
  unit_eq : later.unit = place.unit
  marginal_eq : later.marginal = place.marginal
  partners_prefix : place.partners <+: later.partners

theorem Keeps.refl (place : DrawnPlace) : place.Keeps place :=
  ⟨rfl, rfl, rfl, rfl, List.prefix_refl _⟩

theorem Keeps.trans {place later last : DrawnPlace} (first : place.Keeps later)
    (second : later.Keeps last) : place.Keeps last where
  before_eq := second.before_eq.trans first.before_eq
  name_eq := second.name_eq.trans first.name_eq
  unit_eq := second.unit_eq.trans first.unit_eq
  marginal_eq := second.marginal_eq.trans first.marginal_eq
  partners_prefix := first.partners_prefix.trans second.partners_prefix

theorem exists_effect_drawn (place : DrawnPlace) (call : BuilderCall) (after : List Parameter) :
    ∃ later : DrawnPlace, place.Keeps later ∧ later.after = after ∧
      call.effect place.drawn = later.drawn := by
  cases call with
  | pointEstimate value =>
      exact ⟨{ place.withEstimate value with after := after },
        ⟨rfl, rfl, rfl, rfl, List.prefix_refl _⟩, rfl, rfl⟩
  | correlatedWith partner coefficient =>
      exact ⟨{ place.withPartner ⟨partner, coefficient⟩ with after := after },
        ⟨rfl, rfl, rfl, rfl, List.prefix_append _ _⟩, rfl, rfl⟩
  | parameter | stochastic | withParameter | correlation | equation | withConstraint | policy =>
      exact ⟨{ place with after := after }, ⟨rfl, rfl, rfl, rfl, List.prefix_refl _⟩, rfl, rfl⟩

end DrawnPlace

theorem parameters_apply (builder : ModelBuilder) (call : BuilderCall) :
    (call.apply builder).model.parameters =
      modifyLast call.effect builder.model.parameters ++ call.added?.toList := by
  cases call with
  | pointEstimate | correlatedWith => exact (List.append_nil _).symm
  | parameter | stochastic | withParameter | correlation | equation | withConstraint | policy =>
      simp [apply, effect, added?, parameter, stochastic, withParameter, correlation, equation,
        withConstraint, policy]

/-! ## What a sequence of calls does to the parameters -/

variable {builder : ModelBuilder} {place : DrawnPlace}

/-- A call keeps every parameter that is drawn, and literal parameters behind it are not touched. -/
theorem exists_place_apply (call : BuilderCall)
    (placed : builder.model.parameters = place.parameters) :
    ∃ later : DrawnPlace, place.Keeps later ∧
      (call.apply builder).model.parameters = later.parameters ∧
      ((∀ parameter ∈ place.after, parameter.isStochastic = false) →
        later.after = place.after ++ call.added?.toList) := by
  rw [parameters_apply, placed, DrawnPlace.parameters, modifyLast_append_cons, List.append_assoc]
  -- a call annotates the last parameter, which is the drawn one only if nothing stands behind it
  cases behind : place.after with
  | nil =>
      obtain ⟨later, keeps, after_eq, annotated⟩ :=
        place.exists_effect_drawn call call.added?.toList
      refine ⟨later, keeps, ?_, fun _ => after_eq⟩
      rw [modifyLast, annotated, DrawnPlace.parameters, keeps.before_eq, after_eq,
        List.singleton_append]
  | cons next after =>
      refine ⟨{ place with
        after := modifyLast call.effect (next :: after) ++ call.added?.toList },
        ⟨rfl, rfl, rfl, rfl, List.prefix_refl _⟩, rfl, fun literal => ?_⟩
      change modifyLast call.effect (next :: after) ++ _ = _
      rw [modifyLast_eq_self _ fun parameter member =>
        effect_of_literal call (literal parameter member)]

theorem exists_place_perform (calls : List BuilderCall)
    (placed : builder.model.parameters = place.parameters) :
    ∃ later : DrawnPlace, place.Keeps later ∧
      (builder.perform calls).model.parameters = later.parameters ∧
      ((∀ parameter ∈ place.after, parameter.isStochastic = false) →
        (∀ call ∈ calls, ∀ added, call.added? = some added → added.isStochastic = false) →
          later.after = place.after ++ calls.filterMap added?) := by
  -- the place moves along with the calls: what is in front of the parameter stays as it is, and
  -- what the calls add stands behind it
  induction calls generalizing builder place with
  | nil => exact ⟨place, .refl place, placed, fun _ _ => (List.append_nil _).symm⟩
  | cons call calls ih =>
      obtain ⟨next, keeps_next, next_placed, next_after⟩ := exists_place_apply call placed
      obtain ⟨later, keeps_later, later_placed, later_after⟩ := ih next_placed
      refine ⟨later, keeps_next.trans keeps_later, later_placed, fun literal given => ?_⟩
      obtain ⟨call_given, calls_given⟩ := List.forall_mem_cons.mp given
      have next_after := next_after literal
      have next_literal : ∀ parameter ∈ next.after, parameter.isStochastic = false := by
        intro parameter member
        rw [next_after] at member
        rcases List.mem_append.mp member with member | member
        · exact literal parameter member
        · exact call_given parameter (Option.mem_toList.mp member)
      rw [later_after next_literal calls_given, next_after, List.filterMap_cons]
      cases call.added? <;> simp

theorem length_parameters_perform (builder : ModelBuilder) (calls : List BuilderCall) :
    (builder.perform calls).model.parameters.length =
      builder.model.parameters.length + (calls.filterMap added?).length := by
  induction calls generalizing builder with
  | nil => rfl
  | cons call calls ih =>
      have step := ih (call.apply builder)
      rw [parameters_apply, List.length_append, length_modifyLast] at step
      refine step.trans ?_
      rw [List.filterMap_cons]
      cases call.added? with
      | none => rfl
      | some added => simp [Nat.add_assoc, Nat.add_comm 1]

/-! ## The latest parameter that is drawn -/

/-- The last call of a sequence that adds a parameter which is drawn, between the calls before and
after it. -/
structure LatestDrawn (calls earlier : List BuilderCall) (added : Parameter)
    (between : List BuilderCall) : Prop where
  calls_eq : ∃ addition, calls = earlier ++ addition :: between ∧ addition.added? = some added
  drawn : added.isStochastic = true
  given : ∀ call ∈ between, ∀ other, call.added? = some other → other.isStochastic = false

theorem exists_latestDrawn {calls : List BuilderCall}
    (contains : ∃ call ∈ calls, ∃ added, call.added? = some added ∧ added.isStochastic = true) :
    ∃ earlier added between, LatestDrawn calls earlier added between := by
  induction calls with
  | nil =>
      obtain ⟨call, member, _⟩ := contains
      exact absurd member List.not_mem_nil
  | cons first calls ih =>
      by_cases later : ∃ call ∈ calls, ∃ added,
          call.added? = some added ∧ added.isStochastic = true
      · obtain ⟨earlier, added, between, ⟨addition, calls_eq, adds⟩, drawn, given⟩ := ih later
        exact ⟨first :: earlier, added, between, ⟨addition, by rw [calls_eq]; rfl, adds⟩, drawn,
          given⟩
      · obtain ⟨call, member, added, adds, drawn⟩ := contains
        have given : ∀ call ∈ calls, ∀ other,
            call.added? = some other → other.isStochastic = false := by
          intro call member other adds
          rw [Bool.eq_false_iff]
          exact fun drawn => later ⟨call, member, other, adds, drawn⟩
        rcases List.mem_cons.mp member with rfl | member
        · exact ⟨[], added, calls, ⟨call, rfl, adds⟩, drawn, given⟩
        · exact absurd ⟨call, member, added, adds, drawn⟩ later

/-- The place of a parameter after the calls that follow its addition. -/
structure StandsAt (earlier : List BuilderCall) (added : Parameter) (between : List BuilderCall)
    (place : DrawnPlace) : Prop where
  length_before : place.before.length = (earlier.filterMap added?).length
  name_eq : place.name = added.name
  unit_eq : place.unit = added.unit
  marginal_eq : added.marginal? = some place.marginal
  partners_prefix : added.partners <+: place.partners
  after_eq : place.after = between.filterMap added?

theorem LatestDrawn.exists_standsAt {calls earlier between : List BuilderCall} {added : Parameter}
    (latest : LatestDrawn calls earlier added between) (name : String) (horizon : UInt64) :
    ∃ place, StandsAt earlier added between place ∧
      ((start name horizon).perform calls).model.parameters = place.parameters := by
  obtain ⟨⟨addition, rfl, adds⟩, drawn, given⟩ := latest
  obtain ⟨addedName, unit, value⟩ := added
  cases value with
  | literal value => cases drawn
  | distribution marginal estimate partners =>
      let first := modifyLast addition.effect
        ((start name horizon).perform earlier).model.parameters
      let place : DrawnPlace := ⟨first, addedName, unit, marginal, estimate, partners, []⟩
      have placed : (addition.apply ((start name horizon).perform earlier)).model.parameters =
          place.parameters := by
        rw [parameters_apply, adds]
        rfl
      obtain ⟨later, keeps, later_placed, later_after⟩ := exists_place_perform between placed
      refine ⟨later, ⟨?_, keeps.name_eq, keeps.unit_eq, ?_, keeps.partners_prefix, ?_⟩, ?_⟩
      · rw [keeps.before_eq, length_modifyLast, length_parameters_perform]
        exact Nat.zero_add _
      · rw [keeps.marginal_eq]
        rfl
      · exact later_after (fun _ member => absurd member List.not_mem_nil) given
      · rw [perform_append]
        exact later_placed

/-! ## Annotations -/

section Annotations

variable
  (f : Option Float → List CorrelationPartner → Option Float × List CorrelationPartner)

/-- An annotation of the last parameter reaches it. -/
theorem annotateLast_of_last (placed : builder.model.parameters = place.parameters)
    (last : place.after = []) : (builder.annotateLast f).model =
      { builder.model with parameters := (place.annotated f).parameters } := by
  have reached : modifyLast (annotate f) builder.model.parameters =
      (place.annotated f).parameters := by
    rw [placed, DrawnPlace.parameters, modifyLast_append_cons, last, modifyLast,
      DrawnPlace.parameters]
    exact congrArg (place.before ++ (place.annotated f).drawn :: ·) last.symm
  rw [annotateLast, reached]

/-- An annotation has no effect behind a literal parameter. -/
theorem annotateLast_of_literal (placed : builder.model.parameters = place.parameters)
    (follows : place.after ≠ [])
    (literal : ∀ parameter ∈ place.after, parameter.isStochastic = false) :
    builder.annotateLast f = builder := by
  have unchanged : modifyLast (annotate f) builder.model.parameters = builder.model.parameters := by
    rw [placed, DrawnPlace.parameters, modifyLast_append_cons]
    cases behind : place.after with
    | nil => exact absurd behind follows
    | cons next after =>
        rw [behind] at literal
        rw [modifyLast, modifyLast_eq_self _ fun parameter member =>
          annotate_of_literal f (literal parameter member)]
        nofun
  rw [annotateLast, unchanged]

/-- An annotation reaches a parameter exactly if it is the last one, or would not change it. -/
theorem annotateLast_reaches_iff (placed : builder.model.parameters = place.parameters)
    (literal : ∀ parameter ∈ place.after, parameter.isStochastic = false) :
    (builder.annotateLast f).model =
        { builder.model with parameters := (place.annotated f).parameters } ↔
      place.after = [] ∨ (place.annotated f).drawn = place.drawn := by
  by_cases last : place.after = []
  · exact iff_of_true (annotateLast_of_last f placed last) (.inl last)
  · rw [annotateLast_of_literal f placed last literal, or_iff_right last]
    constructor
    · intro model_eq
      have parameters_eq : place.parameters = (place.annotated f).parameters :=
        placed.symm.trans (congrArg Model.parameters model_eq)
      exact (List.cons.inj (List.append_cancel_left parameters_eq)).1.symm
    · intro drawn_eq
      have parameters_eq : (place.annotated f).parameters = builder.model.parameters := by
        rw [placed, DrawnPlace.parameters, drawn_eq]
        rfl
      rw [parameters_eq]

end Annotations

/-- After calls of which one added a parameter that is drawn, an estimate or a correlation reaches
the latest such parameter, and changes nothing else, exactly if no parameter was added since (or if
that is the estimate anyway).  Where a parameter was added since, which is a literal one, neither
annotation has an effect.  No later call takes a correlation away. -/
theorem annotations_reach_iff (name : String) (horizon : UInt64) (calls : List BuilderCall)
    (builder : ModelBuilder) (made : builder = (start name horizon).perform calls)
    (contains : ∃ call ∈ calls, ∃ added, call.added? = some added ∧ added.isStochastic = true) :
    ∃ earlier added between, LatestDrawn calls earlier added between ∧
      ∃ place : DrawnPlace, StandsAt earlier added between place ∧
        builder.model.parameters = place.parameters ∧
        (∀ value, (builder.pointEstimate value).model =
            { builder.model with parameters := (place.withEstimate value).parameters } ↔
          (∀ call ∈ between, call.added? = none) ∨ place.estimate = some value) ∧
        (∀ partner coefficient, (builder.correlatedWith partner coefficient).model =
            { builder.model with
              parameters := (place.withPartner ⟨partner, coefficient⟩).parameters } ↔
          ∀ call ∈ between, call.added? = none) ∧
        ((∃ call ∈ between, call.added? ≠ none) →
          (∀ value, builder.pointEstimate value = builder) ∧
            ∀ partner coefficient, builder.correlatedWith partner coefficient = builder) ∧
        ∀ more, ∃ later : DrawnPlace, place.Keeps later ∧
          (builder.perform more).model.parameters = later.parameters := by
  obtain ⟨earlier, added, between, latest⟩ := exists_latestDrawn contains
  obtain ⟨place, stands, placed⟩ := latest.exists_standsAt name horizon
  rw [← made] at placed
  have literal : ∀ parameter ∈ place.after, parameter.isStochastic = false := by
    rw [stands.after_eq]
    intro parameter member
    obtain ⟨call, call_mem, adds⟩ := List.mem_filterMap.mp member
    exact latest.given call call_mem parameter adds
  have last_iff : place.after = [] ↔ ∀ call ∈ between, call.added? = none := by
    rw [stands.after_eq, List.filterMap_eq_nil_iff]
  refine ⟨earlier, added, between, latest, place, stands, placed, fun value => ?_,
    fun partner coefficient => ?_, fun follows => ?_, fun more => ?_⟩
  · rw [← last_iff]
    refine (annotateLast_reaches_iff _ placed literal).trans (or_congr_right ?_)
    simp [DrawnPlace.drawn, DrawnPlace.annotated, eq_comm]
  · rw [← last_iff]
    refine (annotateLast_reaches_iff _ placed literal).trans (or_iff_left ?_)
    simp [DrawnPlace.drawn, DrawnPlace.annotated]
  · have behind : place.after ≠ [] := by
      rw [ne_eq, last_iff]
      exact fun none_added => follows.elim fun call found => found.2 (none_added call found.1)
    exact ⟨fun value => annotateLast_of_literal _ placed behind literal,
      fun partner coefficient => annotateLast_of_literal _ placed behind literal⟩
  · obtain ⟨later, keeps, later_placed, _⟩ := exists_place_perform more placed
    exact ⟨later, keeps, later_placed⟩

/-- Calls that add a parameter which is drawn, and then no other parameter. -/
def churnCalls : List BuilderCall :=
  [.parameter "price" 10.0, .stochastic "churn" (.uniform 0.01 0.05),
    .equation "loss" .current (.binary .mul (.ident "churn") (.ident "price")),
    .correlatedWith "price" 0.5]

theorem annotations_reach_iff_churn :
    (∃ call ∈ churnCalls, ∃ added, call.added? = some added ∧ added.isStochastic = true) ∧
      ∃ place : DrawnPlace, place.name = "churn" ∧
        ((start "startup" 12).perform churnCalls).model.parameters = place.parameters ∧
        (((start "startup" 12).perform churnCalls).pointEstimate 0.02).model =
          { ((start "startup" 12).perform churnCalls).model with
            parameters := (place.withEstimate 0.02).parameters } := by
  have contains : ∃ call ∈ churnCalls, ∃ added,
      call.added? = some added ∧ added.isStochastic = true :=
    ⟨.stochastic "churn" (.uniform 0.01 0.05), by simp [churnCalls], _, rfl, rfl⟩
  obtain ⟨earlier, added, between, ⟨⟨addition, calls_eq, adds⟩, drawn, given⟩, place, stands, placed,
    estimate_iff, _⟩ := annotations_reach_iff "startup" 12 churnCalls _ rfl contains
  have latest : added.name = "churn" ∧ ∀ call ∈ between, call.added? = none := by
    rw [churnCalls] at calls_eq
    match earlier, calls_eq with
    | [], calls_eq =>
        cases calls_eq
        cases adds
        cases drawn
    | [_], calls_eq =>
        cases calls_eq
        cases adds
        exact ⟨rfl, by simp [added?]⟩
    | [_, _], calls_eq =>
        cases calls_eq
        cases adds
    | [_, _, _], calls_eq =>
        cases calls_eq
        cases adds
    | _ :: _ :: _ :: _ :: rest, calls_eq =>
        simp at calls_eq
  exact ⟨contains, place, stands.name_eq.trans latest.1, placed,
    (estimate_iff 0.02).mpr (.inl latest.2)⟩

/-- Calls that add a parameter which is drawn, and then one with a given value. -/
def shadowedCalls : List BuilderCall :=
  [.stochastic "a" (.normal 0.0 1.0), .parameter "k" 2.0]

/-- Behind the given value, an estimate and a correlation of the drawn parameter are dropped. -/
theorem annotations_dropped_shadowed :
    ((start "b" 2).perform shadowedCalls).pointEstimate 3.0 =
        (start "b" 2).perform shadowedCalls ∧
      ((start "b" 2).perform shadowedCalls).correlatedWith "k" 0.5 =
        (start "b" 2).perform shadowedCalls ∧
      ((start "b" 2).perform shadowedCalls).model.parameters =
        [⟨"a", none, .distribution (.normal 0.0 1.0) none []⟩,
          ⟨"k", none, .literal (.number 2.0)⟩] :=
  ⟨rfl, rfl, rfl⟩

end ModelBuilder

end EconModel
