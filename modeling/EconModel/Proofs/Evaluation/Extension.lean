import EconModel.Proofs.Evaluation.Correspondence
import EconModel.Proofs.State

/-!
# Contexts that define more

Contexts that read alike evaluate alike; it is enough that they do so up to their timestep, since no
expression reads a later value.  A context extends another one if it defines whatever the
other one defines; then an expression that has a value in the other one has the same value in it,
with the same mark.  Only failures can change, because what was missing may be there.
-/

namespace EconModel

namespace Evaluation.Correspondence

/-- Corresponding evaluations are equal. -/
def identity : Correspondence where
  Rel left right := left = right
  rel_pure _ := rfl
  rel_fail _ := rfl
  rel_andThen := by
    intro α β left right next next' equal agree
    subst equal
    cases found : left.result with
    | error error => rw [andThen_of_error found, andThen_of_error found]
    | ok value => rw [andThen_of_ok found, andThen_of_ok found, agree value found]

/-- If the left evaluation succeeds, the right one is equal to it. -/
def refinement : Correspondence where
  Rel left right := ∀ value, left.result = .ok value → right = left
  rel_pure _ _ _ := rfl
  rel_fail _ _ _ := rfl
  rel_andThen := by
    intro α β left right next next' refines agree value found
    obtain ⟨middle, found_left, found_next⟩ := andThen_eq_ok_iff.mp found
    rw [refines middle found_left, andThen_of_ok found_left, andThen_of_ok found_left,
      agree middle found_left value found_next]

end Evaluation.Correspondence

namespace Context

open Evaluation

theorem lookup_eq_ok_iff {context : Context} {name : String} {lag : UInt64} {value : Value} :
    context.lookup name lag = .ok value ↔
      lag.toNat ≤ context.timestep ∧ value ≠ .undefined ∧
        context.state.valueAt? name (context.timestep - lag.toNat) = some value := by
  unfold lookup
  constructor
  · intro found
    split at found
    · split at found
      · next bound =>
        split at found
        · cases found
        · cases found
        · next other defined found_value =>
          cases found
          exact ⟨bound, defined, found_value⟩
      · cases found
    · cases found
  · rintro ⟨bound, defined, found⟩
    rw [if_pos (SimulationState.hasVariable_of_valueAt? found), if_pos bound, found]
    cases value with
    | undefined => exact (defined rfl).elim
    | number | boolean | text | structured => rfl

/-! ## Contexts that read alike -/

/-- Two contexts at one timestep agree on some names: on what these are bound to, and on the values
of their series up to the timestep. -/
structure AgreesOn (named : String → Prop) (left right : Context) : Prop where
  timestep_eq : left.timestep = right.timestep
  functions_eq : left.environment.functions = right.environment.functions
  zeroDivision_eq : left.environment.zeroDivision = right.environment.zeroDivision
  parameter_eq : ∀ name, named name →
    left.environment.parameters.get? name = right.environment.parameters.get? name
  scalar_eq : ∀ name, named name →
    left.environment.scalars.get? name = right.environment.scalars.get? name
  hasVariable_eq : ∀ name, named name → left.state.hasVariable name = right.state.hasVariable name
  valueAt?_eq : ∀ name, named name → ∀ index ≤ left.timestep,
    left.state.valueAt? name index = right.state.valueAt? name index

namespace AgreesOn

variable {named : String → Prop} {left right : Context} {name : String}

theorem lookup_eq (agrees : AgreesOn named left right) (found : named name) (lag : UInt64) :
    left.lookup name lag = right.lookup name lag := by
  rw [lookup, lookup, agrees.hasVariable_eq name found,
    agrees.valueAt?_eq name found _ (Nat.sub_le _ _), agrees.timestep_eq]

theorem resolve_eq (agrees : AgreesOn named left right) (found : named name) :
    left.resolve name = right.resolve name := by
  simp only [resolve, agrees.parameter_eq name found, agrees.scalar_eq name found,
    agrees.lookup_eq found]

theorem corresponds (agrees : AgreesOn named left right) :
    Corresponds Correspondence.identity named left right where
  timestep_eq := agrees.timestep_eq
  rel_resolve _ found := congrArg ofResult (agrees.resolve_eq found)
  rel_lookup _ lag found := congrArg ofResult (agrees.lookup_eq found lag)
  rel_divide quotient x y := by
    change left.divide quotient x y = right.divide quotient x y
    rw [divide, divide, agrees.zeroDivision_eq]
  rel_call function values := by
    change ofResult _ = ofResult _
    rw [agrees.functions_eq]

end AgreesOn

/-- Two environments read alike. -/
structure SameEnvironment (left right : Environment) : Prop where
  parameters : left.parameters.SameMap right.parameters
  scalars : left.scalars.SameMap right.scalars
  functions_eq : left.functions = right.functions
  zeroDivision_eq : left.zeroDivision = right.zeroDivision

/-- Two contexts have the same past: they read alike up to their timestep.  Nothing later is read
by an expression. -/
structure SamePast (left right : Context) : Prop where
  timestep_eq : left.timestep = right.timestep
  environments : SameEnvironment left.environment right.environment
  hasVariable_eq : ∀ name, left.state.hasVariable name = right.state.hasVariable name
  valueAt?_eq : ∀ name {index : Nat}, index ≤ left.timestep →
    left.state.valueAt? name index = right.state.valueAt? name index

namespace SamePast

variable {left right : Context}

theorem agreesOn (same : SamePast left right) : AgreesOn (fun _ => True) left right where
  timestep_eq := same.timestep_eq
  functions_eq := same.environments.functions_eq
  zeroDivision_eq := same.environments.zeroDivision_eq
  parameter_eq name _ := same.environments.parameters name
  scalar_eq name _ := same.environments.scalars name
  hasVariable_eq name _ := same.hasVariable_eq name
  valueAt?_eq name _ _ past := same.valueAt?_eq name past

theorem resolve_eq (same : SamePast left right) (name : String) :
    left.resolve name = right.resolve name :=
  same.agreesOn.resolve_eq trivial

theorem corresponds (same : SamePast left right) :
    Corresponds Correspondence.identity (fun _ => True) left right :=
  same.agreesOn.corresponds

theorem evalFinite_eq (same : SamePast left right) (expr : Expr) :
    left.evalFinite expr = right.evalFinite expr :=
  same.corresponds.rel_evalFinite expr fun _ _ => trivial

end SamePast

/-- Two contexts read alike. -/
structure SameReading (left right : Context) : Prop where
  timestep_eq : left.timestep = right.timestep
  parameters : left.environment.parameters.SameMap right.environment.parameters
  scalars : left.environment.scalars.SameMap right.environment.scalars
  functions_eq : left.environment.functions = right.environment.functions
  zeroDivision_eq : left.environment.zeroDivision = right.environment.zeroDivision
  series : left.state.series.SameMap right.state.series

namespace SameReading

variable {left right : Context}

theorem symm (same : SameReading left right) : SameReading right left :=
  ⟨same.timestep_eq.symm, same.parameters.symm, same.scalars.symm, same.functions_eq.symm,
    same.zeroDivision_eq.symm, same.series.symm⟩

theorem of_environment {environment environment' : Environment}
    (same : SameEnvironment environment environment') {state state' : SimulationState}
    (series : state.series.SameMap state'.series) (timestep : Nat) :
    SameReading ⟨environment, state, timestep⟩ ⟨environment', state', timestep⟩ :=
  ⟨rfl, same.parameters, same.scalars, same.functions_eq, same.zeroDivision_eq, series⟩

theorem samePast (same : SameReading left right) : SamePast left right where
  timestep_eq := same.timestep_eq
  environments := ⟨same.parameters, same.scalars, same.functions_eq, same.zeroDivision_eq⟩
  hasVariable_eq := same.series.contains_eq
  valueAt?_eq name _ _ := by
    rw [SimulationState.valueAt?, SimulationState.valueAt?, same.series name]

theorem resolve_eq (same : SameReading left right) (name : String) :
    left.resolve name = right.resolve name :=
  same.samePast.resolve_eq name

theorem evalFinite_eq (same : SameReading left right) (expr : Expr) :
    left.evalFinite expr = right.evalFinite expr :=
  same.samePast.evalFinite_eq expr

theorem evalBoolean_eq (same : SameReading left right) (expr : Expr) :
    left.evalBoolean expr = right.evalBoolean expr :=
  same.samePast.corresponds.rel_evalBoolean expr fun _ _ => trivial

theorem evalNumber_eq (same : SameReading left right) (expr : Expr) :
    left.evalNumber expr = right.evalNumber expr :=
  same.samePast.corresponds.rel_evalNumber expr fun _ _ => trivial

end SameReading

/-! ## Contexts that define more -/

/-- A context defines whatever another one defines. -/
structure Extends (less more : Context) : Prop where
  timestep_eq : more.timestep = less.timestep
  parameters : less.environment.parameters.SameMap more.environment.parameters
  functions_eq : more.environment.functions = less.environment.functions
  zeroDivision_eq : more.environment.zeroDivision = less.environment.zeroDivision
  /-- A slot keeps its value unless it was undefined. -/
  slot : ∀ {name : String} {index : Nat} {value : Value},
    less.state.valueAt? name index = some value → value ≠ .undefined →
      more.state.valueAt? name index = some value
  /-- A scalar keeps its value. -/
  scalar : ∀ {name : String} {value : Value},
    less.environment.scalars.get? name = some value →
      more.environment.scalars.get? name = some value
  /-- A new scalar hides no value of a variable. -/
  new_scalar : ∀ {name : String} {value : Value},
    less.environment.scalars.get? name = none →
      more.environment.scalars.get? name = some value →
        ∀ {index : Nat} {hidden : Value},
          less.state.valueAt? name index = some hidden → hidden = .undefined

namespace Extends

variable {less more : Context}

theorem refl (context : Context) : Extends context context where
  timestep_eq := rfl
  parameters := .refl _
  functions_eq := rfl
  zeroDivision_eq := rfl
  slot found _ := found
  scalar found := found
  new_scalar absent present := by rw [absent] at present; cases present

theorem trans {first second third : Context} (left : Extends first second)
    (right : Extends second third) : Extends first third where
  timestep_eq := right.timestep_eq.trans left.timestep_eq
  parameters := left.parameters.trans right.parameters
  functions_eq := right.functions_eq.trans left.functions_eq
  zeroDivision_eq := right.zeroDivision_eq.trans left.zeroDivision_eq
  slot found defined := right.slot (left.slot found defined) defined
  scalar found := right.scalar (left.scalar found)
  new_scalar := by
    intro name value absent present index hidden found
    cases middle : second.environment.scalars.get? name with
    | some other => exact left.new_scalar absent middle found
    | none =>
        by_contra defined
        exact defined (right.new_scalar middle present (left.slot found defined))

theorem lookup_eq_ok (extension : Extends less more) {name : String} {lag : UInt64} {value : Value}
    (found : less.lookup name lag = .ok value) : more.lookup name lag = .ok value := by
  obtain ⟨bound, defined, found_slot⟩ := lookup_eq_ok_iff.mp found
  rw [lookup_eq_ok_iff, extension.timestep_eq]
  exact ⟨bound, defined, extension.slot found_slot defined⟩

theorem resolve_eq_ok (extension : Extends less more) {name : String} {value : Value}
    (found : less.resolve name = .ok value) : more.resolve name = .ok value := by
  unfold resolve at found ⊢
  rw [← extension.parameters name]
  cases parameter : less.environment.parameters.get? name with
  | some other => simpa only [parameter] using found
  | none =>
      simp only [parameter] at found ⊢
      cases scalar : less.environment.scalars.get? name with
      | some other =>
          simp only [scalar] at found
          simpa only [extension.scalar scalar] using found
      | none =>
          simp only [scalar] at found
          obtain ⟨_, defined, found_slot⟩ := lookup_eq_ok_iff.mp found
          cases later : more.environment.scalars.get? name with
          | some other => exact (defined (extension.new_scalar scalar later found_slot)).elim
          | none => exact extension.lookup_eq_ok found

theorem corresponds (extension : Extends less more) :
    Corresponds Correspondence.refinement (fun _ => True) less more where
  timestep_eq := extension.timestep_eq.symm
  rel_resolve name _ := by
    intro value found
    exact congrArg ofResult ((extension.resolve_eq_ok found).trans found.symm)
  rel_lookup name lag _ := by
    intro value found
    exact congrArg ofResult ((extension.lookup_eq_ok found).trans found.symm)
  rel_divide quotient x y := by
    intro value _
    rw [divide, divide, extension.zeroDivision_eq]
  rel_call function values := by
    intro value _
    rw [extension.functions_eq]

/-- What has a value to be stored keeps it, and its mark, where more is defined. -/
theorem evalFinite_eq (extension : Extends less more) {expr : Expr} {value : Value}
    (found : (less.evalFinite expr).result = .ok value) :
    more.evalFinite expr = less.evalFinite expr :=
  extension.corresponds.rel_evalFinite expr (fun _ _ => trivial) value found

end Extends

theorem SameReading.toExtends {left right : Context} (same : SameReading left right) :
    Extends left right where
  timestep_eq := same.timestep_eq.symm
  parameters := same.parameters
  functions_eq := same.functions_eq.symm
  zeroDivision_eq := same.zeroDivision_eq.symm
  slot := by
    intro name index value found _
    rw [SimulationState.valueAt?, ← same.series name]
    exact found
  scalar := by
    intro name value found
    rw [← same.scalars name, found]
  new_scalar := by
    intro name value absent present
    rw [← same.scalars name, absent] at present
    cases present

end Context

end EconModel
