import EconModel.ConstraintCheck
import EconModel.Proofs.Evaluation.Extension

/-!
# Evaluations that yield finite numbers

An expression may evaluate to a number that is infinite or undefined, but such a number goes
nowhere: what is stored, emitted or compared is checked, and so is every argument of a function.
Hence a registry is asked about finite numbers only, and what it would say about other ones does not
matter.
-/

namespace EconModel

/-- A value is not a number that is infinite or undefined. -/
def Value.IsFinite : Value → Prop
  | .number x => x.isFinite = true
  | .boolean _ | .text _ | .undefined | .structured _ => True

/-- Every number in a table is finite. -/
def Bindings.AllFinite (table : Bindings Value) : Prop :=
  ∀ name value, table.get? name = some value → value.IsFinite

namespace Bindings.AllFinite

theorem empty : AllFinite .empty := by
  intro name value found
  cases found

theorem insert {table : Bindings Value} (finite : table.AllFinite) {value : Value}
    (value_finite : value.IsFinite) (name : String) : (table.insert name value).AllFinite := by
  intro other found_value found
  rw [get?_insert] at found
  split at found
  · cases found
    exact value_finite
  · exact finite other found_value found

theorem ofList {pairs : List (String × Value)} (finite : ∀ pair ∈ pairs, pair.2.IsFinite) :
    (Bindings.ofList pairs).AllFinite := by
  intro name value found
  exact finite (name, value) (mem_of_get?_ofList found)

end Bindings.AllFinite

namespace Evaluation

theorem isFinite_of_finite {evaluation : Evaluation Value} {value : Value}
    (found : evaluation.finite.result = .ok value) : value.IsFinite := by
  obtain ⟨middle, _, checked⟩ := andThen_eq_ok_iff.mp found
  cases middle with
  | number x =>
      change (if x.isFinite then pure (.number x) else fail (.nonFinite x) :
        Evaluation Value).result = _ at checked
      split at checked
      · next finite =>
        cases checked
        exact finite
      · cases checked
  | boolean | text | undefined | structured =>
      cases checked
      trivial

/-- What is required of every entry holds of every result. -/
theorem forall_of_forAll {α β : Type} {evaluate : α → Evaluation β} {holds : β → Prop}
    (each : ∀ entry value, (evaluate entry).result = .ok value → holds value)
    {entries : List α} {values : List β} (found : (forAll evaluate entries).result = .ok values) :
    ∀ value ∈ values, holds value := by
  induction entries generalizing values with
  | nil =>
      cases found
      simp
  | cons entry rest ih =>
      obtain ⟨first, found_first, found⟩ := andThen_eq_ok_iff.mp found
      obtain ⟨others, found_others, found⟩ := andThen_eq_ok_iff.mp found
      cases found
      intro value member
      rcases List.mem_cons.mp member with rfl | member
      · exact each entry value found_first
      · exact ih found_others value member

end Evaluation

namespace Context

open Evaluation

variable {context : Context}

theorem isFinite_of_evalFinite {expr : Expr} {value : Value}
    (found : (context.evalFinite expr).result = .ok value) : value.IsFinite :=
  isFinite_of_finite found

theorem isFinite_of_evalNumber {expr : Expr} {x : Float}
    (found : (context.evalNumber expr).result = .ok x) : x.isFinite = true := by
  obtain ⟨value, found_value, found_number⟩ := andThen_eq_ok_iff.mp found
  have finite := isFinite_of_evalFinite found_value
  cases value with
  | number y =>
      cases found_number
      exact finite
  | boolean | text | undefined | structured => cases found_number

theorem isFinite_of_evalAll {arguments : List Expr} {values : List Value}
    (found : (context.evalAll arguments).result = .ok values) :
    ∀ value ∈ values, value.IsFinite := by
  rw [evalAll_eq_forAll] at found
  exact forall_of_forAll (fun _ _ => isFinite_of_evalFinite) found

theorem allFinite_of_evalArguments {arguments : Bindings Expr} {values : Bindings Value}
    (found : (context.evalArguments arguments).result = .ok values) : values.AllFinite := by
  obtain ⟨pairs, found_pairs, found⟩ := andThen_eq_ok_iff.mp found
  cases found
  refine .ofList (forall_of_forAll (fun entry pair found_pair => ?_) found_pairs)
  obtain ⟨value, found_value, found_pair⟩ := andThen_eq_ok_iff.mp found_pair
  cases found_pair
  exact isFinite_of_evalFinite found_value

/-- The sides of a comparison that is missed are finite. -/
theorem isFinite_of_shortfall {condition : Expr} {x : Float}
    (found : (context.shortfall condition).actual = some x ∨
      (context.shortfall condition).expected = some x) : x.isFinite = true := by
  cases condition with
  | binary op left right =>
      simp only [shortfall] at found
      split at found
      · split at found
        · next first second found_left found_right =>
          simp only [Option.some.injEq] at found
          rcases found with rfl | rfl
          · exact isFinite_of_evalNumber found_left
          · exact isFinite_of_evalNumber found_right
        · simp [Shortfall.none] at found
      · simp [Shortfall.none] at found
  | number | boolean | text | ident | lagged | time | unary | conditional | call =>
      simp [shortfall, Shortfall.none] at found

/-! ## Calls -/

/-- In the evaluation of an expression a function is called with some values.  Every call is counted
whose arguments have values, even if the evaluation does not come to it. -/
def Calls (context : Context) (expr : Expr) (function : String) (values : List Value) : Prop :=
  ∃ arguments, .call function arguments ∈ expr.nodes ∧
    (context.evalAll arguments).result = .ok values

/-- Functions are called with finite numbers only. -/
theorem Calls.isFinite {expr : Expr} {function : String} {values : List Value}
    (calls : context.Calls expr function values) : ∀ value ∈ values, value.IsFinite := by
  obtain ⟨arguments, _, found⟩ := calls
  exact isFinite_of_evalAll found

/-- A context with other functions. -/
def withFunctions (context : Context) (functions : FunctionRegistry) : Context :=
  { context with environment := { context.environment with functions } }

theorem Calls.mono {part whole : Expr} (within : ∀ node ∈ part.nodes, node ∈ whole.nodes)
    {function : String} {values : List Value} (calls : context.Calls part function values) :
    context.Calls whole function values := by
  obtain ⟨arguments, node, found⟩ := calls
  exact ⟨arguments, within _ node, found⟩

/-- An evaluation depends on the functions through its calls only. -/
theorem eval_withFunctions (functions : FunctionRegistry) (expr : Expr)
    (agree : ∀ function values, context.Calls expr function values →
      functions.call function values = context.environment.functions.call function values) :
    (context.withFunctions functions).eval expr = context.eval expr := by
  have strict_eq : (context.withFunctions functions).strict = context.strict := rfl
  induction expr with
  | number | boolean | text | time | ident | lagged => rfl
  | unary op operand ih =>
      have operand_eq := ih fun function values calls => agree function values
        (calls.mono fun node member => by simp [Expr.nodes, member])
      cases op with
      | neg | not => rw [eval, eval, operand_eq]
  | binary op left right ih_left ih_right =>
      have left_eq := ih_left fun function values calls => agree function values
        (calls.mono fun node member => by simp [Expr.nodes, member])
      have right_eq := ih_right fun function values calls => agree function values
        (calls.mono fun node member => by simp [Expr.nodes, member])
      cases op with
      | and | or => rw [eval, eval, left_eq, right_eq]
      | add | sub | mul | div | rem | pow | lt | le | gt | ge | eq | ne =>
          simp only [eval, left_eq, right_eq, strict_eq]
  | conditional condition whenTrue whenFalse ih_condition ih_true ih_false =>
      have condition_eq := ih_condition fun function values calls => agree function values
        (calls.mono fun node member => by simp [Expr.nodes, member])
      have true_eq := ih_true fun function values calls => agree function values
        (calls.mono fun node member => by simp [Expr.nodes, member])
      have false_eq := ih_false fun function values calls => agree function values
        (calls.mono fun node member => by simp [Expr.nodes, member])
      rw [eval, eval, condition_eq, true_eq, false_eq]
  | call function arguments ih =>
      have each (argument : Expr) (argument_mem : argument ∈ arguments) :
          (context.withFunctions functions).eval argument = context.eval argument :=
        ih argument argument_mem fun function' values calls =>
          agree function' values (calls.mono fun _ => Expr.mem_nodes_call argument_mem)
      have all_eq : (context.withFunctions functions).evalAll arguments =
          context.evalAll arguments :=
        Corresponds.rel_evalAll (show ∀ argument ∈ arguments,
          Correspondence.identity.Rel _ (context.eval argument) from each)
      rw [eval, eval, all_eq]
      change (context.evalAll arguments).andThen _ = (context.evalAll arguments).andThen _
      cases found : (context.evalAll arguments).result with
      | error error => rw [andThen_of_error found, andThen_of_error found]
      | ok values =>
          have call_eq := agree function values ⟨arguments, by simp [Expr.nodes], found⟩
          rw [andThen_of_ok found, andThen_of_ok found]
          change Evaluation.mk (functions.call function values) _ = _
          rw [call_eq]
          rfl

end Context

end EconModel
