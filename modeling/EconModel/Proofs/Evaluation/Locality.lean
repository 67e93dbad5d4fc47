import EconModel.Proofs.Evaluation.Extension

/-!
# What an evaluation depends on

An expression is evaluated from the names that it lists and from the values up to its timestep.  Two
contexts that agree there evaluate it alike, whatever else they hold; so nothing changes if a
context is cut down to what the expression lists and what is not later than its timestep.
-/

namespace EconModel

namespace SimulationState

/-- What a state holds of some variables up to a timestep. -/
def upTo (state : SimulationState) (names : List String) (timestep : Nat) : SimulationState :=
  { state with series :=
      (state.series.only names).map fun _ values => values.extract 0 (timestep + 1) }

variable {state : SimulationState} {names : List String} {timestep : Nat} {name : String}

theorem hasVariable_upTo (listed : name ∈ names) :
    (state.upTo names timestep).hasVariable name = state.hasVariable name := by
  rw [Bool.eq_iff_iff, hasVariable, hasVariable, Bindings.contains_iff_mem_names,
    Bindings.contains_iff_mem_names, upTo, Bindings.names_map, Bindings.mem_names_iff,
    Bindings.mem_names_iff, Bindings.get?_only, if_pos listed]

theorem valueAt?_upTo (listed : name ∈ names) {index : Nat} (past : index ≤ timestep) :
    (state.upTo names timestep).valueAt? name index = state.valueAt? name index := by
  rw [valueAt?, valueAt?, upTo, Bindings.get?_map, Bindings.get?_only, if_pos listed]
  cases state.series.get? name with
  | none => rfl
  | some values =>
      change (values.extract 0 (timestep + 1))[index]? = values[index]?
      rw [Array.getElem?_extract, Nat.zero_add]
      split
      · rfl
      · next beyond => exact (Array.getElem?_eq_none (by omega)).symm

end SimulationState

namespace Context

/-- What a context holds of some names up to its timestep. -/
def cutTo (context : Context) (names : List String) : Context where
  environment :=
    { context.environment with
      parameters := context.environment.parameters.only names
      scalars := context.environment.scalars.only names }
  state := context.state.upTo names context.timestep
  timestep := context.timestep

theorem agreesOn_cutTo (context : Context) (names : List String) :
    AgreesOn (· ∈ names) (context.cutTo names) context where
  timestep_eq := rfl
  functions_eq := rfl
  zeroDivision_eq := rfl
  parameter_eq name listed := by
    rw [cutTo, Bindings.get?_only, if_pos listed]
  scalar_eq name listed := by
    rw [cutTo, Bindings.get?_only, if_pos listed]
  hasVariable_eq _ listed := SimulationState.hasVariable_upTo listed
  valueAt?_eq _ listed _ past := SimulationState.valueAt?_upTo listed past

/-- Contexts that agree on the names of an expression evaluate it to the same outcome, its mark
included. -/
theorem AgreesOn.eval_eq {expr : Expr} {left right : Context}
    (agrees : AgreesOn (· ∈ expr.identifiers) left right) : left.eval expr = right.eval expr :=
  agrees.corresponds.rel_eval expr fun name => (expr.mem_identifiers_iff name).mpr

/-- The outcome of an expression depends on nothing but the names that it lists, at no later
timestep.  An equation lists the same names as its dependencies, so a context may be cut down to
these. -/
theorem eval_local (expr : Expr) (target : String) (kind : EquationKind) :
    (∀ left right, AgreesOn (· ∈ expr.identifiers) left right → left.eval expr = right.eval expr) ∧
      ∀ context : Context,
        (context.cutTo (Equation.ofExpr target kind expr).dependencies).eval expr =
          context.eval expr :=
  ⟨fun _ _ agrees => agrees.eval_eq, fun context => (context.agreesOn_cutTo _).eval_eq⟩

/-- A rate on the stock of the timestep before. -/
def growthExpr : Expr := .binary .mul (.ident "rate") (.lagged "stock" 1)

/-- A context of that expression at the second timestep, with a name and a timestep too many. -/
def growthContext (unlisted future : Value) : Context where
  environment :=
    { parameters := (Bindings.empty.insert "rate" (.number 1.5)).insert "tax" unlisted
      scalars := .empty
      functions := Catalogue.standard.toRegistry
      zeroDivision := .warn }
  state :=
    { series := Bindings.empty.insert "stock" #[.number 10.0, .number 20.0, future]
      committed := 3
      isOpen := false }
  timestep := 1

theorem eval_local_growth : ∃ left right : Context,
    left.environment.parameters.get? "tax" ≠ right.environment.parameters.get? "tax" ∧
      left.state.valueAt? "stock" 2 ≠ right.state.valueAt? "stock" 2 ∧
      AgreesOn (· ∈ growthExpr.identifiers) left right ∧
      left.eval growthExpr = right.eval growthExpr := by
  have agrees : AgreesOn (· ∈ growthExpr.identifiers) (growthContext (.number 0.2) .undefined)
      (growthContext (.text "none") (.boolean true)) := by
    have listed : growthExpr.identifiers = ["rate", "stock"] := by decide +kernel
    refine ⟨rfl, rfl, rfl, ?_, ?_, ?_, ?_⟩ <;>
      simp only [listed, List.forall_mem_cons, List.not_mem_nil, false_imp_iff, forall_const,
        and_true]
    · exact ⟨rfl, rfl⟩
    · exact ⟨rfl, rfl⟩
    · exact ⟨rfl, rfl⟩
    · refine ⟨fun index _ => rfl, fun index past => ?_⟩
      change index ≤ 1 at past
      obtain rfl | rfl : index = 0 ∨ index = 1 := by omega
      · rfl
      · rfl
  refine ⟨_, _, ?_, ?_, agrees, (eval_local growthExpr "stock" .recurrence).1 _ _ agrees⟩
  · intro equal
    cases equal
  · intro equal
    cases equal

end Context

end EconModel
