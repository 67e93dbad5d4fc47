import EconModel.Proofs.Evaluation.Extension

/-!
# Evaluation is monotone

Where more is defined, an expression that had a value keeps it, and keeps its mark.  This is what
lets equations be solved by trying them again: what has been computed is never computed otherwise
later on.
-/

namespace EconModel

/-- A second evaluation has the value and the mark of a first one, if the first one has a value. -/
def Evaluation.KeptBy {α : Type} (first second : Evaluation α) : Prop :=
  ∀ value, first.result = .ok value →
    second.result = .ok value ∧ second.dividedByZero = first.dividedByZero

namespace Context

open Evaluation

theorem keptBy_of_rel {α : Type} {first second : Evaluation α}
    (rel : Correspondence.refinement.Rel first second) : first.KeptBy second := by
  intro value found
  have equal : second = first := rel value found
  rw [equal]
  exact ⟨found, rfl⟩

/-- An expression that has a value keeps it, with its mark, in every context that defines more: one
whose series agree wherever they were defined, and whose new scalars stand for no variable.  The
same holds where the value is to be stored, has to be a truth value or has to be a number. -/
theorem eval_monotone {less more : Context} (extension : Extends less more) (expr : Expr) :
    (less.eval expr).KeptBy (more.eval expr) ∧
      (less.evalFinite expr).KeptBy (more.evalFinite expr) ∧
      (less.evalBoolean expr).KeptBy (more.evalBoolean expr) ∧
      (less.evalNumber expr).KeptBy (more.evalNumber expr) := by
  have corresponds := extension.corresponds
  refine ⟨keptBy_of_rel ?value, keptBy_of_rel ?finite, keptBy_of_rel ?boolean,
    keptBy_of_rel ?number⟩
  case value => exact corresponds.rel_eval expr fun _ _ => trivial
  case finite => exact corresponds.rel_evalFinite expr fun _ _ => trivial
  case boolean => exact corresponds.rel_evalBoolean expr fun _ _ => trivial
  case number => exact corresponds.rel_evalNumber expr fun _ _ => trivial

/-- A share of the stock before, by a divisor that is zero, unless the stock now is needed. -/
def shareExpr : Expr :=
  .conditional (.binary .or (.binary .gt (.lagged "stock" 1) (.number 5.0)) (.ident "ready"))
    (.binary .div (.lagged "stock" 1) (.ident "divisor")) (.ident "stock")

/-- A context of that expression at the second timestep, with the given scalars and the given value
of the stock at that timestep. -/
def shareContext (scalars : Bindings Value) (present : Value) : Context where
  environment :=
    { parameters := Bindings.empty.insert "divisor" (.number 0.0)
      scalars := scalars
      functions := Catalogue.standard.toRegistry
      zeroDivision := .warn }
  state :=
    { series := Bindings.empty.insert "stock" #[.number 10.0, present]
      committed := 1
      isOpen := true }
  timestep := 1

theorem extends_shareContext : Extends (shareContext .empty .undefined)
    (shareContext (Bindings.empty.insert "rate" (.number 0.5)) (.number 20.0)) where
  timestep_eq := rfl
  parameters := .refl _
  functions_eq := rfl
  zeroDivision_eq := rfl
  slot := by
    intro name index value found defined
    simp only [SimulationState.valueAt?, shareContext, Bindings.get?_insert] at found ⊢
    split at found
    · next same =>
      rw [if_pos same]
      rcases index with _ | _ | _
      · exact found
      · cases found
        exact (defined rfl).elim
      · cases found
    · cases found
  scalar found := by cases found
  new_scalar := by
    intro name value _ present index hidden found
    simp only [shareContext, Bindings.get?_insert, Bindings.get?_empty] at present
    split at present
    · next same =>
      subst same
      cases found
    · cases present

theorem eval_monotone_share : ∃ less more : Context, Extends less more ∧
    less.state.valueAt? "stock" 1 ≠ more.state.valueAt? "stock" 1 ∧
    (less.eval shareExpr).result = .ok (.number 0.0) ∧
    (less.eval shareExpr).dividedByZero = true ∧
    (more.eval shareExpr).result = .ok (.number 0.0) ∧
    (more.eval shareExpr).dividedByZero = true := by
  have value : ((shareContext .empty .undefined).eval shareExpr).result = .ok (.number 0.0) := rfl
  obtain ⟨kept, marked⟩ := (eval_monotone extends_shareContext shareExpr).1 _ value
  refine ⟨_, _, extends_shareContext, ?_, value, rfl, kept, marked⟩
  intro equal
  cases equal

end Context

end EconModel
