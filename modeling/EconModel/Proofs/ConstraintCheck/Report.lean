import EconModel.Proofs.Binary64.Order
import EconModel.Proofs.ConstraintCheck
import EconModel.Proofs.Evaluation.Finite

/-!
# What a report of constraints says

A check gets to the constraints up to the first fatal one that is violated.  Of these it reports the
ones that are violated and skips the ones that have no truth value, in their order.  A violation
gives the two sides of its condition exactly if that compares two finite numbers; the comparison
then fails on the sides given, and the distance by which it is missed has the sign that belongs to
it.
-/

namespace EconModel

/-! ## Comparisons of numbers -/

namespace BinaryOp

/-- Whether a comparison holds between two numbers; other operators compare nothing. -/
def Holds (op : BinaryOp) (actual expected : ℚ) : Prop :=
  match op with
  | .lt => actual < expected
  | .le => actual ≤ expected
  | .gt => expected < actual
  | .ge => expected ≤ actual
  | .eq => actual = expected
  | .ne => actual ≠ expected
  | .add | .sub | .mul | .div | .rem | .pow | .and | .or => False

/-- What is known about the distance by which a comparison is missed that does not hold. -/
def Missed (op : BinaryOp) (amount : ℚ) : Prop :=
  match op with
  | .le | .ge => 0 < amount
  | .lt | .gt => 0 ≤ amount
  | .eq => amount ≠ 0
  | .ne => amount = 0
  | .add | .sub | .mul | .div | .rem | .pow | .and | .or => False

variable {op : BinaryOp}

theorem missed_of_not_holds (comparison : op.isComparison = true) {actual expected : ℚ}
    (refuted : ¬ op.Holds actual expected) :
    ∃ amount, op.violationAmount? actual expected = some amount ∧ op.Missed amount := by
  cases op with
  | lt => exact ⟨_, rfl, sub_nonneg.mpr (not_lt.mp refuted)⟩
  | le => exact ⟨_, rfl, sub_pos.mpr (not_le.mp refuted)⟩
  | gt => exact ⟨_, rfl, sub_nonneg.mpr (not_lt.mp refuted)⟩
  | ge => exact ⟨_, rfl, sub_pos.mpr (not_le.mp refuted)⟩
  | eq => exact ⟨_, rfl, sub_ne_zero.mpr refuted⟩
  | ne => exact ⟨_, rfl, by norm_num [Missed]⟩
  | add | sub | mul | div | rem | pow | and | or => cases comparison

open Binary64

/-- The distance that is given is the exact one, rounded. -/
theorem violationAmount?_rounds {x y : Float} (x_finite : x.isFinite = true)
    (y_finite : y.isFinite = true) {exact : ℚ}
    (exact_eq : op.violationAmount? (toRat x) (toRat y) = some exact) :
    ∃ amount, op.violationAmount? x y = some amount ∧ Rounds exact amount := by
  cases op with
  | gt | ge =>
      cases exact_eq
      exact ⟨_, rfl, rounds_sub (finite_unpack y_finite) (finite_unpack x_finite)⟩
  | lt | le | eq =>
      cases exact_eq
      exact ⟨_, rfl, rounds_sub (finite_unpack x_finite) (finite_unpack y_finite)⟩
  | ne =>
      cases exact_eq
      exact ⟨_, rfl, .zero .positive (by norm_num) rfl⟩
  | add | sub | mul | div | rem | pow | and | or => cases exact_eq

end BinaryOp

namespace Context

open Evaluation

variable {context : Context} {op : BinaryOp}

open Binary64 in
/-- A comparison of finite numbers yields whether it holds. -/
theorem exists_eval_comparison (comparison : op.isComparison = true) {x y : Float}
    (x_finite : x.isFinite = true) (y_finite : y.isFinite = true) :
    ∃ truth, (context.eval (.binary op (.number x) (.number y))).result = .ok (.boolean truth) ∧
      (truth = true ↔ op.Holds (toRat x) (toRat y)) := by
  cases op with
  | lt => exact ⟨_, rfl, decide_eq_true_iff.trans (toRat_lt_iff x_finite y_finite)⟩
  | le => exact ⟨_, rfl, decide_eq_true_iff.trans (toRat_le_iff x_finite y_finite)⟩
  | gt => exact ⟨_, rfl, decide_eq_true_iff.trans (toRat_lt_iff y_finite x_finite)⟩
  | ge => exact ⟨_, rfl, decide_eq_true_iff.trans (toRat_le_iff y_finite x_finite)⟩
  | eq => exact ⟨_, rfl, toRat_eq_iff x_finite y_finite⟩
  | ne =>
      refine ⟨_, rfl, ?_⟩
      rw [Bool.not_eq_true', ← Bool.not_eq_true]
      exact (toRat_eq_iff x_finite y_finite).not
  | add | sub | mul | div | rem | pow | and | or => cases comparison

/-- An expression denotes a finite number exactly if that is its value. -/
theorem evalNumber_eq_ok_iff {expr : Expr} {x : Float} :
    (context.evalNumber expr).result = .ok x ↔
      (context.eval expr).result = .ok (.number x) ∧ x.isFinite = true := by
  constructor
  · intro found
    refine ⟨?_, isFinite_of_evalNumber found⟩
    obtain ⟨value, found_value, found_number⟩ := andThen_eq_ok_iff.mp found
    obtain ⟨before, found_before, found_finite⟩ := andThen_eq_ok_iff.mp found_value
    rw [found_before]
    cases before with
    | number y =>
        dsimp only at found_finite
        split at found_finite
        · cases found_finite
          cases found_number
          rfl
        · cases found_finite
    | boolean | text | undefined | structured =>
        cases found_finite
        cases found_number
  · rintro ⟨found, finite⟩
    refine andThen_eq_ok_iff.mpr ⟨.number x, andThen_eq_ok_iff.mpr ⟨_, found, ?_⟩, rfl⟩
    simp only [finite, if_true]
    rfl

/-- A condition compares two finite numbers. -/
structure Compares (context : Context) (condition : Expr) (op : BinaryOp) (x y : Float) :
    Prop where
  isComparison : op.isComparison = true
  /-- The numbers are the values of its sides. -/
  sides : ∃ left right, condition = .binary op left right ∧
    (context.eval left).result = .ok (.number x) ∧ (context.eval right).result = .ok (.number y)
  left_finite : x.isFinite = true
  right_finite : y.isFinite = true

theorem Compares.shortfall_eq {condition : Expr} {x y : Float}
    (compares : context.Compares condition op x y) :
    context.shortfall condition = ⟨some x, some y, some op.symbol, op.violationAmount? x y⟩ := by
  obtain ⟨comparison, ⟨left, right, rfl, found_left, found_right⟩, x_finite, y_finite⟩ := compares
  rw [shortfall, if_pos comparison, evalNumber_eq_ok_iff.mpr ⟨found_left, x_finite⟩,
    evalNumber_eq_ok_iff.mpr ⟨found_right, y_finite⟩]

/-- A shortfall is given for a comparison of two finite numbers only. -/
theorem shortfall_eq_none {condition : Expr}
    (other : ∀ op x y, ¬ context.Compares condition op x y) :
    context.shortfall condition = .none := by
  unfold shortfall
  split
  · next op left right =>
    split
    · next comparison =>
      split
      · next x y found_left found_right =>
        rw [evalNumber_eq_ok_iff] at found_left found_right
        exact (other op x y ⟨comparison, ⟨left, right, rfl, found_left.1, found_right.1⟩,
          found_left.2, found_right.2⟩).elim
      · rfl
    · rfl
  · rfl

/-- A comparison that is evaluated comes to comparing the values of its sides. -/
theorem Compares.result_eq {condition : Expr} {x y : Float}
    (compares : context.Compares condition op x y) :
    (context.eval condition).result =
      (context.eval (.binary op (.number x) (.number y))).result := by
  obtain ⟨comparison, ⟨left, right, rfl, found_left, found_right⟩, _, _⟩ := compares
  have strict (first second : Expr) : context.eval (.binary op first second) =
      (context.eval first).andThen fun value => (context.eval second).andThen fun other =>
        context.strict op value other := by
    cases op with
    | lt | le | gt | ge | eq | ne => rfl
    | add | sub | mul | div | rem | pow | and | or => cases comparison
  rw [strict, strict, andThen_of_ok found_left, andThen_of_ok found_right]
  rfl

/-! ## What is reported -/

/-- A constraint is violated if its condition is false. -/
def violates (context : Context) (constraint : Constraint) : Bool :=
  match (context.evalBoolean constraint.condition).result with
  | .ok truth => !truth
  | .error _ => false

/-- A fatal constraint that is violated ends a check. -/
def halts (context : Context) (constraint : Constraint) : Bool :=
  context.violates constraint && constraint.severity.isFatal

/-- The diagnostic of a constraint whose condition has no truth value. -/
def skipped? (context : Context) (constraint : Constraint) : Option Diagnostic :=
  match (context.evalBoolean constraint.condition).result with
  | .ok _ => none
  | .error error => some (.constraintSkipped context.stamp constraint.name error.message)

/-- The constraints in front of the one that ends a check. -/
def passed (context : Context) (constraints : List Constraint) : List Constraint :=
  constraints.takeWhile fun constraint => !context.halts constraint

/-- The constraints that a check gets to: those that it passes and the one that ends it. -/
def checked (context : Context) (constraints : List Constraint) : List Constraint :=
  context.passed constraints ++ (constraints.find? context.halts).toList

theorem checked_cons (constraint : Constraint) (rest : List Constraint) :
    context.checked (constraint :: rest) =
      constraint :: if context.halts constraint then [] else context.checked rest := by
  rw [checked, passed, List.takeWhile_cons, List.find?_cons]
  cases context.halts constraint <;> rfl

theorem violations_check_eq (constraints : List Constraint) :
    (context.check constraints).violations =
      ((context.checked constraints).filter context.violates).map context.violation := by
  induction constraints with
  | nil => rfl
  | cons constraint rest ih =>
      rw [violations_check_cons, checked_cons, List.filter_cons, halts, violates]
      cases (context.evalBoolean constraint.condition).result with
      | error error => exact ih
      | ok truth =>
          cases truth with
          | true => exact ih
          | false =>
              rw [ih]
              cases constraint.severity <;> rfl

theorem skipped_check_eq (constraints : List Constraint) :
    (context.check constraints).skipped =
      (context.passed constraints).filterMap context.skipped? := by
  induction constraints with
  | nil => rfl
  | cons constraint rest ih =>
      rw [check, passed, List.takeWhile_cons, halts, violates]
      cases result : (context.evalBoolean constraint.condition).result with
      | error error =>
          have skipped_eq : context.skipped? constraint =
              some (.constraintSkipped context.stamp constraint.name error.message) := by
            rw [skipped?, result]
          exact (congrArg (_ :: ·) ih).trans (List.filterMap_cons_some skipped_eq).symm
      | ok truth =>
          have kept : context.skipped? constraint = none := by rw [skipped?, result]
          cases truth with
          | true => exact ih.trans (List.filterMap_cons_none kept).symm
          | false =>
              cases constraint.severity with
              | fatal => rfl
              | warning => exact ih.trans (List.filterMap_cons_none kept).symm

theorem isFatal_check_iff (constraints : List Constraint) :
    (context.check constraints).isFatal = true ↔
      (constraints.find? context.halts).isSome = true := by
  rw [List.find?_isSome]
  constructor
  · intro fatal
    obtain ⟨earlier, last, violations_eq, last_fatal⟩ := ConstraintReport.isFatal_iff.mp fatal
    obtain ⟨constraint, member, last_eq, violated⟩ := context.exists_of_mem_check
      (violations_eq ▸ List.mem_append_right earlier (List.mem_singleton_self last))
    refine ⟨constraint, member, ?_⟩
    cases last_eq
    rw [halts, violates, violated]
    exact last_fatal
  · rintro ⟨constraint, member, halts⟩
    obtain ⟨violated, fatal⟩ := (Bool.and_eq_true _ _).mp halts
    refine context.isFatal_check_of_mem member fatal ?_
    rw [violates] at violated
    split at violated
    · next truth result =>
      cases truth with
      | false => exact result
      | true => cases violated
    · cases violated

open Binary64 in
/-- A violation describes a constraint, and what it says about the sides of the condition is
consistent. -/
structure Describes (context : Context) (constraint : Constraint) (violation : Violation) :
    Prop where
  timestep_eq : violation.timestep = context.stamp
  constraint_eq : violation.constraint = constraint.name
  severity_eq : violation.severity = constraint.severity
  /-- The sides, the operator and the distance are given together. -/
  whole : violation.shortfall = .none ∨
    ∃ x y symbol amount, violation.shortfall = ⟨some x, some y, some symbol, some amount⟩
  /-- They are given exactly if the condition compares two finite numbers. -/
  present_iff : violation.shortfall.actual.isSome = true ↔
    ∃ op x y, context.Compares constraint.condition op x y
  /-- They are those of the condition.  The comparison fails on the sides that are given, and the
  distance is the exact one, rounded. -/
  consistent : ∀ x y symbol amount,
    violation.shortfall = ⟨some x, some y, some symbol, some amount⟩ →
      ∃ op, context.Compares constraint.condition op x y ∧ symbol = op.symbol ∧
        (context.eval (.binary op (.number x) (.number y))).result = .ok (.boolean false) ∧
          ∃ exact, op.violationAmount? (toRat x) (toRat y) = some exact ∧ op.Missed exact ∧
            Rounds exact amount

/-- A condition that is false and compares two finite numbers fails on them. -/
theorem Compares.refuted {constraint : Constraint} {x y : Float}
    (compares : context.Compares constraint.condition op x y)
    (violated : context.violates constraint = true) :
    (context.eval (.binary op (.number x) (.number y))).result = .ok (.boolean false) := by
  rw [violates] at violated
  split at violated
  · next truth found =>
    obtain ⟨value, found_value, found_truth⟩ := andThen_eq_ok_iff.mp found
    rw [compares.result_eq] at found_value
    cases value with
    | boolean other =>
        cases found_truth
        rwa [(Bool.not_eq_true' _).mp violated] at found_value
    | number | text | undefined | structured => cases found_truth
  · cases violated

theorem describes_violation {constraint : Constraint}
    (violated : context.violates constraint = true) :
    context.Describes constraint (context.violation constraint) := by
  by_cases compared : ∃ op x y, context.Compares constraint.condition op x y
  · obtain ⟨op, x, y, compares⟩ := compared
    have refuted := compares.refuted violated
    obtain ⟨truth, found, truth_iff⟩ := exists_eval_comparison compares.isComparison
      compares.left_finite compares.right_finite
    have not_holds : ¬ op.Holds (Binary64.toRat x) (Binary64.toRat y) := by
      cases refuted.symm.trans found
      exact mt truth_iff.mpr (by decide)
    obtain ⟨exact, exact_eq, missed⟩ :=
      BinaryOp.missed_of_not_holds compares.isComparison not_holds
    obtain ⟨amount, amount_eq, rounds⟩ :=
      BinaryOp.violationAmount?_rounds compares.left_finite compares.right_finite exact_eq
    have shortfall_eq : (context.violation constraint).shortfall =
        ⟨some x, some y, some op.symbol, some amount⟩ := by
      rw [violation, compares.shortfall_eq, amount_eq]
    refine ⟨rfl, rfl, rfl, .inr ⟨x, y, op.symbol, amount, shortfall_eq⟩, ?_, ?_⟩
    · rw [shortfall_eq]
      exact iff_of_true rfl ⟨op, x, y, compares⟩
    · intro x' y' symbol amount' equal
      cases shortfall_eq.symm.trans equal
      exact ⟨op, compares, rfl, refuted, exact, exact_eq, missed, rounds⟩
  · have shortfall_eq : (context.violation constraint).shortfall = .none :=
      shortfall_eq_none fun op x y compares => compared ⟨op, x, y, compares⟩
    refine ⟨rfl, rfl, rfl, .inl shortfall_eq, ?_, ?_⟩
    · rw [shortfall_eq]
      exact iff_of_false (by decide) compared
    · intro x y symbol amount equal
      cases shortfall_eq.symm.trans equal

/-- A report is exact, and what it says about each violation is consistent. -/
theorem check_exact (context : Context) (constraints : List Constraint) :
    List.Forall₂ context.Describes ((context.checked constraints).filter context.violates)
        (context.check constraints).violations ∧
      (context.check constraints).skipped =
        (context.passed constraints).filterMap context.skipped? ∧
      ((context.check constraints).isFatal = true ↔
        (constraints.find? context.halts).isSome = true) := by
  refine ⟨?_, skipped_check_eq constraints, isFatal_check_iff constraints⟩
  rw [violations_check_eq, List.forall₂_map_right_iff, List.forall₂_same]
  exact fun constraint member => describes_violation (List.mem_filter.mp member).2

end Context

end EconModel
