import EconModel.Proofs.Expr
import EconModel.Proofs.Json.Codec

/-!
# Expressions read back

An expression that is written reads back where every number in it is finite.  The proof follows the
expression: every node is read by the variant of its kind, and its operands by induction.
-/

namespace EconModel

open Json (Decoder Document)

namespace Expr

/-- Every number that is written out in an expression is finite. -/
def FiniteLiterals (expr : Expr) : Prop :=
  ∀ value, .number value ∈ expr.nodes → value.isFinite = true

@[simp]
theorem finiteLiterals_number (value : Float) :
    (number value).FiniteLiterals ↔ value.isFinite = true := by
  simp [FiniteLiterals, nodes]

@[simp]
theorem finiteLiterals_boolean (value : Bool) : (boolean value).FiniteLiterals := by
  simp [FiniteLiterals, nodes]

@[simp]
theorem finiteLiterals_text (value : String) : (text value).FiniteLiterals := by
  simp [FiniteLiterals, nodes]

@[simp]
theorem finiteLiterals_ident (name : String) : (ident name).FiniteLiterals := by
  simp [FiniteLiterals, nodes]

@[simp]
theorem finiteLiterals_lagged (name : String) (lag : UInt64) :
    (lagged name lag).FiniteLiterals := by
  simp [FiniteLiterals, nodes]

@[simp]
theorem finiteLiterals_time : time.FiniteLiterals := by
  simp [FiniteLiterals, nodes]

@[simp]
theorem finiteLiterals_unary (op : UnaryOp) (operand : Expr) :
    (unary op operand).FiniteLiterals ↔ operand.FiniteLiterals := by
  simp [FiniteLiterals, nodes]

@[simp]
theorem finiteLiterals_binary (op : BinaryOp) (left right : Expr) :
    (binary op left right).FiniteLiterals ↔ left.FiniteLiterals ∧ right.FiniteLiterals := by
  simp [FiniteLiterals, nodes, or_imp, forall_and]

@[simp]
theorem finiteLiterals_conditional (condition whenTrue whenFalse : Expr) :
    (conditional condition whenTrue whenFalse).FiniteLiterals ↔
      condition.FiniteLiterals ∧ whenTrue.FiniteLiterals ∧ whenFalse.FiniteLiterals := by
  simp [FiniteLiterals, nodes, or_imp, forall_and]

@[simp]
theorem finiteLiterals_call (function : String) (arguments : List Expr) :
    (call function arguments).FiniteLiterals ↔
      ∀ argument ∈ arguments, argument.FiniteLiterals := by
  simp only [FiniteLiterals, nodes, List.mem_cons, reduceCtorEq, false_or, mem_nodesOfAll_iff]
  constructor
  · exact fun finite argument member value inner => finite value ⟨argument, member, inner⟩
  · rintro finite value ⟨argument, member, inner⟩
    exact finite argument member value inner

theorem toDocuments_eq_map (exprs : List Expr) : toDocuments exprs = exprs.map toDocument := by
  induction exprs with
  | nil => rfl
  | cons expr rest ih => rw [toDocuments, ih, List.map_cons]

/-- An expression is put together from the fields of the variant of its kind, whose operands may
enter one container less. -/
theorem reads_variant {tag : String} {names : List String}
    {build : Decoder Expr → Decoder.Fields → Option Expr} {members : List (String × Document)}
    {expr : Expr}
    (selected : ∀ operand,
      Bindings.find? tag (variants operand) = some (Decoder.record names (build operand)))
    (distinct : ("kind" :: names).Nodup) (known : (members.map Prod.fst).Sublist names)
    (built : ∀ depth inner, inner ≤ depth → ∀ ahead,
      (ahead = true → Decoder.Fit members inner) →
      (build (decodeWithin depth) (.ofMembers members ahead inner) = some expr ↔
        expr.FiniteLiterals ∧ Decoder.Fit members inner))
    {limit nesting : ℕ} (enough : nesting ≤ limit) :
    Decoder.Reads (decodeWithin limit) nesting (.object (("kind", .text tag) :: members)) expr
      expr.FiniteLiterals :=
  Decoder.within_reads rfl (fun _ => rfl)
    (fun depth _ enough => Decoder.tagged_record_reads (selected _) distinct known
      fun inner below ahead fits => built depth inner (by omega) ahead fits)
    enough

theorem symbol_find? (op : BinaryOp) : Bindings.find? op.symbol BinaryOp.bySymbol = some op := by
  cases op <;> rfl

theorem name_find? (op : UnaryOp) : Bindings.find? op.name UnaryOp.byName = some op := by
  cases op <;> rfl

theorem reads_decodeWithin (expr : Expr) : ∀ {limit nesting : ℕ}, nesting ≤ limit →
    Decoder.Reads (decodeWithin limit) nesting expr.toDocument expr expr.FiniteLiterals := by
  induction expr with
  | number value =>
      refine reads_variant (fun _ => rfl) (by decide) (by rfl)
        fun depth inner enough ahead fits => ?_
      have value_reads := Decoder.required_reads "value" rfl (Decoder.reads_float value) fits
      simp [Option.bind_eq_some_iff, value_reads]
  | boolean value =>
      refine reads_variant (fun _ => rfl) (by decide) (by rfl)
        fun depth inner enough ahead fits => ?_
      have value_reads := Decoder.required_reads "value" rfl (Decoder.reads_boolean value) fits
      simp [Option.bind_eq_some_iff, value_reads]
  | text value =>
      refine reads_variant (fun _ => rfl) (by decide) (by rfl)
        fun depth inner enough ahead fits => ?_
      have value_reads := Decoder.required_reads "value" rfl (Decoder.reads_text value) fits
      simp [Option.bind_eq_some_iff, value_reads]
  | ident name =>
      refine reads_variant (fun _ => rfl) (by decide) (by rfl)
        fun depth inner enough ahead fits => ?_
      have name_reads := Decoder.required_reads "name" rfl (Decoder.reads_text name) fits
      simp [Option.bind_eq_some_iff, name_reads]
  | lagged name lag =>
      refine reads_variant (fun _ => rfl) (by decide) (by rfl)
        fun depth inner enough ahead fits => ?_
      have name_reads := Decoder.required_reads "name" rfl (Decoder.reads_text name) fits
      have lag_reads := Decoder.optional_reads "lag" 0 rfl (Decoder.reads_word lag) fits
      simp [Option.bind_eq_some_iff, name_reads, lag_reads]
  | time =>
      refine Decoder.within_reads rfl (fun _ => rfl) fun depth nesting _ => ?_
      exact Decoder.tagged_reads rfl (by simp) (by simpa using Decoder.unit_reads time)
  | unary op operand ih =>
      refine reads_variant (fun _ => rfl) (by decide) (by rfl)
        fun depth inner enough ahead fits => ?_
      have op_reads := Decoder.required_reads "op" rfl
        (Decoder.reads_choice (name_find? op)) fits
      have operand_reads := Decoder.required_reads "operand" rfl
        (ih enough) fits
      simp [Option.bind_eq_some_iff, op_reads, operand_reads, and_left_comm]
  | binary op left right ih_left ih_right =>
      refine reads_variant (fun _ => rfl) (by decide) (by rfl)
        fun depth inner enough ahead fits => ?_
      have op_reads := Decoder.required_reads "op" rfl
        (Decoder.reads_choice (symbol_find? op)) fits
      have left_reads := Decoder.required_reads "lhs" rfl
        (ih_left enough) fits
      have right_reads := Decoder.required_reads "rhs" rfl
        (ih_right enough) fits
      simp [Option.bind_eq_some_iff, op_reads, left_reads, right_reads, and_assoc, and_left_comm]
  | conditional condition whenTrue whenFalse ih_condition ih_true ih_false =>
      refine reads_variant (fun _ => rfl) (by decide) (by rfl)
        fun depth inner enough ahead fits => ?_
      have condition_reads := Decoder.required_reads "cond" rfl
        (ih_condition enough) fits
      have true_reads := Decoder.required_reads "then" rfl
        (ih_true enough) fits
      have false_reads := Decoder.required_reads "otherwise" rfl
        (ih_false enough) fits
      simp [Option.bind_eq_some_iff, condition_reads, true_reads, false_reads, and_assoc,
        and_left_comm]
  | call function arguments ih =>
      rw [toDocument, toDocuments_eq_map]
      refine reads_variant (fun _ => rfl) (by decide) (by rfl)
        fun depth inner enough ahead fits => ?_
      have function_reads := Decoder.required_reads "function" rfl
        (Decoder.reads_text function) fits
      have arguments_reads := Decoder.optional_reads "args" [] rfl
        (Decoder.list_reads arguments fun deeper below argument member =>
          ih argument member (below.le.trans enough)) fits
      simp [Option.bind_eq_some_iff, function_reads, arguments_reads, and_left_comm]

/-- An expression that is written reads back where its numbers are finite and its text nests no
deeper than may be read. -/
theorem reads (expr : Expr) (nesting : ℕ) :
    Decoder.Reads decode nesting expr.toDocument expr expr.FiniteLiterals :=
  expr.reads_decodeWithin (le_refl nesting)

end Expr

end EconModel
