import EconModel.Expr

/-!
# Induction over expressions

The arguments of a call are a list of expressions, so the induction principle for expressions gives
the hypothesis for each member of that list.  It is the one that `induction` uses.
-/

namespace EconModel

namespace Expr

/-- Induction over expressions, where every argument of a call has the property. -/
@[induction_eliminator]
theorem inductionOn {motive : Expr → Prop}
    (number : ∀ value, motive (.number value))
    (boolean : ∀ value, motive (.boolean value))
    (text : ∀ value, motive (.text value))
    (ident : ∀ name, motive (.ident name))
    (lagged : ∀ name lag, motive (.lagged name lag))
    (time : motive .time)
    (unary : ∀ op operand, motive operand → motive (.unary op operand))
    (binary : ∀ op left right, motive left → motive right → motive (.binary op left right))
    (conditional : ∀ condition whenTrue whenFalse, motive condition → motive whenTrue →
      motive whenFalse → motive (.conditional condition whenTrue whenFalse))
    (call : ∀ function arguments, (∀ argument ∈ arguments, motive argument) →
      motive (.call function arguments)) :
    ∀ expr, motive expr
  | .number value => number value
  | .boolean value => boolean value
  | .text value => text value
  | .ident name => ident name
  | .lagged name lag => lagged name lag
  | .time => time
  | .unary op operand =>
      unary op operand
        (inductionOn number boolean text ident lagged time unary binary conditional call operand)
  | .binary op left right =>
      binary op left right
        (inductionOn number boolean text ident lagged time unary binary conditional call left)
        (inductionOn number boolean text ident lagged time unary binary conditional call right)
  | .conditional condition whenTrue whenFalse =>
      conditional condition whenTrue whenFalse
        (inductionOn number boolean text ident lagged time unary binary conditional call condition)
        (inductionOn number boolean text ident lagged time unary binary conditional call whenTrue)
        (inductionOn number boolean text ident lagged time unary binary conditional call whenFalse)
  | .call function arguments =>
      call function arguments fun argument _ =>
        inductionOn number boolean text ident lagged time unary binary conditional call argument

/-! ## Names in expressions -/

theorem mem_nodesOfAll_iff (exprs : List Expr) (node : Expr) :
    node ∈ nodesOfAll exprs ↔ ∃ expr ∈ exprs, node ∈ expr.nodes := by
  induction exprs with
  | nil => simp [nodesOfAll]
  | cons expr rest ih => simp [nodesOfAll, ih]

theorem mem_nodes_call {function : String} {arguments : List Expr} {argument node : Expr}
    (member : argument ∈ arguments) (node_mem : node ∈ argument.nodes) :
    node ∈ (call function arguments).nodes := by
  rw [nodes, List.mem_cons, mem_nodesOfAll_iff]
  exact .inr ⟨argument, member, node_mem⟩

/-- Whether an expression refers to a name anywhere. -/
def RefersTo (expr : Expr) (name : String) : Prop :=
  ∃ node ∈ expr.nodes, node.referredName? = some name

theorem refersTo_ident (name : String) : (ident name).RefersTo name :=
  ⟨.ident name, by simp [nodes], rfl⟩

theorem refersTo_lagged (name : String) (lag : UInt64) : (lagged name lag).RefersTo name :=
  ⟨.lagged name lag, by simp [nodes], rfl⟩

theorem refersTo_unary {op : UnaryOp} {operand : Expr} {name : String}
    (refers : operand.RefersTo name) : (unary op operand).RefersTo name := by
  obtain ⟨node, node_mem, node_name⟩ := refers
  exact ⟨node, by simp [nodes, node_mem], node_name⟩

theorem refersTo_binary {op : BinaryOp} {left right : Expr} {name : String}
    (refers : left.RefersTo name ∨ right.RefersTo name) :
    (binary op left right).RefersTo name := by
  rcases refers with ⟨node, node_mem, node_name⟩ | ⟨node, node_mem, node_name⟩ <;>
    exact ⟨node, by simp [nodes, node_mem], node_name⟩

theorem refersTo_conditional {condition whenTrue whenFalse : Expr} {name : String}
    (refers : condition.RefersTo name ∨ whenTrue.RefersTo name ∨ whenFalse.RefersTo name) :
    (conditional condition whenTrue whenFalse).RefersTo name := by
  rcases refers with ⟨node, node_mem, node_name⟩ | ⟨node, node_mem, node_name⟩ |
      ⟨node, node_mem, node_name⟩ <;>
    exact ⟨node, by simp [nodes, node_mem], node_name⟩

theorem refersTo_call {function : String} {arguments : List Expr} {argument : Expr} {name : String}
    (member : argument ∈ arguments) (refers : argument.RefersTo name) :
    (call function arguments).RefersTo name := by
  obtain ⟨node, node_mem, node_name⟩ := refers
  exact ⟨node, mem_nodes_call member node_mem, node_name⟩

/-! ## The list of names -/

theorem mem_putName_iff (name other : String) (names : List String) :
    other ∈ putName name names ↔ other = name ∨ other ∈ names := by
  induction names with
  | nil => simp [putName]
  | cons first rest ih =>
      rw [putName]
      split
      · rw [List.mem_cons, ih, List.mem_cons, or_left_comm]
      · split
        · next same => rw [same, List.mem_cons, or_self_left]
        · rw [List.mem_cons]

/-- The names that an expression refers to are listed, and no others are. -/
theorem mem_identifiers_iff (expr : Expr) (name : String) :
    name ∈ expr.identifiers ↔ expr.RefersTo name := by
  have collected (found names : List String) :
      name ∈ found.foldl (fun names name => putName name names) names ↔
        name ∈ names ∨ name ∈ found := by
    induction found generalizing names with
    | nil => simp
    | cons first rest ih =>
        rw [List.foldl_cons, ih, mem_putName_iff, List.mem_cons, or_comm (a := name = first),
          or_assoc]
  rw [identifiers, collected, List.mem_filterMap]
  exact or_iff_right List.not_mem_nil

end Expr

end EconModel
