import EconModel.Model.Json
import EconModel.Proofs.Json.Layout
import EconModel.Proofs.PolicyRun

/-!
# The layout of models

Which fields the parts of a model have and what these hold.  Every part is decoded again after a
change of its tree that respects this layout; what may differ is the order of event arguments.
-/

namespace EconModel

open Json (Decoder Layout MemberOrder)
open Json.Decoder (Carries CarriesVariant Respects required_carried optional_carried)

namespace Model

/-! ## Parts and their fields -/

/-- The kinds of records in the text of a model. -/
inductive Part where
  | model
  | parameter
  | parameterValue
  | distribution
  /-- A correlation that a parameter declares. -/
  | partner
  | correlation
  | equation
  | expression
  | constraint
  | policy
  | action

def layout : Part → Layout Part
  | .model =>
      .record [("version", .plain), ("name", .plain), ("horizon", .plain),
        ("parameters", .list .parameter), ("equations", .list .equation),
        ("constraints", .list .constraint), ("policies", .list .policy),
        ("correlations", .list .correlation)]
  | .parameter =>
      .record [("name", .plain), ("unit", .plain), ("value", .one .parameterValue)]
  | .parameterValue =>
      .tagged "type"
        [("literal", [("value", .plain)]),
          ("distribution", [("distribution", .one .distribution), ("point_estimate", .plain),
            ("correlated_with", .list .partner)])]
  | .distribution =>
      .tagged "family"
        [("normal", [("mean", .plain), ("std_dev", .plain)]),
          ("log_normal", [("mu", .plain), ("sigma", .plain)]),
          ("uniform", [("min", .plain), ("max", .plain)]),
          ("triangular", [("min", .plain), ("mode", .plain), ("max", .plain)]),
          ("exponential", [("rate", .plain)]),
          ("fixed", [("value", .plain)])]
  | .partner => .record [("parameter", .plain), ("coefficient", .plain)]
  | .correlation => .record [("a", .plain), ("b", .plain), ("coefficient", .plain)]
  | .equation =>
      .record [("variable", .plain), ("kind", .plain), ("expr", .one .expression),
        ("dependencies", .plain)]
  | .expression =>
      .tagged "kind"
        [("number", [("value", .plain)]),
          ("bool", [("value", .plain)]),
          ("text", [("value", .plain)]),
          ("ident", [("name", .plain)]),
          ("var", [("name", .plain), ("lag", .plain)]),
          ("time", []),
          ("unary", [("op", .plain), ("operand", .one .expression)]),
          ("binary", [("op", .plain), ("lhs", .one .expression), ("rhs", .one .expression)]),
          ("if", [("cond", .one .expression), ("then", .one .expression),
            ("otherwise", .one .expression)]),
          ("call", [("function", .plain), ("args", .list .expression)])]
  | .constraint =>
      .record [("name", .plain), ("condition", .one .expression), ("severity", .plain),
        ("message", .plain)]
  | .policy =>
      .record [("name", .plain), ("trigger", .one .expression), ("action", .one .action)]
  | .action =>
      .tagged "type"
        [("assign", [("target", .plain), ("value", .one .expression)]),
          ("block", [("actions", .list .action)]),
          ("emit_event", [("name", .plain), ("args", .table .expression)])]

end Model

/-! ## Models that are alike -/

/-- Two actions differ at most in the order of the arguments of their events, and only where that
order is free. -/
inductive Action.Alike (order : MemberOrder) : Action → Action → Prop
  | assign (target : String) (value : Expr) :
      Alike order (.assign target value) (.assign target value)
  | block {actions actions' : List Action} (each : List.Forall₂ (Alike order) actions actions') :
      Alike order (.block actions) (.block actions')
  | emit (name : String) {arguments arguments' : Bindings Expr}
      (same : order.Same arguments arguments') :
      Alike order (.emit name arguments) (.emit name arguments')

/-- Two policies differ at most in the order of event arguments. -/
structure Policy.Alike (order : MemberOrder) (policy policy' : Policy) : Prop where
  action : policy.action.Alike order policy'.action
  others : policy' = { policy with action := policy'.action }

/-- Two models differ at most in the order of event arguments. -/
structure Model.Alike (order : MemberOrder) (model model' : Model) : Prop where
  policies : List.Forall₂ (Policy.Alike order) model.policies model'.policies
  others : model' = { model with policies := model'.policies }

/-- Where the order counts, actions that are alike are equal. -/
theorem Action.Alike.eq {action action' : Action} (alike : action.Alike .kept action') :
    action' = action := by
  induction action generalizing action' with
  | assign =>
      cases alike
      rfl
  | block actions ih =>
      cases alike with
      | block each =>
        have same := ((List.forall₂_and_left _ _).mpr ⟨ih, each⟩).imp fun _ _ held =>
          (held.1 held.2).symm
        rw [List.forall₂_eq_eq_eq] at same
        rw [same]
  | emit =>
      cases alike with
      | emit name same =>
        cases same
        rfl

theorem Policy.Alike.eq {policy policy' : Policy} (alike : policy.Alike .kept policy') :
    policy' = policy := by
  rw [alike.others, alike.action.eq]

theorem Model.Alike.eq {model model' : Model} (alike : model.Alike .kept model') :
    model' = model := by
  have policies : model'.policies = model.policies := by
    have same := alike.policies.imp fun _ _ policy => policy.eq.symm
    rw [List.forall₂_eq_eq_eq] at same
    exact same.symm
  rw [alike.others, policies]

open Model (Part)

theorem Value.ignoresOrder : Decoder.IgnoresOrder Value.decode :=
  Decoder.readAhead_ignoresOrder fun _ _ _ _ distinct rearranges found =>
    Value.ofJson?_rearranged distinct rearranges found

variable {order : MemberOrder} {change : Json.Slot Part → ℕ → Json → Json → Prop}
  (respects : Respects Model.layout order change)

/-! ## Parameters -/

include respects

theorem CorrelationPartner.carries :
    Carries (change (.one .partner)) Eq CorrelationPartner.decode := by
  have text := Decoder.text_carries respects
  have float := Decoder.float_carries respects
  refine Decoder.record_carries respects rfl rfl fun related => ?_
  exact (required_carried related rfl text).andThen fun parameter =>
    (required_carried related rfl float).andThen fun coefficient => .some rfl

theorem Distribution.carries :
    Carries (change (.one .distribution)) Eq Distribution.decode := by
  have float := Decoder.float_carries respects
  refine Decoder.tagged_carries respects rfl
    (.cons ?normal (.cons ?logNormal (.cons ?uniform
      (.cons ?triangular (.cons ?exponential (.cons ?fixed .nil))))))
  case normal | logNormal | uniform =>
    refine Decoder.record_carriesVariant rfl fun related => ?_
    exact (required_carried related rfl float).andThen fun first =>
      (required_carried related rfl float).andThen fun second => .some rfl
  case triangular =>
    refine Decoder.record_carriesVariant rfl fun related => ?_
    exact (required_carried related rfl float).andThen fun min =>
      (required_carried related rfl float).andThen fun mode =>
        (required_carried related rfl float).andThen fun max => .some rfl
  case exponential | fixed =>
    refine Decoder.record_carriesVariant rfl fun related => ?_
    exact (required_carried related rfl float).andThen fun number => .some rfl

theorem ParameterValue.carries :
    Carries (change (.one .parameterValue)) Eq ParameterValue.decode := by
  have value := Decoder.plain_carries respects Value.ignoresOrder
  have estimate := Decoder.plain_carries respects
    (Decoder.nullable_ignoresOrder Decoder.float_ignoresOrder)
  have marginal := Distribution.carries respects
  have partners := Decoder.items_carries respects (CorrelationPartner.carries respects)
  refine Decoder.tagged_carries respects rfl
    (.cons ?literal (.cons ?distribution .nil))
  case literal =>
    refine Decoder.record_carriesVariant rfl fun related => ?_
    exact (required_carried related rfl value).andThen fun value => .some rfl
  case distribution =>
    refine Decoder.record_carriesVariant rfl fun related => ?_
    exact (required_carried related rfl marginal).andThen fun marginal =>
      (optional_carried related rfl rfl estimate).andThen fun estimate =>
        (optional_carried related rfl rfl partners).andThen fun partners => .some rfl

theorem Parameter.carries : Carries (change (.one .parameter)) Eq Parameter.decode := by
  have text := Decoder.text_carries respects
  have unit := Decoder.plain_carries respects
    (Decoder.nullable_ignoresOrder Decoder.text_ignoresOrder)
  have value := ParameterValue.carries respects
  refine Decoder.record_carries respects rfl rfl fun related => ?_
  exact (required_carried related rfl text).andThen fun name =>
    (optional_carried related rfl rfl unit).andThen fun unit =>
      (required_carried related rfl value).andThen fun value => .some rfl

theorem CorrelationSpec.carries :
    Carries (change (.one .correlation)) Eq CorrelationSpec.decode := by
  have text := Decoder.text_carries respects
  have float := Decoder.float_carries respects
  refine Decoder.record_carries respects rfl rfl fun related => ?_
  exact (required_carried related rfl text).andThen fun first =>
    (required_carried related rfl text).andThen fun second =>
      (required_carried related rfl float).andThen fun coefficient => .some rfl

/-! ## Expressions -/

theorem Expr.carries_decodeWithin (limit : ℕ) :
    Carries (change (.one .expression)) Eq (Expr.decodeWithin limit) := by
  -- Operands are decoded within a smaller limit; the trees themselves are not taken apart here.
  induction limit with
  | zero =>
      intro ahead nesting tree tree' _ expr found
      cases found
  | succ limit operand =>
      have text := Decoder.text_carries respects
      refine Decoder.tagged_carries respects rfl
        (.cons ?number (.cons ?boolean (.cons ?text (.cons ?ident
          (.cons ?lagged (.cons ?time (.cons ?unary (.cons ?binary
            (.cons ?conditional (.cons ?call .nil))))))))))
      case number =>
        have float := Decoder.float_carries respects
        refine Decoder.record_carriesVariant rfl fun related => ?_
        exact (required_carried related rfl float).andThen fun value => .some rfl
      case boolean =>
        have boolean := Decoder.plain_carries respects Decoder.boolean_ignoresOrder
        refine Decoder.record_carriesVariant rfl fun related => ?_
        exact (required_carried related rfl boolean).andThen fun value => .some rfl
      case text | ident =>
        refine Decoder.record_carriesVariant rfl fun related => ?_
        exact (required_carried related rfl text).andThen fun text => .some rfl
      case lagged =>
        have word := Decoder.plain_carries respects Decoder.word_ignoresOrder
        refine Decoder.record_carriesVariant rfl fun related => ?_
        exact (required_carried related rfl text).andThen fun name =>
          (optional_carried related rfl rfl word).andThen fun lag => .some rfl
      case time => exact Decoder.unit_carriesVariant rfl
      case unary =>
        have op := Decoder.plain_carries respects (Decoder.choice_ignoresOrder UnaryOp.byName)
        refine Decoder.record_carriesVariant rfl fun related => ?_
        exact (required_carried related rfl op).andThen fun op =>
          (required_carried related rfl operand).andThen fun operand => .some rfl
      case binary =>
        have op := Decoder.plain_carries respects (Decoder.choice_ignoresOrder BinaryOp.bySymbol)
        refine Decoder.record_carriesVariant rfl fun related => ?_
        exact (required_carried related rfl op).andThen fun op =>
          (required_carried related rfl operand).andThen fun left =>
            (required_carried related rfl operand).andThen fun right => .some rfl
      case conditional =>
        refine Decoder.record_carriesVariant rfl fun related => ?_
        exact (required_carried related rfl operand).andThen fun condition =>
          (required_carried related rfl operand).andThen fun whenTrue =>
            (required_carried related rfl operand).andThen fun whenFalse => .some rfl
      case call =>
        have arguments := Decoder.items_carries respects operand
        refine Decoder.record_carriesVariant rfl fun related => ?_
        exact (required_carried related rfl text).andThen fun function =>
          (optional_carried related rfl rfl arguments).andThen fun arguments => .some rfl

theorem Expr.carries : Carries (change (.one .expression)) Eq Expr.decode :=
  fun _ nesting _ _ changed => Expr.carries_decodeWithin respects nesting changed

/-! ## Equations and constraints -/

theorem Equation.carries : Carries (change (.one .equation)) Eq Equation.decode := by
  have text := Decoder.text_carries respects
  have kind := Decoder.plain_carries respects (Decoder.choice_ignoresOrder EquationKind.byName)
  have expr := Expr.carries respects
  have names := Decoder.plain_carries respects
    (Decoder.list_ignoresOrder Decoder.text_ignoresOrder)
  refine Decoder.record_carries respects rfl rfl fun related => ?_
  exact (required_carried related rfl text).andThen fun target =>
    (required_carried related rfl kind).andThen fun kind =>
      (required_carried related rfl expr).andThen fun expr =>
        (optional_carried related rfl rfl names).andThen fun dependencies => .some rfl

theorem Constraint.carries : Carries (change (.one .constraint)) Eq Constraint.decode := by
  have text := Decoder.text_carries respects
  have condition := Expr.carries respects
  have severity := Decoder.plain_carries respects (Decoder.choice_ignoresOrder Severity.byName)
  have message := Decoder.plain_carries respects
    (Decoder.nullable_ignoresOrder Decoder.text_ignoresOrder)
  refine Decoder.record_carries respects rfl rfl fun related => ?_
  exact (required_carried related rfl text).andThen fun name =>
    (required_carried related rfl condition).andThen fun condition =>
      (optional_carried related rfl rfl severity).andThen fun severity =>
        (optional_carried related rfl rfl message).andThen fun message => .some rfl

/-! ## Policies -/

theorem Action.carries_decodeWithin (limit : ℕ) :
    Carries (change (.one .action)) (Action.Alike order) (Action.decodeWithin limit) := by
  induction limit with
  | zero =>
      intro ahead nesting tree tree' _ action found
      cases found
  | succ limit nested =>
      have text := Decoder.text_carries respects
      have expr := Expr.carries respects
      refine Decoder.tagged_carries respects rfl
        (.cons ?assign (.cons ?block (.cons ?emit .nil)))
      case assign =>
        refine Decoder.record_carriesVariant rfl fun related => ?_
        exact (required_carried related rfl text).andThen fun target =>
          (required_carried related rfl expr).andThen fun value => .some (.assign target value)
      case block =>
        have actions := Decoder.list_carries respects nested
        refine Decoder.record_carriesVariant rfl fun related => ?_
        exact (required_carried related rfl actions).bind fun _ _ each => .some (.block each)
      case emit =>
        have arguments := Decoder.table_carries respects expr
        refine Decoder.record_carriesVariant rfl fun related => ?_
        exact (required_carried related rfl text).andThen fun name =>
          (optional_carried related rfl (order.same_refl _) arguments).bind
            fun _ _ same => .some (.emit name same)

theorem Action.carries : Carries (change (.one .action)) (Action.Alike order) Action.decode :=
  fun _ nesting _ _ changed => Action.carries_decodeWithin respects nesting changed

theorem Policy.carries : Carries (change (.one .policy)) (Policy.Alike order) Policy.decode := by
  have text := Decoder.text_carries respects
  have trigger := Expr.carries respects
  have action := Action.carries respects
  refine Decoder.record_carries respects rfl rfl fun related => ?_
  exact (required_carried related rfl text).andThen fun name =>
    (required_carried related rfl trigger).andThen fun trigger =>
      (required_carried related rfl action).bind fun _ _ alike => .some ⟨alike, rfl⟩

/-! ## Models -/

theorem Model.carries : Carries (change (.one .model)) (Model.Alike order) Model.decode := by
  have text := Decoder.text_carries respects
  have horizon := Decoder.plain_carries respects Decoder.word_ignoresOrder
  have parameters := Decoder.items_carries respects (Parameter.carries respects)
  have equations := Decoder.items_carries respects (Equation.carries respects)
  have constraints := Decoder.items_carries respects (Constraint.carries respects)
  have policies := Decoder.list_carries respects (Policy.carries respects)
  have correlations := Decoder.items_carries respects (CorrelationSpec.carries respects)
  refine Decoder.record_carries respects rfl rfl fun related => ?_
  exact (optional_carried related rfl rfl text).andThen fun version =>
    (required_carried related rfl text).andThen fun name =>
      (required_carried related rfl horizon).andThen fun horizon =>
        (optional_carried related rfl rfl parameters).andThen fun parameters =>
          (optional_carried related rfl rfl equations).andThen fun equations =>
            (optional_carried related rfl rfl constraints).andThen fun constraints =>
              (optional_carried related rfl .nil policies).bind fun _ _ alike =>
                (optional_carried related rfl rfl correlations).andThen fun correlations =>
                  .some ⟨alike, rfl⟩

end EconModel
