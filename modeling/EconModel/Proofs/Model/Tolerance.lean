import EconModel.Proofs.Json.Fields
import EconModel.Proofs.Json.Tolerance
import EconModel.Proofs.Model.Layout

/-!
# Texts of the same model

A model does not depend on the order in which its text lists the members of objects, apart from the
arguments of events, which keep the order of their text; and it does not depend on members whose
keys are no fields.
-/

namespace EconModel

open Json (Decoder Document itemsIn keysIn)
open Json.Decoder (required_tells optional_tells)

/-! ## The order of event arguments -/

/-- The arguments of every event of an action are in the order in which its tree lists them. -/
inductive Action.Follows : Action → Json → Prop
  | assign (target : String) (value : Expr) (tree : Json) : Follows (.assign target value) tree
  | block {actions : List Action} {tree : Json}
      (each : List.Forall₂ Follows actions
        (itemsIn ((Model.layout .action).field? tree "actions"))) :
      Follows (.block actions) tree
  | emit (name : String) {arguments : Bindings Expr} {tree : Json}
      (names_eq : arguments.names = keysIn ((Model.layout .action).field? tree "args")) :
      Follows (.emit name arguments) tree

/-- The arguments of the events of a policy are in the order of its tree. -/
def Policy.Follows (policy : Policy) (tree : Json) : Prop :=
  ∃ inner, (Model.layout .policy).field? tree "action" = some inner ∧ policy.action.Follows inner

/-- The arguments of the events of a model are in the order of its tree. -/
def Model.Follows (model : Model) (tree : Json) : Prop :=
  List.Forall₂ Policy.Follows model.policies
    (itemsIn ((Model.layout .model).field? tree "policies"))

theorem Action.tells_decodeWithin (limit : ℕ) :
    Decoder.Tells Action.Follows (Action.decodeWithin limit) := by
  induction limit with
  | zero =>
      intro ahead nesting tree action _ found
      cases found
  | succ limit nested =>
      refine Decoder.tagged_tells (Model.layout .action) rfl
        (.cons ?assign (.cons ?block (.cons ?emit .nil)))
      case assign =>
        refine Decoder.record_tellsVariant rfl fun {tree fields action} stand built => ?_
        simp only [Option.bind_eq_bind, Option.bind_eq_some_iff, Option.some.injEq] at built
        obtain ⟨target, -, value, -, rfl⟩ := built
        exact .assign target value tree
      case block =>
        refine Decoder.record_tellsVariant rfl fun {tree fields action} stand built => ?_
        simp only [Option.bind_eq_bind, Option.bind_eq_some_iff, Option.some.injEq] at built
        obtain ⟨actions, actions_found, rfl⟩ := built
        obtain ⟨inner, inner_eq, each⟩ :=
          required_tells stand (Decoder.list_tells nested) actions_found
        exact .block (inner_eq ▸ each)
      case emit =>
        refine Decoder.record_tellsVariant rfl fun {tree fields action} stand built => ?_
        simp only [Option.bind_eq_bind, Option.bind_eq_some_iff, Option.some.injEq] at built
        obtain ⟨name, -, arguments, arguments_found, rfl⟩ := built
        refine .emit name ?_
        rcases optional_tells stand Decoder.table_tells arguments_found with
          ⟨missing, rfl⟩ | ⟨inner, inner_eq, names_eq⟩
        · rw [missing]
          rfl
        · rw [inner_eq, names_eq]

theorem Action.tells : Decoder.Tells Action.Follows Action.decode :=
  fun _ nesting _ _ distinct found => Action.tells_decodeWithin nesting distinct found

theorem Policy.tells : Decoder.Tells Policy.Follows Policy.decode := by
  refine Decoder.record_tells (Model.layout .policy) rfl rfl
    fun {tree fields policy} stand built => ?_
  simp only [Option.bind_eq_bind, Option.bind_eq_some_iff, Option.some.injEq] at built
  obtain ⟨name, -, trigger, -, action, action_found, rfl⟩ := built
  exact required_tells stand Action.tells action_found

theorem Model.tells : Decoder.Tells Model.Follows Model.decode := by
  refine Decoder.record_tells (layout .model) rfl rfl fun {tree fields model} stand built => ?_
  simp only [Option.bind_eq_bind, Option.bind_eq_some_iff, Option.some.injEq] at built
  obtain ⟨version, -, name, -, horizon, -, parameters, -, equations, -, constraints, -, policies,
    policies_found, correlations, -, rfl⟩ := built
  rw [Follows]
  rcases optional_tells stand (Decoder.list_tells Policy.tells) policies_found with
    ⟨missing, rfl⟩ | ⟨inner, inner_eq, each⟩
  · rw [missing]
    exact .nil
  · rw [inner_eq]
    exact each

/-! ## Texts of the same model -/

namespace Model

theorem ofText?_eq_some_iff {text : String} {tree : Json} (read : Json.read? text = some tree)
    {model : Model} :
    ofText? text = some model ↔ decode false Json.nestingLimit tree = some model := by
  rw [ofText?, read, Option.bind_some, ofTree?, Json.decodeTree?]

/-- Every text of a model, none of whose objects repeats a key, may have the members of its objects
rearranged: it stays a text of the model, up to the order of event arguments, which is that of the
text.  And every text of a model may have a member added to any of the records that it holds: with
a key that is no field there, and a value that nests no deeper than may be read, it stays a text of
the same model. -/
theorem ofText?_tolerant {text : String} {tree : Json} {model : Model}
    (read : Json.read? text = some tree) (accepted : ofText? text = some model) :
    (tree.KeysDistinct → model.Follows tree ∧
      ∀ other tree', Json.read? other = some tree' → Json.Rearranges tree tree' →
        ∃ model', ofText? other = some model' ∧ model.Alike .free model' ∧
          model'.Follows tree') ∧
    ∀ other tree', Json.read? other = some tree' →
      Json.Adds layout (.one .model) Json.nestingLimit tree tree' →
        ofText? other = some model := by
  rw [ofText?_eq_some_iff read] at accepted
  refine ⟨fun distinct => ⟨tells distinct accepted, fun other tree' other_read rearranges => ?_⟩,
    fun other tree' other_read adds => ?_⟩
  · obtain ⟨model', accepted', alike⟩ :=
      carries (Json.reorders_respects layout) ⟨distinct, rearranges⟩ accepted
    exact ⟨model', (ofText?_eq_some_iff other_read).mpr accepted', alike,
      tells (distinct.rearranged rearranges) accepted'⟩
  · obtain ⟨model', accepted', alike⟩ :=
      carries (Json.adds_respects layout) (.inr adds) accepted
    exact (ofText?_eq_some_iff other_read).mpr (alike.eq ▸ accepted')

/-! ### A model that announces its start -/

/-- A model whose only policy emits an event with the given arguments. -/
def announcing (arguments : List (String × Expr)) : Model :=
  ⟨currentVersion, "announcement", 1, [], [], [],
    [⟨"announce", .time, .emit "started" (.ofList arguments)⟩], []⟩

/-- A document of a model whose only policy has an action with the given members. -/
def announcingDocument (action : List (String × Document)) : Document :=
  .object [("name", .text "announcement"), ("horizon", .word 1),
    ("policies", .list [.object [("name", .text "announce"),
      ("trigger", .object [("kind", .text "time")]), ("action", .object action)]])]

/-- The event with its tag in front. -/
def announcement : List (String × Document) :=
  [("type", .text "emit_event"), ("name", .text "started"),
    ("args", .object [("now", .object [("kind", .text "time")]),
      ("first", .object [("kind", .text "bool"), ("value", .boolean true)])])]

/-- The event with its members and its arguments the other way round. -/
def announcementBackwards : List (String × Document) :=
  [("args", .object [("first", .object [("kind", .text "bool"), ("value", .boolean true)]),
      ("now", .object [("kind", .text "time")])]),
    ("name", .text "started"), ("type", .text "emit_event")]

theorem keysDistinct_announcement : (announcingDocument announcement).tree.KeysDistinct := by
  simp [announcingDocument, announcement, Document.tree, Document.trees, Document.memberTrees,
    Document.word]

theorem rearranges_announcement :
    Json.Rearranges (announcingDocument announcement).tree
      (announcingDocument announcementBackwards).tree := by
  have same (member : Option String × Json) :
      Json.SameKey (fun _ => Json.Rearranges) member member := .intro member.1 (.refl member.2)
  have action : Json.Rearranges (Document.object announcement).tree
      (Document.object announcementBackwards).tree := by
    refine .object (.cons (same _) (.cons (same _) (.cons (.intro _ ?arguments) .nil)))
      (List.reverse_perm _).symm
    exact .object (List.forall₂_same.mpr fun member _ => same member) (.swap _ _ _)
  have policy := Json.Rearranges.object (.cons (same (some "name", .string "announce"))
    (.cons (same (some "trigger", .object [(some "kind", .string "time")]))
      (.cons (.intro (some "action") action) .nil))) (.refl _)
  exact .object (.cons (same _) (.cons (same _) (.cons (.intro _ (.array (.cons policy .nil)))
    .nil))) (.refl _)

theorem adds_announcement :
    Json.Adds layout (.one .model) Json.nestingLimit (announcingDocument announcement).tree
      (announcingDocument (("note", .list [.word 1]) :: announcement)).tree := by
  have action : Json.Adds layout (.one .action) 124 (Document.object announcement).tree
      (Document.object (("note", .list [.word 1]) :: announcement)).tree :=
    .one rfl (.member [] _ rfl rfl)
  exact .one rfl (.field [_, _] [] rfl (.list [] [] (.one rfl (.field [_, _] [] rfl action))))

/-- Backwards, the event has its arguments the other way round; with a note it is the same. -/
theorem ofText?_tolerant_announcement :
    ofText? (announcingDocument announcement).compact =
        some (announcing [("now", .time), ("first", .boolean true)]) ∧
      (ofText? (announcingDocument announcementBackwards).compact =
          some (announcing [("first", .boolean true), ("now", .time)]) ∧
        (announcing [("now", .time), ("first", .boolean true)]).Alike .free
          (announcing [("first", .boolean true), ("now", .time)]) ∧
        (announcing [("first", .boolean true), ("now", .time)]).Follows
          (announcingDocument announcementBackwards).tree) ∧
      ofText? (announcingDocument (("note", .list [.word 1]) :: announcement)).compact =
        some (announcing [("now", .time), ("first", .boolean true)]) := by
  have accepted : ofText? (announcingDocument announcement).compact =
      some (announcing [("now", .time), ("first", .boolean true)]) :=
    (ofText?_eq_some_iff (Document.read?_render .compact _)).mpr rfl
  have backwards : ofText? (announcingDocument announcementBackwards).compact =
      some (announcing [("first", .boolean true), ("now", .time)]) :=
    (ofText?_eq_some_iff (Document.read?_render .compact _)).mpr rfl
  obtain ⟨rearranged, added⟩ := ofText?_tolerant (Document.read?_render .compact _) accepted
  obtain ⟨model', accepted', alike, follows⟩ := (rearranged keysDistinct_announcement).2 _ _
    (Document.read?_render .compact _) rearranges_announcement
  obtain rfl := Option.some.inj (accepted'.symm.trans backwards)
  exact ⟨accepted, ⟨backwards, alike, follows⟩,
    added _ _ (Document.read?_render .compact _) adds_announcement⟩

end Model

end EconModel
