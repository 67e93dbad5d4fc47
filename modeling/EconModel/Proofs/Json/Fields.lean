import EconModel.Proofs.Json.Layout

/-!
# What a value says about its tree

The fields of a tree can be looked up along its layout, without a decoder.  What is known of the
values that a decoder yields and the trees that it yields them from carries over to the decoders
that are put together from it, as long as no key is repeated.
-/

namespace EconModel

namespace Json

/-- The items of an array. -/
def itemsIn : Option Json → List Json
  | some (.array items) => items
  | _ => []

/-- The usable keys of an object, in their order. -/
def keysIn : Option Json → List String
  | some (.object members) => members.filterMap Prod.fst
  | _ => []

section Lookup

variable {Part : Type}

open Decoder (fieldsIn? splitTag? select?)

/-- The tree of a field, or nothing where it is missing. -/
def Layout.field? : Layout Part → Json → String → Option Json
  | .record fields, tree, name =>
      (fieldsIn? (fields.map Prod.fst) tree).bind (Bindings.find? name)
  | .tagged key variants, tree, name =>
      (splitTag? key tree).bind fun split =>
        (select? true variants split.1).bind fun fields =>
          (fieldsIn? (fields.map Prod.fst) split.2).bind (Bindings.find? name)

end Lookup

namespace Decoder

variable {α : Type} {Part : Type}

theorem keysDistinct_of_fieldsIn? {names : List String} {tree : Json} (distinct : tree.KeysDistinct)
    {present : List (String × Json)} (present_eq : fieldsIn? names tree = some present)
    {name : String} {inner : Json} (found : Bindings.find? name present = some inner) :
    inner.KeysDistinct := by
  have entry := Bindings.mem_of_find? found
  cases tree with
  | null | boolean | number | string => cases present_eq
  | array items =>
      rw [fieldsIn?] at present_eq
      split at present_eq
      · cases present_eq
        exact distinct.item inner (List.of_mem_zip entry).2
      · cases present_eq
  | object members =>
      obtain ⟨usable, usable_eq, fields_eq⟩ := Option.bind_eq_some_iff.mp present_eq
      rw [presentFields?] at fields_eq
      split at fields_eq
      · cases fields_eq
        obtain ⟨member, member_found, same⟩ := exists_left_of_mem
          (usableMembers?_eq_some_iff.mp usable_eq) (List.mem_of_mem_filter entry)
        subst same
        exact distinct.member _ member_found
      · cases fields_eq

/-! ## What decoders tell of trees -/

/-- The values that a decoder yields are related to their trees, where these repeat no key. -/
def Tells (relation : α → Json → Prop) (decode : Decoder α) : Prop :=
  ∀ ⦃ahead nesting tree value⦄, tree.KeysDistinct → decode ahead nesting tree = some value →
    relation value tree

/-- The fields of a record stand in a tree. -/
structure StandIn (layout : Layout Part) (tree : Json) (fields : Fields) : Prop where
  field_eq : ∀ name, layout.field? tree name = Bindings.find? name fields.present
  distinct : ∀ {name inner}, Bindings.find? name fields.present = some inner → inner.KeysDistinct

/-- `Tells` for the decoder of a variant, whose tag has been taken off. -/
def TellsVariant (layout : Layout Part) (relation : α → Json → Prop) (fields : FieldList Part)
    (decode : Decoder α) : Prop :=
  ∀ ⦃nesting tree rest value⦄, rest.KeysDistinct →
    (∀ name, layout.field? tree name =
      (fieldsIn? (fields.map Prod.fst) rest).bind (Bindings.find? name)) →
    decode true nesting rest = some value → relation value tree

section Tells

variable {relation : α → Json → Prop} {decode : Decoder α} {layout : Layout Part} {tree : Json}

theorem list_tells (tells : Tells relation decode) :
    Tells (fun values tree => List.Forall₂ relation values (itemsIn (some tree)))
      (list decode) := by
  intro ahead nesting tree values distinct found
  obtain ⟨inner, items, rfl, rfl, read⟩ := list_eq_some_iff.mp found
  exact ((List.forall₂_and_left _ _).mpr ⟨distinct.item, read⟩).flip.imp
    fun value item held => tells held.1 held.2

/-- The names of a table are the keys of its object, in their order. -/
theorem table_tells :
    Tells (fun values tree => values.names = keysIn (some tree)) (table decode) := by
  intro ahead nesting tree values distinct found
  obtain ⟨inner, members, usable, pairs, rfl, rfl, usable_eq, read, rfl⟩ :=
    table_eq_some_iff.mp found
  have names_eq : pairs.map Prod.fst = members.filterMap Prod.fst := by
    rw [map_fst_eq_of_forall₂ (fun _ _ => fst_eq_of_map) read, map_fst_usableMembers? usable_eq]
  rw [Bindings.names_ofList (names_eq ▸ distinct.keys), names_eq]
  rfl

theorem required_tells {fields : Fields} {name : String} {value : α}
    (stand : StandIn layout tree fields) (tells : Tells relation decode)
    (found : fields.required name decode = some value) :
    ∃ inner, layout.field? tree name = some inner ∧ relation value inner := by
  rw [stand.field_eq]
  unfold Fields.required at found
  split at found
  · next inner inner_eq => exact ⟨inner, inner_eq, tells (stand.distinct inner_eq) found⟩
  · cases found

theorem optional_tells {fields : Fields} {name : String} {value absent : α}
    (stand : StandIn layout tree fields) (tells : Tells relation decode)
    (found : fields.optional name absent decode = some value) :
    (layout.field? tree name = none ∧ value = absent) ∨
      ∃ inner, layout.field? tree name = some inner ∧ relation value inner := by
  rw [stand.field_eq]
  unfold Fields.optional at found
  split at found
  · next inner inner_eq => exact .inr ⟨inner, inner_eq, tells (stand.distinct inner_eq) found⟩
  · next missing => exact .inl ⟨missing, (Option.some.inj found).symm⟩

theorem record_tells (layout : Layout Part) {names : List String} {build : Fields → Option α}
    {fields : FieldList Part} (laid : layout = .record fields)
    (names_eq : fields.map Prod.fst = names)
    (built : ∀ {tree given value}, StandIn layout tree given →
      build given = some value → relation value tree) :
    Tells relation (record names build) := by
  intro ahead nesting tree value distinct found
  subst names_eq
  obtain ⟨inner, present, rfl, present_eq, build_eq⟩ := record_eq_some_iff.mp found
  refine built ⟨fun name => ?_, keysDistinct_of_fieldsIn? distinct present_eq⟩ build_eq
  rw [laid, Layout.field?, present_eq, Option.bind_some]

theorem record_tellsVariant {names : List String} {build : Fields → Option α}
    {fields : FieldList Part} (names_eq : fields.map Prod.fst = names)
    (built : ∀ {tree given value}, StandIn layout tree given →
      build given = some value → relation value tree) :
    TellsVariant layout relation fields (record names build) := by
  intro nesting tree rest value distinct field_eq found
  subst names_eq
  obtain ⟨inner, present, rfl, present_eq, build_eq⟩ := record_eq_some_iff.mp found
  refine built ⟨fun name => ?_, keysDistinct_of_fieldsIn? distinct present_eq⟩ build_eq
  rw [field_eq, present_eq, Option.bind_some]

theorem tagged_tells (layout : Layout Part) {key : String}
    {variants : List (String × FieldList Part)} {decoders : List (String × Decoder α)}
    (laid : layout = .tagged key variants)
    (each : EachVariant (TellsVariant layout relation) variants decoders) :
    Tells relation (tagged key decoders) := by
  intro ahead nesting tree value distinct found
  obtain ⟨-, tag, rest, decode, fields, split_eq, -, fields_eq, tells, rest_found⟩ :=
    each.exists_of_tagged found
  refine tells (keysDistinct_of_splitTag? distinct split_eq) (fun name => ?_) rest_found
  rw [laid, Layout.field?, split_eq, Option.bind_some, fields_eq, Option.bind_some]

end Tells

end Decoder

end Json

end EconModel
