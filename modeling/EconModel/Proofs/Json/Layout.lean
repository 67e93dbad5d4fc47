import EconModel.Proofs.Json.Rearrangement

/-!
# What decoders look at

A layout says for each kind of record which fields it has and what these hold.  A change of trees
that goes along with a layout, changing only what its records do not look at, is `Carried` by every
decoder that is put together along the layout: what was decoded is decoded again.
-/

namespace EconModel

namespace Json

/-! ## Layouts -/

/-- What a field holds, where `Part` names the kinds of records. -/
inductive Slot (Part : Type) where
  /-- Something that holds no record: a single value, a list of names, structured data. -/
  | plain
  | one (part : Part)
  | list (part : Part)
  /-- Records under names. -/
  | table (part : Part)

/-- The fields of a record, in the order in which an array lists them. -/
abbrev FieldList (Part : Type) := List (String × Slot Part)

/-- How a kind of record is written. -/
inductive Layout (Part : Type) where
  | record (fields : FieldList Part)
  /-- One of several records, told apart by the value of a tag. -/
  | tagged (key : String) (variants : List (String × FieldList Part))

/-- The fields of the record that a tree holds; a tag is the first of them. -/
def Layout.fieldsOf? {Part : Type} : Layout Part → Json → Option (FieldList Part)
  | .record fields, _ => some fields
  | .tagged key variants, tree =>
      (Decoder.splitTag? key tree).bind fun split =>
        (Decoder.select? true variants split.1).map ((key, .plain) :: ·)

/-- Whether the order in which an object lists its members counts. -/
inductive MemberOrder where
  | kept
  | free

namespace MemberOrder

/-- Two lists of entries, whose order counts or not. -/
def Relates {α : Type} : MemberOrder → List (String × α) → List (String × α) → Prop
  | .kept, entries, entries' => entries' = entries
  | .free, entries, entries' => (entries.map Prod.fst).Nodup ∧ entries.Perm entries'

/-- Two tables are equal, or read alike where the order does not count. -/
def Same {α : Type} : MemberOrder → Bindings α → Bindings α → Prop
  | .kept, table, table' => table' = table
  | .free, table, table' => table.SameMap table'

theorem same_refl {α : Type} (order : MemberOrder) (table : Bindings α) :
    order.Same table table := by
  cases order with
  | kept => rfl
  | free => exact .refl table

theorem same_ofList {α : Type} {order : MemberOrder} {entries entries' : List (String × α)}
    (related : order.Relates entries entries') :
    order.Same (Bindings.ofList entries) (Bindings.ofList entries') := by
  cases order with
  | kept => exact congrArg Bindings.ofList related
  | free => exact Bindings.sameMap_ofList_of_perm related.2 related.1

theorem relates_values {α β : Type} {order : MemberOrder} {holds : String × α → String × β → Prop}
    {entries entries' : List (String × α)} {values : List (String × β)}
    (names : ∀ entry value, holds entry value → value.1 = entry.1)
    (related : order.Relates entries entries') (held : List.Forall₂ holds entries values) :
    ∃ values', List.Forall₂ holds entries' values' ∧ order.Relates values values' := by
  cases order with
  | kept => exact ⟨values, related ▸ held, rfl⟩
  | free =>
      obtain ⟨values', held', perm⟩ := List.perm_comp_forall₂ related.2.symm held
      refine ⟨values', held', ?_, perm.symm⟩
      rw [map_fst_eq_of_forall₂ names held]
      exact related.1

end MemberOrder

namespace Decoder

variable {α β : Type}

/-! ## Lists and tables -/

theorem list_eq_some_iff {decode : Decoder α} {ahead : Bool} {nesting : ℕ} {tree : Json}
    {values : List α} :
    list decode ahead nesting tree = some values ↔ ∃ inner items, nesting = inner + 1 ∧
      tree = .array items ∧
      List.Forall₂ (fun item value => decode ahead inner item = some value) items values := by
  cases nesting with
  | zero => cases tree <;> simp [list]
  | succ inner => cases tree <;> simp [list, mapM_eq_some_iff]

theorem table_eq_some_iff {decode : Decoder α} {ahead : Bool} {nesting : ℕ} {tree : Json}
    {values : Bindings α} :
    table decode ahead nesting tree = some values ↔ ∃ inner members usable pairs,
      nesting = inner + 1 ∧ tree = .object members ∧ usableMembers? members = some usable ∧
      List.Forall₂ (fun entry pair => (decode ahead inner entry.2).map (entry.1, ·) = some pair)
        usable pairs ∧
      Bindings.ofList pairs = values := by
  cases nesting with
  | zero => cases tree <;> simp [table]
  | succ inner =>
      cases tree with
      | null | boolean | number | string | array => simp [table]
      | object members =>
          simp [table, Option.bind_eq_some_iff, mapM_eq_some_iff]

theorem fst_eq_of_map {name : String} {value? : Option α} {pair : String × α}
    (pair_eq : value?.map (name, ·) = some pair) : pair.1 = name := by
  obtain ⟨value, -, rfl⟩ := Option.map_eq_some_iff.mp pair_eq
  rfl

/-! ## The fields of a record -/

/-- The fields that are present in a record: members of an object, or items of an array under the
names of their places. -/
def fieldsIn? (names : List String) : Json → Option (List (String × Json))
  | .object members => (usableMembers? members).bind (presentFields? names)
  | .array items => if items.length ≤ names.length then some (names.zip items) else none
  | _ => none

theorem record_eq_some_iff {names : List String} {build : Fields → Option α} {ahead : Bool}
    {nesting : ℕ} {tree : Json} {value : α} :
    record names build ahead nesting tree = some value ↔
      ∃ inner present, nesting = inner + 1 ∧ fieldsIn? names tree = some present ∧
        build ⟨present, ahead, inner⟩ = some value := by
  cases nesting with
  | zero => cases tree <;> simp [record]
  | succ inner =>
      cases tree with
      | null | boolean | number | string => simp [record, fieldsIn?]
      | array items =>
          rw [record, fieldsIn?]
          split <;> simp
      | object members =>
          rw [record, fieldsIn?]
          simp only [Option.bind_eq_bind, ← Option.bind_assoc]
          simp [Option.bind_eq_some_iff]

/-! ## Tags -/

theorem splitTag?_object_eq_some_iff {key : String} {members : List (Option String × Json)}
    {tag rest : Json} :
    splitTag? key (.object members) = some (tag, rest) ↔
      (∃ name, members.filter (fun member => member.1 = some key) = [(name, tag)]) ∧
        rest = .object (members.filter fun member => member.1 ≠ some key) := by
  rw [splitTag?]
  split
  · next name found filter_eq =>
    rw [filter_eq]
    simp [eq_comm]
  · next other =>
    simp only [reduceCtorEq, false_iff, not_and, forall_exists_index]
    exact fun name filter_eq => (other name tag filter_eq).elim

theorem keysDistinct_of_splitTag? {key : String} {tree tag rest : Json}
    (distinct : tree.KeysDistinct) (split_eq : splitTag? key tree = some (tag, rest)) :
    rest.KeysDistinct := by
  cases tree with
  | null | boolean | number | string => cases split_eq
  | array items =>
      cases items with
      | nil => cases split_eq
      | cons tag rest =>
          cases split_eq
          exact .array (List.forall_mem_cons.mp distinct.item).2
  | object members =>
      obtain ⟨-, rfl⟩ := splitTag?_object_eq_some_iff.mp split_eq
      exact distinct.filter _

/-! ## Changes that respect a layout -/

variable {Part : Type} {layout : Part → Layout Part} {order : MemberOrder}
  {change : Slot Part → ℕ → Json → Json → Prop}

/-- The fields that are present in two records are related as what they hold. -/
def FieldsRelated (change : Slot Part → ℕ → Json → Json → Prop) (fields : FieldList Part)
    (nesting : ℕ) (present present' : List (String × Json)) : Prop :=
  ∀ name slot, Bindings.find? name fields = some slot →
    Option.Rel (change slot nesting) (Bindings.find? name present) (Bindings.find? name present')

/-- Two trees hold records with related fields. -/
structure RecordsRelated (change : Slot Part → ℕ → Json → Json → Prop) (fields : FieldList Part)
    (nesting : ℕ) (tree tree' : Json) : Prop where
  present : ∀ {inner present}, nesting = inner + 1 →
    fieldsIn? (fields.map Prod.fst) tree = some present →
      ∃ present', fieldsIn? (fields.map Prod.fst) tree' = some present' ∧
        FieldsRelated change fields inner present present'
  /-- A record without fields stays one. -/
  unit : ∀ {α : Type} {value found : α}, Decoder.unit value true nesting tree = some found →
    Decoder.unit value true nesting tree' = some found

/-- A change of trees that goes along with a layout.  A field that holds no record may have its
members rearranged; the order of records under names is free where the order is. -/
structure Respects (layout : Part → Layout Part) (order : MemberOrder)
    (change : Slot Part → ℕ → Json → Json → Prop) : Prop where
  plain : ∀ {nesting tree tree'}, change .plain nesting tree tree' →
    tree' = tree ∨ tree.KeysDistinct ∧ Rearranges tree tree'
  record : ∀ {part fields nesting tree tree'}, layout part = .record fields →
    change (.one part) nesting tree tree' → RecordsRelated change fields nesting tree tree'
  tagged : ∀ {part key variants nesting tree tree'}, layout part = .tagged key variants →
    change (.one part) nesting tree tree' →
      (tree.sound nesting = true → tree'.sound nesting = true) ∧
        ∀ {tag rest fields}, splitTag? key tree = some (tag, rest) →
          select? true variants tag = some fields →
            ∃ rest', splitTag? key tree' = some (tag, rest') ∧
              RecordsRelated change fields nesting rest rest'
  list : ∀ {part nesting items tree'}, change (.list part) (nesting + 1) (.array items) tree' →
    ∃ items', tree' = .array items' ∧ List.Forall₂ (change (.one part) nesting) items items'
  table : ∀ {part nesting members tree' usable},
    change (.table part) (nesting + 1) (.object members) tree' →
      usableMembers? members = some usable →
        ∃ members' moved usable', tree' = .object members' ∧
          usableMembers? members' = some usable' ∧
          List.Forall₂ (SameKey fun _ => change (.one part) nesting) usable moved ∧
          order.Relates moved usable'

/-! ## What is decoded again -/

/-- Where there is a first value, there is a second one that is the same in a given sense. -/
def Carried (same : α → β → Prop) (first : Option α) (second : Option β) : Prop :=
  ∀ ⦃value⦄, first = some value → ∃ value', second = some value' ∧ same value value'

theorem Carried.some {same : α → β → Prop} {value : α} {value' : β} (held : same value value') :
    Carried same (some value) (some value') := by
  intro found found_eq
  cases found_eq
  exact ⟨value', rfl, held⟩

theorem Carried.bind {γ δ : Type} {same : α → β → Prop} {after : γ → δ → Prop} {first : Option α}
    {second : Option β} {next : α → Option γ} {next' : β → Option δ}
    (carried : Carried same first second)
    (each : ∀ value value', same value value' → Carried after (next value) (next' value')) :
    Carried after (first >>= next) (second >>= next') := by
  intro found found_eq
  obtain ⟨value, value_eq, next_eq⟩ := Option.bind_eq_some_iff.mp found_eq
  obtain ⟨value', value_eq', held⟩ := carried value_eq
  rw [value_eq']
  exact each value value' held next_eq

/-- `Carried.bind` for a value that is decoded again as it is. -/
theorem Carried.andThen {γ δ : Type} {after : γ → δ → Prop} {first second : Option α}
    {next : α → Option γ} {next' : α → Option δ} (carried : Carried Eq first second)
    (each : ∀ value, Carried after (next value) (next' value)) :
    Carried after (first >>= next) (second >>= next') :=
  carried.bind fun value _ same => same ▸ each value

/-- What a decoder yields it yields again, in a given sense, after a change of the tree. -/
def Carries (change : ℕ → Json → Json → Prop) (same : α → α → Prop) (decode : Decoder α) : Prop :=
  ∀ ⦃ahead nesting tree tree'⦄, change nesting tree tree' →
    Carried same (decode ahead nesting tree) (decode ahead nesting tree')

/-- `Carries` for a variant, whose tag has been taken off. -/
def CarriesVariant (change : Slot Part → ℕ → Json → Json → Prop) (same : α → α → Prop)
    (fields : FieldList Part) (decode : Decoder α) : Prop :=
  ∀ ⦃nesting tree tree'⦄, RecordsRelated change fields nesting tree tree' →
    Carried same (decode true nesting tree) (decode true nesting tree')

/-! ## Single values -/

/-- What a decoder yields does not depend on the order of members, unless keys are repeated. -/
def IgnoresOrder (decode : Decoder α) : Prop :=
  ∀ ⦃ahead nesting tree tree' value⦄, tree.KeysDistinct → Rearranges tree tree' →
    decode ahead nesting tree = some value → decode ahead nesting tree' = some value

/-- A decoder that refuses containers meets no members. -/
theorem ignoresOrder_of_refuses {decode : Decoder α}
    (array : ∀ ahead nesting items, decode ahead nesting (.array items) = none)
    (object : ∀ ahead nesting members, decode ahead nesting (.object members) = none) :
    IgnoresOrder decode := by
  intro ahead nesting tree tree' value _ rearranges found
  cases rearranges with
  | null | boolean | number | string => exact found
  | array => cases (array ahead nesting _).symm.trans found
  | object => cases (object ahead nesting _).symm.trans found

theorem text_ignoresOrder : IgnoresOrder text :=
  ignoresOrder_of_refuses (fun _ _ _ => rfl) fun _ _ _ => rfl

theorem boolean_ignoresOrder : IgnoresOrder boolean :=
  ignoresOrder_of_refuses (fun _ _ _ => rfl) fun _ _ _ => rfl

theorem float_ignoresOrder : IgnoresOrder float :=
  ignoresOrder_of_refuses (fun _ _ _ => rfl) fun _ _ _ => rfl

theorem word_ignoresOrder : IgnoresOrder word :=
  ignoresOrder_of_refuses (fun _ _ _ => rfl) fun _ _ _ => rfl

theorem nullable_ignoresOrder {decode : Decoder α} (ignores : decode.IgnoresOrder) :
    IgnoresOrder (nullable decode) := by
  intro ahead nesting tree tree' value distinct rearranges found
  cases rearranges with
  | null | boolean | number | string => exact found
  | array each =>
      obtain ⟨held, held_found, rfl⟩ := Option.map_eq_some_iff.mp found
      exact Option.map_eq_some_iff.mpr ⟨held, ignores distinct (.array each) held_found, rfl⟩
  | object each perm =>
      obtain ⟨held, held_found, rfl⟩ := Option.map_eq_some_iff.mp found
      exact Option.map_eq_some_iff.mpr ⟨held, ignores distinct (.object each perm) held_found, rfl⟩

/-- An object that names a choice has one member, which has no other order. -/
theorem choice_ignoresOrder (names : List (String × α)) : IgnoresOrder (choice names) := by
  intro ahead nesting tree tree' value _ rearranges found
  unfold choice at found
  split at found
  · cases rearranges
    exact found
  · cases rearranges with
    | object each perm =>
      obtain ⟨_, _, ⟨_, values⟩, rest, rfl⟩ := List.forall₂_cons_left_iff.mp each
      cases values
      cases rest
      rw [← List.singleton_perm.mp perm]
      exact found
  · cases rearranges with
    | object each perm =>
      obtain ⟨_, _, ⟨_, values⟩, rest, rfl⟩ := List.forall₂_cons_left_iff.mp each
      cases values with
      | object inner inner_perm =>
        cases inner
        cases rest
        rw [← List.singleton_perm.mp perm, List.nil_perm.mp inner_perm]
        exact found
  · cases found

theorem list_ignoresOrder {decode : Decoder α} (ignores : decode.IgnoresOrder) :
    IgnoresOrder (list decode) := by
  intro ahead nesting tree tree' values distinct rearranges found
  obtain ⟨inner, items, rfl, rfl, read⟩ := list_eq_some_iff.mp found
  cases rearranges with
  | array each =>
      obtain ⟨values', read', same⟩ := exists_reads _ _ each read
        fun item member item' value held item_found =>
          ⟨value, ignores (distinct.item item member) held item_found, rfl⟩
      rw [List.forall₂_eq_eq_eq] at same
      exact list_eq_some_iff.mpr ⟨inner, _, rfl, rfl, same ▸ read'⟩

theorem readAhead_ignoresOrder {decode : ℕ → Json → Option α}
    (ignores : ∀ ⦃nesting tree tree' value⦄, tree.KeysDistinct → Rearranges tree tree' →
      decode nesting tree = some value → decode nesting tree' = some value) :
    IgnoresOrder (readAhead decode) := by
  intro ahead nesting tree tree' value distinct rearranges found
  rw [readAhead] at found ⊢
  split at found
  · next known =>
    rw [Bool.or_eq_true] at known
    have known' : (ahead || tree'.sound nesting) = true :=
      Bool.or_eq_true_iff.mpr (known.imp id rearranges.sound)
    rw [if_pos known']
    exact ignores distinct rearranges found
  · cases found

/-! ## Laws for what respects a layout -/

section Laws

variable (respects : Respects layout order change) {same : α → α → Prop}

include respects

theorem plain_carries {decode : Decoder α} (ignores : decode.IgnoresOrder) :
    Carries (change .plain) Eq decode := by
  intro ahead nesting tree tree' changed value found
  rcases respects.plain changed with rfl | ⟨distinct, rearranges⟩
  · exact ⟨value, found, rfl⟩
  · exact ⟨value, ignores distinct rearranges found, rfl⟩

theorem text_carries : Carries (change .plain) Eq text :=
  plain_carries respects text_ignoresOrder

theorem float_carries : Carries (change .plain) Eq float :=
  plain_carries respects float_ignoresOrder

theorem list_carries {part : Part} {decode : Decoder α}
    (carries : Carries (change (.one part)) same decode) :
    Carries (change (.list part)) (List.Forall₂ same) (list decode) := by
  intro ahead nesting tree tree' changed values found
  obtain ⟨inner, items, rfl, rfl, read⟩ := list_eq_some_iff.mp found
  obtain ⟨items', rfl, each⟩ := respects.list changed
  obtain ⟨values', read', held⟩ := exists_reads _ _ each read
    fun item _ item' value item_changed item_found => carries item_changed item_found
  exact ⟨values', list_eq_some_iff.mpr ⟨inner, items', rfl, rfl, read'⟩, held⟩

/-- `list_carries` for items that are decoded again as they are. -/
theorem items_carries {part : Part} {decode : Decoder α}
    (carries : Carries (change (.one part)) Eq decode) :
    Carries (change (.list part)) Eq (list decode) := by
  have each := list_carries respects carries
  rwa [List.forall₂_eq_eq_eq] at each

theorem table_carries {part : Part} {decode : Decoder α}
    (carries : Carries (change (.one part)) Eq decode) :
    Carries (change (.table part)) order.Same (table decode) := by
  intro ahead nesting tree tree' changed values found
  obtain ⟨inner, members, usable, pairs, rfl, rfl, usable_eq, read, rfl⟩ :=
    table_eq_some_iff.mp found
  obtain ⟨members', moved, usable', rfl, usable_eq', each, related⟩ :=
    respects.table changed usable_eq
  obtain ⟨pairs', moved_read, same_pairs⟩ := exists_reads
    (fun entry pair => (decode ahead inner entry.2).map (entry.1, ·) = some pair) Eq each read
    fun entry _ entry' pair same_key pair_eq => by
      cases same_key with
      | intro key entry_changed =>
        obtain ⟨value, value_eq, rfl⟩ := Option.map_eq_some_iff.mp pair_eq
        obtain ⟨value', value_eq', rfl⟩ := carries entry_changed value_eq
        exact ⟨(key, value), Option.map_eq_some_iff.mpr ⟨value, value_eq', rfl⟩, rfl⟩
  rw [List.forall₂_eq_eq_eq] at same_pairs
  subst same_pairs
  obtain ⟨pairs', read', ordered⟩ :=
    MemberOrder.relates_values (fun _ _ => fst_eq_of_map) related moved_read
  exact ⟨Bindings.ofList pairs', table_eq_some_iff.mpr
    ⟨inner, members', usable', pairs', rfl, rfl, usable_eq', read', rfl⟩,
    MemberOrder.same_ofList ordered⟩

end Laws

/-! ## Records and variants -/

/-- A decoder and the fields of its variant, under each tag. -/
inductive EachVariant (holds : FieldList Part → Decoder α → Prop) :
    List (String × FieldList Part) → List (String × Decoder α) → Prop
  | nil : EachVariant holds [] []
  | cons {tag : String} {fields : FieldList Part} {decode : Decoder α}
      {variants : List (String × FieldList Part)} {decoders : List (String × Decoder α)}
      (first : holds fields decode) (rest : EachVariant holds variants decoders) :
      EachVariant holds ((tag, fields) :: variants) ((tag, decode) :: decoders)

section Select

variable {holds : FieldList Part → Decoder α → Prop} {variants : List (String × FieldList Part)}
  {decoders : List (String × Decoder α)}

theorem EachVariant.exists_of_find? (each : EachVariant holds variants decoders)
    {name : String} {decode : Decoder α} (found : Bindings.find? name decoders = some decode) :
    ∃ fields, Bindings.find? name variants = some fields ∧ holds fields decode := by
  induction each with
  | nil => cases found
  | @cons tag fields _ _ _ first _ ih =>
      rw [Bindings.find?] at found ⊢
      split at found
      · next same_name =>
        cases found
        exact ⟨fields, if_pos same_name, first⟩
      · next different =>
        rw [if_neg different]
        exact ih found

theorem EachVariant.exists_of_getElem? (each : EachVariant holds variants decoders)
    {place : ℕ} {decode : Decoder α} (found : (decoders[place]?).map Prod.snd = some decode) :
    ∃ fields, (variants[place]?).map Prod.snd = some fields ∧ holds fields decode := by
  induction each generalizing place with
  | nil => cases found
  | cons first _ ih =>
      cases place with
      | zero =>
          cases found
          exact ⟨_, rfl, first⟩
      | succ place => exact ih found

/-- Where a tag selects a decoder, it selects the fields of that decoder. -/
theorem EachVariant.exists_of_select? (each : EachVariant holds variants decoders)
    {ahead : Bool} {tag : Json} {decode : Decoder α}
    (selected : select? ahead decoders tag = some decode) :
    ∃ fields, select? true variants tag = some fields ∧ holds fields decode := by
  unfold select? at selected
  split at selected
  · exact each.exists_of_find? selected
  · split at selected
    · split at selected
      · next position position_eq =>
        obtain ⟨fields, fields_eq, held⟩ := each.exists_of_getElem? selected
        refine ⟨fields, ?_, held⟩
        simp only [select?, if_true, position_eq, fields_eq]
      · cases selected
    · cases selected
  · cases selected

end Select

/-- What a tagged decoder yields, the decoder of a variant yields beside the tag. -/
theorem EachVariant.exists_of_tagged {holds : FieldList Part → Decoder α → Prop}
    {variants : List (String × FieldList Part)} {decoders : List (String × Decoder α)}
    (each : EachVariant holds variants decoders) {key : String} {ahead : Bool} {nesting : ℕ}
    {tree : Json} {value : α} (found : tagged key decoders ahead nesting tree = some value) :
    (ahead || tree.sound nesting) = true ∧ ∃ tag rest decode fields,
      splitTag? key tree = some (tag, rest) ∧ select? ahead decoders tag = some decode ∧
      select? true variants tag = some fields ∧ holds fields decode ∧
      decode true nesting rest = some value := by
  rw [tagged] at found
  split at found
  · next known =>
    refine ⟨known, ?_⟩
    split at found
    · next tag rest split_eq =>
      split at found
      · next decode selected =>
        obtain ⟨fields, fields_eq, held⟩ := each.exists_of_select? selected
        exact ⟨tag, rest, decode, fields, split_eq, selected, fields_eq, held, found⟩
      · cases found
    · cases found
  · cases found

section Records

variable {same : α → α → Prop} {fields : FieldList Part} {names : List String}
  {build : Fields → Option α}

theorem carried_of_recordsRelated (names_eq : fields.map Prod.fst = names)
    (built : ∀ {ahead nesting present present'},
      FieldsRelated change fields nesting present present' →
        Carried same (build ⟨present, ahead, nesting⟩) (build ⟨present', ahead, nesting⟩))
    {ahead : Bool} {nesting : ℕ} {tree tree' : Json}
    (related : RecordsRelated change fields nesting tree tree') :
    Carried same (record names build ahead nesting tree) (record names build ahead nesting tree') :=
    by
  intro value found
  subst names_eq
  obtain ⟨inner, present, rfl, present_eq, build_eq⟩ := record_eq_some_iff.mp found
  obtain ⟨present', present_eq', held⟩ := related.present rfl present_eq
  obtain ⟨value', build_eq', same_value⟩ := built held build_eq
  exact ⟨value', record_eq_some_iff.mpr ⟨inner, present', rfl, present_eq', build_eq'⟩, same_value⟩

theorem record_carriesVariant (names_eq : fields.map Prod.fst = names)
    (built : ∀ {ahead nesting present present'},
      FieldsRelated change fields nesting present present' →
        Carried same (build ⟨present, ahead, nesting⟩) (build ⟨present', ahead, nesting⟩)) :
    CarriesVariant change same fields (record names build) :=
  fun _ _ _ related => carried_of_recordsRelated names_eq built related

theorem unit_carriesVariant {value : α} (same_value : same value value) :
    CarriesVariant change same fields (unit value) := by
  intro nesting tree tree' related found found_eq
  have found_same : found = value := by
    unfold unit at found_eq
    split at found_eq
    · exact (Option.some.inj found_eq).symm
    · exact (Option.some.inj found_eq).symm
    · cases found_eq
  subst found_same
  exact ⟨found, related.unit found_eq, same_value⟩

variable (respects : Respects layout order change)

include respects

theorem record_carries {part : Part} (laid : layout part = .record fields)
    (names_eq : fields.map Prod.fst = names)
    (built : ∀ {ahead nesting present present'},
      FieldsRelated change fields nesting present present' →
        Carried same (build ⟨present, ahead, nesting⟩) (build ⟨present', ahead, nesting⟩)) :
    Carries (change (.one part)) same (record names build) :=
  fun _ _ _ _ changed => carried_of_recordsRelated names_eq built (respects.record laid changed)

theorem tagged_carries {part : Part} {key : String} {variants : List (String × FieldList Part)}
    {decoders : List (String × Decoder α)} (laid : layout part = .tagged key variants)
    (each : EachVariant (CarriesVariant change same) variants decoders) :
    Carries (change (.one part)) same (tagged key decoders) := by
  intro ahead nesting tree tree' changed value found
  obtain ⟨sound, split⟩ := respects.tagged laid changed
  obtain ⟨known, tag, rest, decode, fields, split_eq, selected, fields_eq, carries, rest_found⟩ :=
    each.exists_of_tagged found
  obtain ⟨rest', split_eq', related⟩ := split split_eq fields_eq
  rw [Bool.or_eq_true] at known
  have known' : (ahead || tree'.sound nesting) = true :=
    Bool.or_eq_true_iff.mpr (known.imp id sound)
  rw [tagged, if_pos known']
  simp only [split_eq', selected]
  exact carries related rest_found

end Records

/-! ## Fields -/

section Fields

variable {same : α → α → Prop} {fields : FieldList Part} {nesting : ℕ}
  {present present' : List (String × Json)} {ahead : Bool} {slot : Slot Part} {decode : Decoder α}

/-- A field is present in both records, with related values, or in neither. -/
theorem find?_cases (related : FieldsRelated change fields nesting present present') {name : String}
    (known : Bindings.find? name fields = some slot) :
    (Bindings.find? name present = none ∧ Bindings.find? name present' = none) ∨
      ∃ tree tree', Bindings.find? name present = some tree ∧
        Bindings.find? name present' = some tree' ∧ change slot nesting tree tree' := by
  have held := related name slot known
  generalize Bindings.find? name present = found at held ⊢
  generalize Bindings.find? name present' = found' at held ⊢
  cases held with
  | none => exact .inl ⟨rfl, rfl⟩
  | some changed => exact .inr ⟨_, _, rfl, rfl, changed⟩

theorem required_carried (related : FieldsRelated change fields nesting present present')
    {name : String} (known : Bindings.find? name fields = some slot)
    (carries : Carries (change slot) same decode) :
    Carried same (Fields.required ⟨present, ahead, nesting⟩ name decode)
      (Fields.required ⟨present', ahead, nesting⟩ name decode) := by
  rcases find?_cases related known with ⟨absent, -⟩ | ⟨tree, tree', tree_eq, tree_eq', changed⟩
  · simp only [Fields.required, absent]
    intro value found
    cases found
  · simp only [Fields.required, tree_eq, tree_eq']
    exact carries changed

theorem optional_carried (related : FieldsRelated change fields nesting present present')
    {name : String} (known : Bindings.find? name fields = some slot) {absent : α}
    (same_absent : same absent absent) (carries : Carries (change slot) same decode) :
    Carried same (Fields.optional ⟨present, ahead, nesting⟩ name absent decode)
      (Fields.optional ⟨present', ahead, nesting⟩ name absent decode) := by
  rcases find?_cases related known with
    ⟨missing, missing'⟩ | ⟨tree, tree', tree_eq, tree_eq', changed⟩
  · simp only [Fields.optional, missing, missing']
    exact .some same_absent
  · simp only [Fields.optional, tree_eq, tree_eq']
    exact carries changed

end Fields

end Decoder

end Json

end EconModel
