import EconModel.Proofs.Json.Layout

/-!
# Order of members and unknown members

Two changes respect every layout: to list the members of objects in another order, and to add a
member with a key that is no field of the record it is added to.
-/

namespace EconModel

namespace Json

open Decoder

variable {Part : Type}

/-! ## Additions -/

section Additions

variable (layout : Part → Layout Part)

mutual

/-- A member that is no field is added to one of the records that a tree holds.  Of `nesting`
containers that may be entered, the added value enters no more than are left where it stands. -/
inductive Adds : Slot Part → (nesting : ℕ) → Json → Json → Prop
  | one {part : Part} {nesting : ℕ} {fields : FieldList Part} {tree tree' : Json}
      (holds : (layout part).fieldsOf? tree = some fields)
      (adds : AddsToRecord fields nesting tree tree') :
      Adds (.one part) (nesting + 1) tree tree'
  | list {part : Part} {nesting : ℕ} (front back : List Json) {item item' : Json}
      (adds : Adds (.one part) nesting item item') :
      Adds (.list part) (nesting + 1) (.array (front ++ item :: back))
        (.array (front ++ item' :: back))
  | table {part : Part} {nesting : ℕ} (front back : List (Option String × Json))
      (key : Option String) {value value' : Json} (adds : Adds (.one part) nesting value value') :
      Adds (.table part) (nesting + 1) (.object (front ++ (key, value) :: back))
        (.object (front ++ (key, value') :: back))

/-- `Adds` for a record with the given fields: a member is added to the record itself, or inside of
one of its fields. -/
inductive AddsToRecord : FieldList Part → (nesting : ℕ) → Json → Json → Prop
  | member {fields : FieldList Part} {nesting : ℕ} (front back : List (Option String × Json))
      {key : String} {value : Json} (unknown : Bindings.find? key fields = none)
      (sound : value.sound nesting = true) :
      AddsToRecord fields nesting (.object (front ++ back))
        (.object (front ++ (some key, value) :: back))
  | field {fields : FieldList Part} {nesting : ℕ} (front back : List (Option String × Json))
      {key : String} {slot : Slot Part} {value value' : Json}
      (known : Bindings.find? key fields = some slot) (adds : Adds slot nesting value value') :
      AddsToRecord fields nesting (.object (front ++ (some key, value) :: back))
        (.object (front ++ (some key, value') :: back))
  | place {fields : FieldList Part} {nesting : ℕ} (front back : List Json) {key : String}
      {slot : Slot Part} {item item' : Json}
      (placed : (fields.map Prod.fst)[front.length]? = some key)
      (known : Bindings.find? key fields = some slot) (adds : Adds slot nesting item item') :
      AddsToRecord fields nesting (.array (front ++ item :: back))
        (.array (front ++ item' :: back))

end

end Additions

variable {layout : Part → Layout Part}

theorem soundItems_exchange {nesting : ℕ} {front back : List Json} {item item' : Json}
    (exchanged : item.sound nesting = true → item'.sound nesting = true)
    (sound : soundItems nesting (front ++ item :: back) = true) :
    soundItems nesting (front ++ item' :: back) = true := by
  rw [soundItems_iff, List.forall_mem_append, List.forall_mem_cons] at sound ⊢
  exact ⟨sound.1, exchanged sound.2.1, sound.2.2⟩

theorem soundMembers_exchange {nesting : ℕ} {front back : List (Option String × Json)}
    {key : Option String} {value value' : Json}
    (exchanged : value.sound nesting = true → value'.sound nesting = true)
    (sound : soundMembers nesting (front ++ (key, value) :: back) = true) :
    soundMembers nesting (front ++ (key, value') :: back) = true := by
  rw [soundMembers_iff, List.forall_mem_append, List.forall_mem_cons] at sound ⊢
  exact ⟨sound.1, ⟨sound.2.1.1, exchanged sound.2.1.2⟩, sound.2.2⟩

mutual

theorem Adds.sound {slot : Slot Part} {nesting : ℕ} {tree tree' : Json} :
    Adds layout slot nesting tree tree' → tree.sound nesting = true → tree'.sound nesting = true
  | .one _ adds, sound => adds.sound sound
  | .list _ _ adds, sound => soundItems_exchange adds.sound sound
  | .table _ _ _ adds, sound => soundMembers_exchange adds.sound sound

theorem AddsToRecord.sound {fields : FieldList Part} {nesting : ℕ} {tree tree' : Json} :
    AddsToRecord layout fields nesting tree tree' → tree.sound (nesting + 1) = true →
      tree'.sound (nesting + 1) = true
  | .member _ _ _ value_sound, sound => by
      change soundMembers nesting _ = true at sound ⊢
      rw [soundMembers_iff, List.forall_mem_append] at sound ⊢
      rw [List.forall_mem_cons]
      exact ⟨sound.1, ⟨rfl, value_sound⟩, sound.2⟩
  | .field _ _ _ adds, sound => soundMembers_exchange adds.sound sound
  | .place _ _ _ _ adds, sound => soundItems_exchange adds.sound sound

end

/-! ## Entries of related records -/

section Entries

variable {related : String → Json → Json → Prop} {entries entries' : List (String × Json)}

theorem find?_rel_of_sameKey (each : List.Forall₂ (SameKey related) entries entries')
    (name : String) :
    Option.Rel (related name) (Bindings.find? name entries) (Bindings.find? name entries') := by
  induction each with
  | nil => exact .none
  | cons same _ ih =>
      cases same with
      | intro key values =>
        rw [Bindings.find?, Bindings.find?]
        split
        · next same_name => exact .some (same_name ▸ values)
        · exact ih

theorem filter_of_sameKey {κ : Type} {related : κ → Json → Json → Prop}
    {members members' : List (κ × Json)} (each : List.Forall₂ (SameKey related) members members')
    (kept : κ → Bool) :
    List.Forall₂ (SameKey related) (members.filter fun member => kept member.1)
      (members'.filter fun member => kept member.1) := by
  induction each with
  | nil => exact .nil
  | cons same _ ih =>
      cases same with
      | intro key values =>
        rw [List.filter_cons, List.filter_cons]
        split
        · exact .cons (.intro key values) ih
        · exact ih

theorem find?_eq_of_perm (distinct : (entries.map Prod.fst).Nodup) (perm : entries.Perm entries')
    (name : String) : Bindings.find? name entries = Bindings.find? name entries' := by
  have distinct' := (perm.map Prod.fst).nodup_iff.mp distinct
  apply Option.ext
  intro value
  rw [Bindings.find?_eq_some_iff distinct, Bindings.find?_eq_some_iff distinct', perm.mem_iff]

/-- Where the members of an object are related to others, key by key, and moved, so are its
fields. -/
theorem fieldsIn?_object {related : Option String → Json → Json → Prop} {names : List String}
    {members moved members' : List (Option String × Json)} {present : List (String × Json)}
    (each : List.Forall₂ (SameKey related) members moved) (perm : moved.Perm members')
    (present_eq : fieldsIn? names (.object members) = some present) :
    ∃ present', fieldsIn? names (.object members') = some present' ∧ ∀ name,
      Option.Rel (related (some name)) (Bindings.find? name present)
        (Bindings.find? name present') := by
  obtain ⟨usable, usable_eq, fields_eq⟩ := Option.bind_eq_some_iff.mp present_eq
  obtain ⟨moved', moved_eq, each'⟩ := usableMembers?_sameKey each usable_eq
  obtain ⟨usable', usable_eq', perm'⟩ := usableMembers?_perm perm moved_eq
  have each_field := filter_of_sameKey each' names.contains
  have perm_field := perm'.filter fun entry => names.contains entry.1
  rw [presentFields?] at fields_eq
  split at fields_eq
  · next distinct =>
    cases fields_eq
    rw [← map_fst_eq_of_sameKey each_field] at distinct
    have distinct' := (perm_field.map Prod.fst).nodup_iff.mp distinct
    refine ⟨usable'.filter fun entry => names.contains entry.1, ?_, fun name => ?_⟩
    · rw [fieldsIn?, usable_eq', Option.bind_some, presentFields?, if_pos distinct']
    · rw [← find?_eq_of_perm distinct perm_field]
      exact find?_rel_of_sameKey each_field name
  · cases fields_eq

/-- Where the items of an array are related to others, place by place, so are its fields. -/
theorem fieldsIn?_array {names : List String} {items items' : List Json}
    {present : List (String × Json)} (length_eq : items'.length = items.length)
    (each : List.Forall₂ (SameKey related) (names.zip items) (names.zip items'))
    (present_eq : fieldsIn? names (.array items) = some present) :
    ∃ present', fieldsIn? names (.array items') = some present' ∧ ∀ name,
      Option.Rel (related name) (Bindings.find? name present) (Bindings.find? name present') := by
  rw [fieldsIn?] at present_eq ⊢
  rw [length_eq]
  split at present_eq
  · next bound =>
    cases present_eq
    exact ⟨names.zip items', if_pos bound, find?_rel_of_sameKey each⟩
  · cases present_eq

theorem sameKey_zip {related : Json → Json → Prop} {items items' : List Json} (names : List String)
    (each : List.Forall₂ related items items') :
    List.Forall₂ (SameKey fun _ => related) (names.zip items) (names.zip items') := by
  induction each generalizing names with
  | nil =>
      rw [List.zip_nil_right]
      exact .nil
  | cons head _ ih =>
      cases names with
      | nil => exact .nil
      | cons name names => exact .cons (.intro name head) (ih names)

end Entries

/-! ## Rearranged trees -/

/-- A tree without repeated keys and a rearrangement of it. -/
def Reorders (tree tree' : Json) : Prop := tree.KeysDistinct ∧ Rearranges tree tree'

theorem reorders_each {items items' : List Json} (distinct : (Json.array items).KeysDistinct)
    (each : List.Forall₂ Rearranges items items') : List.Forall₂ Reorders items items' :=
  (List.forall₂_and_left _ _).mpr ⟨distinct.item, each⟩

theorem reorders_members {members moved : List (Option String × Json)}
    (distinct : (Json.object members).KeysDistinct)
    (each : List.Forall₂ (SameKey fun _ => Rearranges) members moved) :
    List.Forall₂ (SameKey fun _ => Reorders) members moved := by
  refine ((List.forall₂_and_left _ _).mpr ⟨distinct.member, each⟩).imp fun member member' held => ?_
  obtain ⟨member_distinct, same⟩ := held
  cases same with
  | intro key values => exact .intro key ⟨member_distinct, values⟩

theorem recordsRelated_of_reorders {tree tree' : Json} (reorders : Reorders tree tree')
    (fields : FieldList Part) (nesting : ℕ) :
    RecordsRelated (fun _ _ => Reorders) fields nesting tree tree' := by
  obtain ⟨distinct, rearranges⟩ := reorders
  constructor
  case present =>
    intro inner present _ present_eq
    cases rearranges with
    | null | boolean | number | string => cases present_eq
    | array each =>
        have each' := sameKey_zip (fields.map Prod.fst) (reorders_each distinct each)
        obtain ⟨present', present_eq', related⟩ :=
          fieldsIn?_array each.length_eq.symm each' present_eq
        exact ⟨present', present_eq', fun name slot _ => related name⟩
    | object each perm =>
        obtain ⟨present', present_eq', related⟩ :=
          fieldsIn?_object (reorders_members distinct each) perm present_eq
        exact ⟨present', present_eq', fun name slot _ => related name⟩
  case unit =>
    intro α value found found_eq
    cases rearranges with
    | null | boolean | number | string => cases found_eq
    | array each =>
        cases each with
        | nil => exact found_eq
        | cons => cases found_eq
    | object each perm => exact found_eq

/-- A tag and what stands beside it are rearranged. -/
theorem splitTag?_of_rearranges {key : String} {tree tree' tag rest : Json}
    (rearranges : Rearranges tree tree') (split_eq : splitTag? key tree = some (tag, rest)) :
    ∃ tag' rest', splitTag? key tree' = some (tag', rest') ∧ Rearranges tag tag' ∧
      Rearranges rest rest' := by
  cases rearranges with
  | null | boolean | number | string => cases split_eq
  | array each =>
      cases each with
      | nil => cases split_eq
      | cons head each =>
        cases split_eq
        exact ⟨_, _, rfl, head, .array each⟩
  | object each perm =>
      obtain ⟨⟨name, tag_eq⟩, rfl⟩ := splitTag?_object_eq_some_iff.mp split_eq
      have tag_each := filter_of_sameKey each fun name => name = some key
      have rest_each := filter_of_sameKey each fun name => name ≠ some key
      have tag_perm := perm.filter fun member => member.1 = some key
      have rest_perm := perm.filter fun member => member.1 ≠ some key
      rw [tag_eq, List.forall₂_cons_left_iff] at tag_each
      obtain ⟨_, _, same, others, moved_eq⟩ := tag_each
      cases others
      cases same with
      | intro _ same_tag =>
        rw [moved_eq, List.singleton_perm] at tag_perm
        exact ⟨_, _, splitTag?_object_eq_some_iff.mpr ⟨⟨name, tag_perm.symm⟩, rfl⟩, same_tag,
          .object rest_each rest_perm⟩

/-- To rearrange a tree without repeated keys respects every layout. -/
theorem reorders_respects (layout : Part → Layout Part) :
    Respects layout .free fun _ _ => Reorders where
  plain reorders := .inr reorders
  record _ reorders := recordsRelated_of_reorders reorders _ _
  tagged _ reorders := by
    refine ⟨reorders.2.sound, fun {tag rest fields} split_eq selected => ?_⟩
    obtain ⟨tag', rest', split_eq', same_tag, same_rest⟩ :=
      splitTag?_of_rearranges reorders.2 split_eq
    -- A tag that selects a variant is a single value, so nothing in it can be rearranged.
    have tag_eq : tag' = tag := by
      cases same_tag with
      | null | boolean | number | string => rfl
      | array | object => cases selected
    have rest_distinct := keysDistinct_of_splitTag? reorders.1 split_eq
    exact ⟨rest', tag_eq ▸ split_eq',
      recordsRelated_of_reorders ⟨rest_distinct, same_rest⟩ _ _⟩
  list reorders := by
    obtain ⟨distinct, rearranges⟩ := reorders
    cases rearranges with
    | array each => exact ⟨_, rfl, reorders_each distinct each⟩
  table reorders usable_eq := by
    obtain ⟨distinct, rearranges⟩ := reorders
    cases rearranges with
    | object each perm =>
      obtain ⟨moved', moved_eq, each'⟩ :=
        usableMembers?_sameKey (reorders_members distinct each) usable_eq
      obtain ⟨usable', usable_eq', perm'⟩ := usableMembers?_perm perm moved_eq
      refine ⟨_, moved', usable', rfl, usable_eq', each', ?_, perm'⟩
      rw [map_fst_eq_of_sameKey each', map_fst_usableMembers? usable_eq]
      exact distinct.keys

/-! ## Added members -/

/-- A tree and itself, or the tree with a member added to one of the records that it holds. -/
def MayAdd (layout : Part → Layout Part) (slot : Slot Part) (nesting : ℕ) (tree tree' : Json) :
    Prop :=
  tree' = tree ∨ Adds layout slot nesting tree tree'

/-- `MayAdd` for the value of a field, found under its key. -/
def MayAddUnder (layout : Part → Layout Part) (fields : FieldList Part) (nesting : ℕ)
    (key : Option String) (tree tree' : Json) : Prop :=
  ∀ name slot, key = some name → Bindings.find? name fields = some slot →
    MayAdd layout slot nesting tree tree'

theorem MayAddUnder.refl {fields : FieldList Part} {nesting : ℕ} {key : Option String}
    {tree : Json} : MayAddUnder layout fields nesting key tree tree :=
  fun _ _ _ _ => .inl rfl

theorem MayAddUnder.of_adds {fields : FieldList Part} {nesting : ℕ} {key : String}
    {slot : Slot Part} {tree tree' : Json} (known : Bindings.find? key fields = some slot)
    (adds : Adds layout slot nesting tree tree') :
    MayAddUnder layout fields nesting (some key) tree tree' := by
  intro name slot' same found
  cases same
  cases known.symm.trans found
  exact .inr adds

/-- Records in which each field may have had a member added to it. -/
theorem fieldsRelated_of_mayAddUnder {fields : FieldList Part} {nesting : ℕ}
    {present present' : List (String × Json)}
    (related : ∀ name, Option.Rel (MayAddUnder layout fields nesting (some name))
      (Bindings.find? name present) (Bindings.find? name present')) :
    FieldsRelated (MayAdd layout) fields nesting present present' := by
  intro name slot found
  have held := related name
  generalize Bindings.find? name present = tree? at held ⊢
  generalize Bindings.find? name present' = tree?' at held ⊢
  cases held with
  | none => exact .none
  | some under => exact .some (under name slot rfl found)

theorem forall₂_exchange {α : Type} (related : α → α → Prop) (refl : ∀ item, related item item)
    {item item' : α} (exchanged : related item item') (front back : List α) :
    List.Forall₂ related (front ++ item :: back) (front ++ item' :: back) := by
  induction front with
  | nil => exact .cons exchanged (List.forall₂_same.mpr fun item _ => refl item)
  | cons head front ih => exact .cons (refl head) ih

theorem sameKey_zip_exchange (related : String → Json → Json → Prop)
    (refl : ∀ name item, related name item item) {item item' : Json} (front back : List Json)
    {names : List String}
    (exchanged : ∀ name, names[front.length]? = some name → related name item item') :
    List.Forall₂ (SameKey related) (names.zip (front ++ item :: back))
      (names.zip (front ++ item' :: back)) := by
  have same_each (names : List String) (items : List Json) :
      List.Forall₂ (SameKey related) (names.zip items) (names.zip items) :=
    List.forall₂_same.mpr fun entry _ => .intro entry.1 (refl entry.1 entry.2)
  induction front generalizing names with
  | nil =>
      cases names with
      | nil => exact .nil
      | cons name names => exact .cons (.intro name (exchanged name rfl)) (same_each names back)
  | cons head front ih =>
      cases names with
      | nil => exact .nil
      | cons name names => exact .cons (.intro name (refl name head)) (ih exchanged)

theorem usableMembers?_append (front back : List (Option String × Json)) :
    usableMembers? (front ++ back) =
      (usableMembers? front).bind fun usable => (usableMembers? back).map (usable ++ ·) := by
  induction front with
  | nil => simp [usableMembers?]
  | cons member front ih =>
      obtain ⟨key, value⟩ := member
      cases key with
      | none => rfl
      | some key =>
          rw [List.cons_append, usableMembers?, usableMembers?, ih, Option.bind_map,
            Option.map_bind]
          simp only [Function.comp_def, Option.map_map, List.cons_append]

/-- A member whose key is no field is not among the fields. -/
theorem fieldsIn?_member {names : List String} {front back : List (Option String × Json)}
    {key : String} (unknown : key ∉ names) (value : Json) :
    fieldsIn? names (.object (front ++ (some key, value) :: back)) =
      fieldsIn? names (.object (front ++ back)) := by
  have same_fields (before after : List (String × Json)) :
      presentFields? names (before ++ (key, value) :: after) =
        presentFields? names (before ++ after) := by
    rw [presentFields?, presentFields?, List.filter_append, List.filter_append,
      List.filter_cons_of_neg (by simpa using unknown)]
  rw [fieldsIn?, fieldsIn?, usableMembers?_append, usableMembers?_append, usableMembers?]
  simp only [Option.map_map, Option.bind_assoc, Option.bind_map, Function.comp_def, same_fields]

theorem recordsRelated_refl {fields : FieldList Part} {nesting : ℕ} (tree : Json) :
    RecordsRelated (MayAdd layout) fields nesting tree tree where
  present := by
    intro inner present _ present_eq
    refine ⟨present, present_eq, fun name slot _ => ?_⟩
    cases Bindings.find? name present with
    | none => exact .none
    | some tree => exact .some (.inl rfl)
  unit found := found

/-- A member that is added to a record is skipped; one that is added inside of a field changes that
field alone. -/
theorem recordsRelated_of_adds {fields : FieldList Part} {nesting : ℕ} {tree tree' : Json}
    (adds : AddsToRecord layout fields nesting tree tree') :
    RecordsRelated (MayAdd layout) fields (nesting + 1) tree tree' := by
  constructor
  case present =>
    intro inner present inner_eq present_eq
    obtain rfl := Nat.succ.inj inner_eq
    cases adds with
    | member _ _ unknown sound =>
        rw [fieldsIn?_member ((Bindings.find?_eq_none_iff _ _).mp unknown)]
        exact (recordsRelated_refl _).present rfl present_eq
    | field front back known adds =>
        have each := forall₂_exchange (SameKey (MayAddUnder layout fields nesting))
          (fun member => .intro member.1 .refl) (.intro _ (.of_adds known adds)) front back
        obtain ⟨present', present_eq', related⟩ := fieldsIn?_object each (.refl _) present_eq
        exact ⟨present', present_eq', fieldsRelated_of_mayAddUnder related⟩
    | place front back placed known adds =>
        have each := sameKey_zip_exchange
          (fun name => MayAddUnder layout fields nesting (some name)) (fun _ _ => .refl) front back
          fun name name_eq => by
            cases placed.symm.trans name_eq
            exact .of_adds known adds
        obtain ⟨present', present_eq', related⟩ := fieldsIn?_array (by simp) each present_eq
        exact ⟨present', present_eq', fieldsRelated_of_mayAddUnder related⟩
  case unit =>
    intro α value found found_eq
    cases adds with
    | member | field => exact found_eq
    | place front => cases front <;> cases found_eq

/-- A tag holds no record, so nothing is added inside of it. -/
theorem Adds.beside_tag {fields : FieldList Part} {tag key : String} {slot : Slot Part}
    {nesting : ℕ} {tree tree' : Json} (adds : Adds layout slot nesting tree tree')
    (known : Bindings.find? key ((tag, .plain) :: fields) = some slot) :
    key ≠ tag ∧ Bindings.find? key fields = some slot := by
  rw [Bindings.find?] at known
  split at known
  · cases known
    cases adds
  · next different => exact ⟨fun same => different same.symm, known⟩

/-- A member added beside a tag, or inside of another field, leaves the tag as it is. -/
theorem splitTag?_of_adds {key : String} {fields : FieldList Part} {nesting : ℕ}
    {tree tree' tag rest : Json}
    (adds : AddsToRecord layout ((key, .plain) :: fields) nesting tree tree')
    (split_eq : splitTag? key tree = some (tag, rest)) :
    ∃ rest', splitTag? key tree' = some (tag, rest') ∧
      AddsToRecord layout fields nesting rest rest' := by
  cases adds with
  | @member _ _ front back added value unknown sound =>
      obtain ⟨⟨name, tag_eq⟩, rfl⟩ := splitTag?_object_eq_some_iff.mp split_eq
      obtain ⟨different, unknown⟩ : added ≠ key ∧ Bindings.find? added fields = none := by
        simpa only [Bindings.find?_eq_none_iff, List.map_cons, List.mem_cons, not_or] using unknown
      refine ⟨_, splitTag?_object_eq_some_iff.mpr ⟨⟨name, ?_⟩, rfl⟩, ?_⟩
      · rw [← tag_eq, List.filter_append, List.filter_append,
          List.filter_cons_of_neg (by simpa using different)]
      · rw [List.filter_append, List.filter_append,
          List.filter_cons_of_pos (by simpa using different)]
        exact .member _ _ unknown sound
  | field front back known adds =>
      obtain ⟨⟨name, tag_eq⟩, rfl⟩ := splitTag?_object_eq_some_iff.mp split_eq
      obtain ⟨different, known⟩ := adds.beside_tag known
      refine ⟨_, splitTag?_object_eq_some_iff.mpr ⟨⟨name, ?_⟩, rfl⟩, ?_⟩
      · rw [← tag_eq, List.filter_append, List.filter_append,
          List.filter_cons_of_neg (by simpa using different),
          List.filter_cons_of_neg (by simpa using different)]
      · rw [List.filter_append, List.filter_append,
          List.filter_cons_of_pos (by simpa using different),
          List.filter_cons_of_pos (by simpa using different)]
        exact .field _ _ known adds
  | place front back placed known adds =>
      obtain ⟨different, known⟩ := adds.beside_tag known
      cases front with
      | nil => exact absurd (Option.some.inj placed).symm different
      | cons head front =>
          cases split_eq
          exact ⟨_, rfl, .place _ _ placed known adds⟩

/-- To add a member that is no field respects every layout, and keeps the order of members. -/
theorem adds_respects (layout : Part → Layout Part) : Respects layout .kept (MayAdd layout) where
  plain changed := by
    rcases changed with rfl | adds
    · exact .inl rfl
    · cases adds
  record laid changed := by
    rcases changed with rfl | adds
    · exact recordsRelated_refl _
    · cases adds with
      | one holds adds =>
        rw [laid] at holds
        cases holds
        exact recordsRelated_of_adds adds
  tagged {part key variants nesting tree tree'} laid changed := by
    rcases changed with rfl | adds
    · exact ⟨id, fun {tag rest fields} split_eq _ => ⟨rest, split_eq, recordsRelated_refl _⟩⟩
    · refine ⟨adds.sound, fun {tag rest fields} split_eq selected => ?_⟩
      cases adds with
      | one holds adds =>
        rw [laid, Layout.fieldsOf?, split_eq, Option.bind_some, selected] at holds
        cases holds
        obtain ⟨rest', split_eq', rest_adds⟩ := splitTag?_of_adds adds split_eq
        exact ⟨rest', split_eq', recordsRelated_of_adds rest_adds⟩
  list changed := by
    rcases changed with rfl | adds
    · exact ⟨_, rfl, List.forall₂_same.mpr fun _ _ => .inl rfl⟩
    · cases adds with
      | list front back adds =>
        exact ⟨_, rfl, forall₂_exchange _ (fun _ => .inl rfl) (.inr adds) front back⟩
  table {part nesting members tree' usable} changed usable_eq := by
    rcases changed with rfl | adds
    · exact ⟨_, _, _, rfl, usable_eq,
        List.forall₂_same.mpr fun entry _ => .intro entry.1 (.inl rfl), rfl⟩
    · cases adds with
      | table front back key adds =>
        have each := forall₂_exchange
          (SameKey fun _ : Option String => MayAdd layout (.one part) nesting)
          (fun member => .intro member.1 (.inl rfl)) (.intro key (.inr adds)) front back
        obtain ⟨usable', usable_eq', each'⟩ := usableMembers?_sameKey each usable_eq
        exact ⟨_, _, _, rfl, usable_eq', each', rfl⟩

end Json

end EconModel
