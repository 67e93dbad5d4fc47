import EconModel.Proofs.Json.Image
import EconModel.Value

/-!
# Members in another order

Two trees rearrange one another where the members of their objects, at any depth, are listed in
another order.  What a tree says as a document, and whether it is sound, does not depend on that
order as long as no key is repeated.
-/

namespace EconModel

namespace Json

/-- Induction over trees, where every item of an array and the value of every member of an object
has the property. -/
@[induction_eliminator]
theorem inductionOn {motive : Json → Prop}
    (null : motive .null)
    (boolean : ∀ value, motive (.boolean value))
    (number : ∀ numeral, motive (.number numeral))
    (string : ∀ text, motive (.string text))
    (array : ∀ items, (∀ item ∈ items, motive item) → motive (.array items))
    (object : ∀ members, (∀ member ∈ members, motive member.2) → motive (.object members)) :
    ∀ tree, motive tree
  | .null => null
  | .boolean value => boolean value
  | .number numeral => number numeral
  | .string text => string text
  | .array items =>
      array items fun item _ => inductionOn null boolean number string array object item
  | .object members =>
      object members fun member _ =>
        inductionOn null boolean number string array object member.2
decreasing_by
  · next found =>
    have smaller := List.sizeOf_lt_of_mem found
    simp only [Json.array.sizeOf_spec]
    omega
  · next found =>
    have smaller := List.sizeOf_lt_of_mem found
    have inside : sizeOf member = 1 + sizeOf member.1 + sizeOf member.2 := rfl
    simp only [Json.object.sizeOf_spec]
    omega

/-- Two members have the same key and values that are related, in a way that may depend on the
key. -/
inductive SameKey {κ : Type} (related : κ → Json → Json → Prop) : κ × Json → κ × Json → Prop
  | intro (key : κ) {value value' : Json} (values : related key value value') :
      SameKey related (key, value) (key, value')

/-- No object of a tree repeats a key.  Keys that are unusable are not compared. -/
inductive KeysDistinct : Json → Prop
  | null : KeysDistinct .null
  | boolean (value : Bool) : KeysDistinct (.boolean value)
  | number (numeral : Numeral) : KeysDistinct (.number numeral)
  | string (text : Option String) : KeysDistinct (.string text)
  | array {items : List Json} (each : ∀ item ∈ items, KeysDistinct item) :
      KeysDistinct (.array items)
  | object {members : List (Option String × Json)} (keys : (members.filterMap Prod.fst).Nodup)
      (each : ∀ member ∈ members, KeysDistinct member.2) : KeysDistinct (.object members)

attribute [simp] KeysDistinct.null KeysDistinct.boolean KeysDistinct.number KeysDistinct.string

/-- Two trees differ at most in the order in which their objects list the members. -/
inductive Rearranges : Json → Json → Prop
  | null : Rearranges .null .null
  | boolean (value : Bool) : Rearranges (.boolean value) (.boolean value)
  | number (numeral : Numeral) : Rearranges (.number numeral) (.number numeral)
  | string (text : Option String) : Rearranges (.string text) (.string text)
  | array {items items' : List Json} (each : List.Forall₂ Rearranges items items') :
      Rearranges (.array items) (.array items')
  | object {members moved members' : List (Option String × Json)}
      (each : List.Forall₂ (SameKey fun _ => Rearranges) members moved)
      (perm : moved.Perm members') : Rearranges (.object members) (.object members')

/-! ## Pairs of lists -/

section Pairs

variable {α β γ : Type} {related : α → β → Prop}

theorem exists_left_of_mem {items : List α} {items' : List β}
    (each : List.Forall₂ related items items') {item' : β} (member : item' ∈ items') :
    ∃ item ∈ items, related item item' := by
  induction each with
  | nil => cases member
  | cons head _ ih =>
      rcases List.mem_cons.mp member with rfl | later
      · exact ⟨_, List.mem_cons_self, head⟩
      · obtain ⟨item, found, held⟩ := ih later
        exact ⟨item, List.mem_cons_of_mem _ found, held⟩

/-- What is read from items is read, up to a relation between values, from related items. -/
theorem exists_reads {reads : α → γ → Prop} (reads' : β → γ → Prop) (same : γ → γ → Prop)
    {items : List α} {items' : List β} {values : List γ}
    (each : List.Forall₂ related items items') (read : List.Forall₂ reads items values)
    (step : ∀ item ∈ items, ∀ item' value, related item item' → reads item value →
      ∃ value', reads' item' value' ∧ same value value') :
    ∃ values', List.Forall₂ reads' items' values' ∧ List.Forall₂ same values values' := by
  induction each generalizing values with
  | nil =>
      cases read
      exact ⟨[], .nil, .nil⟩
  | cons head _ ih =>
      obtain ⟨value, others, value_read, others_read, rfl⟩ := List.forall₂_cons_left_iff.mp read
      rw [List.forall_mem_cons] at step
      obtain ⟨value', value_read', value_same⟩ := step.1 _ _ head value_read
      obtain ⟨others', others_read', others_same⟩ := ih others_read step.2
      exact ⟨value' :: others', .cons value_read' others_read', .cons value_same others_same⟩

theorem map_fst_eq_of_forall₂ {κ : Type} {related : κ × α → κ × β → Prop}
    (keys : ∀ member member', related member member' → member'.1 = member.1)
    {members : List (κ × α)} {members' : List (κ × β)}
    (each : List.Forall₂ related members members') :
    members'.map Prod.fst = members.map Prod.fst := by
  induction each with
  | nil => rfl
  | cons head _ ih => rw [List.map_cons, List.map_cons, keys _ _ head, ih]

theorem map_fst_eq_of_sameKey {κ : Type} {related : κ → Json → Json → Prop}
    {members members' : List (κ × Json)}
    (each : List.Forall₂ (SameKey related) members members') :
    members'.map Prod.fst = members.map Prod.fst := by
  refine map_fst_eq_of_forall₂ (fun member member' same => ?_) each
  cases same
  rfl

theorem filterMap_fst_eq_of_sameKey {related : Option String → Json → Json → Prop}
    {members members' : List (Option String × Json)}
    (each : List.Forall₂ (SameKey related) members members') :
    members'.filterMap Prod.fst = members.filterMap Prod.fst := by
  have keys_eq := map_fst_eq_of_sameKey each
  have through (members : List (Option String × Json)) :
      members.filterMap Prod.fst = (members.map Prod.fst).filterMap id := by
    rw [List.filterMap_map]
    rfl
  rw [through, keys_eq, ← through]

theorem map_fst_eq_filterMap {members : List (Option String × β)} {entries : List (String × γ)}
    (each : List.Forall₂ (fun member entry => member.1 = some entry.1) members entries) :
    entries.map Prod.fst = members.filterMap Prod.fst := by
  induction each with
  | nil => rfl
  | cons key_eq _ ih => rw [List.map_cons, List.filterMap_cons_some key_eq, ih]

end Pairs

/-! ## Keys and soundness -/

theorem KeysDistinct.item {items : List Json} (distinct : (Json.array items).KeysDistinct) :
    ∀ item ∈ items, item.KeysDistinct := by
  cases distinct with
  | array each => exact each

theorem KeysDistinct.member {members : List (Option String × Json)}
    (distinct : (Json.object members).KeysDistinct) :
    ∀ member ∈ members, member.2.KeysDistinct := by
  cases distinct with
  | object _ each => exact each

theorem KeysDistinct.keys {members : List (Option String × Json)}
    (distinct : (Json.object members).KeysDistinct) : (members.filterMap Prod.fst).Nodup := by
  cases distinct with
  | object keys _ => exact keys

@[simp]
theorem keysDistinct_array_iff {items : List Json} :
    (Json.array items).KeysDistinct ↔ ∀ item ∈ items, item.KeysDistinct :=
  ⟨KeysDistinct.item, .array⟩

@[simp]
theorem keysDistinct_object_iff {members : List (Option String × Json)} :
    (Json.object members).KeysDistinct ↔
      (members.filterMap Prod.fst).Nodup ∧ ∀ member ∈ members, member.2.KeysDistinct :=
  ⟨fun distinct => ⟨distinct.keys, distinct.member⟩, fun held => .object held.1 held.2⟩

theorem KeysDistinct.filter {members : List (Option String × Json)}
    (distinct : (Json.object members).KeysDistinct) (kept : Option String × Json → Bool) :
    (Json.object (members.filter kept)).KeysDistinct :=
  .object (distinct.keys.sublist (List.filter_sublist.filterMap _)) fun member found =>
    distinct.member member (List.mem_of_mem_filter found)

theorem KeysDistinct.rearranged {tree : Json} (distinct : tree.KeysDistinct) {tree' : Json}
    (rearranges : Rearranges tree tree') : tree'.KeysDistinct := by
  induction tree generalizing tree' with
  | null | boolean | number | string =>
      cases rearranges
      exact distinct
  | array items ih =>
      cases rearranges with
      | array moved =>
        refine .array fun item' member => ?_
        obtain ⟨item, found, held⟩ := exists_left_of_mem moved member
        exact ih item found (distinct.item item found) held
  | object members ih =>
      cases rearranges with
      | object moved perm =>
        refine .object ?_ fun member' found' => ?_
        · rw [← (perm.filterMap Prod.fst).nodup_iff, filterMap_fst_eq_of_sameKey moved]
          exact distinct.keys
        · obtain ⟨member, found, held⟩ := exists_left_of_mem moved (perm.mem_iff.mpr found')
          cases held with
          | intro key values => exact ih _ found (distinct.member _ found) values

theorem Rearranges.refl (tree : Json) : Rearranges tree tree := by
  induction tree with
  | null => exact .null
  | boolean value => exact .boolean value
  | number numeral => exact .number numeral
  | string text => exact .string text
  | array items ih => exact .array (List.forall₂_same.mpr ih)
  | object members ih =>
      exact .object (List.forall₂_same.mpr fun member found => .intro member.1 (ih member found))
        (.refl members)

theorem Rearranges.sound {tree tree' : Json} (rearranges : Rearranges tree tree') {nesting : ℕ}
    (sound : tree.sound nesting = true) : tree'.sound nesting = true := by
  induction tree generalizing tree' nesting with
  | null | boolean | number | string =>
      cases rearranges
      exact sound
  | array items ih =>
      cases rearranges with
      | array moved =>
        cases nesting with
        | zero => cases sound
        | succ nesting =>
          refine soundItems_iff.mpr fun item' member => ?_
          obtain ⟨item, found, held⟩ := exists_left_of_mem moved member
          exact ih item found held (soundItems_iff.mp sound item found)
  | object members ih =>
      cases rearranges with
      | object moved perm =>
        cases nesting with
        | zero => cases sound
        | succ nesting =>
          refine soundMembers_iff.mpr fun member' found' => ?_
          obtain ⟨member, found, held⟩ := exists_left_of_mem moved (perm.mem_iff.mpr found')
          cases held with
          | intro key values =>
            obtain ⟨usable, value_sound⟩ := soundMembers_iff.mp sound _ found
            exact ⟨usable, ih _ found values value_sound⟩

/-! ## Usable members -/

theorem usableMembers?_eq_some_iff {members : List (Option String × Json)}
    {usable : List (String × Json)} :
    usableMembers? members = some usable ↔
      List.Forall₂ (fun member entry => member = (some entry.1, entry.2)) members usable := by
  induction members generalizing usable with
  | nil => simp [usableMembers?, eq_comm]
  | cons member rest ih =>
      obtain ⟨key, tree⟩ := member
      rw [List.forall₂_cons_left_iff]
      cases key with
      | none => simp [usableMembers?]
      | some name =>
          simp only [usableMembers?, Option.map_eq_some_iff, ih, Prod.mk.injEq,
            Option.some.injEq]
          constructor
          · rintro ⟨others, each, rfl⟩
            exact ⟨(name, tree), others, ⟨rfl, rfl⟩, each, rfl⟩
          · rintro ⟨⟨_, _⟩, others, ⟨rfl, rfl⟩, each, rfl⟩
            exact ⟨others, each, rfl⟩

/-- Where the members of an object are related to others, key by key, its usable members are. -/
theorem usableMembers?_sameKey {related : Option String → Json → Json → Prop}
    {members members' : List (Option String × Json)} {usable : List (String × Json)}
    (each : List.Forall₂ (SameKey related) members members')
    (usable_eq : usableMembers? members = some usable) :
    ∃ usable', usableMembers? members' = some usable' ∧
      List.Forall₂ (SameKey fun key => related (some key)) usable usable' := by
  rw [usableMembers?_eq_some_iff] at usable_eq
  obtain ⟨usable', usable_eq', each'⟩ := exists_reads
    (fun member entry => member = (some entry.1, entry.2))
    (SameKey fun key => related (some key)) each usable_eq
    fun member _ member' entry same member_eq => by
      subst member_eq
      cases same with
      | intro _ values => exact ⟨_, rfl, .intro entry.1 values⟩
  exact ⟨usable', usableMembers?_eq_some_iff.mpr usable_eq', each'⟩

theorem map_fst_usableMembers? {members : List (Option String × Json)}
    {usable : List (String × Json)} (usable_eq : usableMembers? members = some usable) :
    usable.map Prod.fst = members.filterMap Prod.fst :=
  map_fst_eq_filterMap ((usableMembers?_eq_some_iff.mp usable_eq).imp
    fun member entry same => by rw [same])

theorem usableMembers?_perm {members members' : List (Option String × Json)}
    {usable : List (String × Json)} (perm : members.Perm members')
    (usable_eq : usableMembers? members = some usable) :
    ∃ usable', usableMembers? members' = some usable' ∧ usable.Perm usable' := by
  rw [usableMembers?_eq_some_iff] at usable_eq
  obtain ⟨usable', usable_eq', perm'⟩ := List.perm_comp_forall₂ perm.symm usable_eq
  exact ⟨usable', usableMembers?_eq_some_iff.mpr usable_eq', perm'.symm⟩

/-! ## Documents -/

namespace Document

/-- Members with different keys can be put in either order. -/
theorem putSorted_comm {key other : String} (different : key ≠ other) (value value' : Document)
    (members : List (String × Document)) :
    putSorted other value' (putSorted key value members) =
      putSorted key value (putSorted other value' members) := by
  induction members with
  | nil => grind [putSorted]
  | cons entry rest ih => grind [putSorted]

theorem ofItems?_eq_some_iff {items : List Json} {documents : List Document} :
    ofItems? items = some documents ↔
      List.Forall₂ (fun item document => ofJson? item = some document) items documents := by
  induction items generalizing documents with
  | nil => simp [ofItems?, eq_comm]
  | cons item rest ih =>
      rw [ofItems?, List.forall₂_cons_left_iff]
      split
      · next first others first_eq others_eq =>
        rw [first_eq, Option.some.injEq]
        constructor
        · rintro rfl
          exact ⟨first, others, rfl, ih.mp others_eq, rfl⟩
        · rintro ⟨_, others', same, others_eq', rfl⟩
          rw [Option.some.inj same, Option.some.inj (others_eq.symm.trans (ih.mpr others_eq'))]
      · next missing =>
        refine ⟨fun read => (by cases read), ?_⟩
        rintro ⟨first, others, first_eq, others_eq, rfl⟩
        exact (missing first others first_eq (ih.mpr others_eq)).elim

/-- The members of an object are put one after the other into the members in front of them. -/
theorem ofMembers?_eq_some_iff {members : List (Option String × Json)}
    {before documents : List (String × Document)} :
    ofMembers? before members = some documents ↔
      ∃ entries : List (String × Document),
        List.Forall₂ (fun member entry => member.1 = some entry.1 ∧
          ofJson? member.2 = some entry.2) members entries ∧
        entries.foldl (fun before entry => putSorted entry.1 entry.2 before) before =
          documents := by
  induction members generalizing before with
  | nil => simp [ofMembers?]
  | cons member rest ih =>
      obtain ⟨key, tree⟩ := member
      simp only [ofMembers?, List.forall₂_cons_left_iff]
      split
      · next name value value_eq =>
        rw [ih, value_eq]
        constructor
        · rintro ⟨entries, each, made⟩
          exact ⟨(name, value) :: entries, ⟨_, _, ⟨rfl, rfl⟩, each, rfl⟩, made⟩
        · rintro ⟨_, ⟨⟨_, _⟩, entries, ⟨name_eq, same⟩, each, rfl⟩, made⟩
          cases name_eq
          cases same
          exact ⟨entries, each, made⟩
      · next missing =>
        refine ⟨fun read => (by cases read), ?_⟩
        rintro ⟨_, ⟨entry, entries, ⟨name_eq, value_eq⟩, _, rfl⟩, _⟩
        exact (missing entry.1 entry.2 name_eq value_eq).elim

/-- Entries with different keys make the same object in any order. -/
theorem foldl_putSorted_perm {entries entries' : List (String × Document)}
    (distinct : (entries.map Prod.fst).Nodup) (perm : entries.Perm entries')
    (before : List (String × Document)) :
    entries.foldl (fun before entry => putSorted entry.1 entry.2 before) before =
      entries'.foldl (fun before entry => putSorted entry.1 entry.2 before) before := by
  refine perm.foldl_eq' (fun entry member other member' members => ?_) before
  by_cases same : entry.1 = other.1
  · rw [List.inj_on_of_nodup_map distinct member member' same]
  · exact putSorted_comm same entry.2 other.2 members

/-- A tree without repeated keys is the same document in every order of its members. -/
theorem ofJson?_rearranged {tree : Json} (distinct : tree.KeysDistinct) {tree' : Json}
    (rearranges : Rearranges tree tree') {document : Document}
    (read : ofJson? tree = some document) : ofJson? tree' = some document := by
  induction tree generalizing tree' document with
  | null | boolean | number | string =>
      cases rearranges
      exact read
  | array items ih =>
      cases rearranges with
      | array moved =>
        simp only [ofJson?, Option.map_eq_some_iff, ofItems?_eq_some_iff] at read ⊢
        obtain ⟨documents, documents_read, rfl⟩ := read
        obtain ⟨documents', documents_read', same⟩ := exists_reads _ _ moved documents_read
          fun item member item' document held item_read =>
            ⟨document, ih item member (distinct.item item member) held item_read, rfl⟩
        rw [List.forall₂_eq_eq_eq] at same
        exact ⟨documents, same ▸ documents_read', rfl⟩
  | object members ih =>
      cases rearranges with
      | object moved perm =>
        simp only [ofJson?, Option.map_eq_some_iff, ofMembers?_eq_some_iff] at read ⊢
        obtain ⟨_, ⟨entries, entries_read, rfl⟩, rfl⟩ := read
        have names_eq : entries.map Prod.fst = members.filterMap Prod.fst :=
          map_fst_eq_filterMap (entries_read.imp fun _ _ held => held.1)
        obtain ⟨entries', entries_read', same⟩ := exists_reads
          (fun member entry => member.1 = some entry.1 ∧ ofJson? member.2 = some entry.2)
          Eq moved entries_read
          fun member found member' entry held entry_read => by
            cases held with
            | intro key values =>
              have value_read := ih _ found (distinct.member _ found) values entry_read.2
              exact ⟨entry, ⟨entry_read.1, value_read⟩, rfl⟩
        rw [List.forall₂_eq_eq_eq] at same
        subst same
        obtain ⟨entries', ordered_read, perm'⟩ := List.perm_comp_forall₂ perm.symm entries_read'
        refine ⟨_, ⟨entries', ordered_read, ?_⟩, rfl⟩
        exact (foldl_putSorted_perm (names_eq ▸ distinct.keys) perm'.symm []).symm

end Document

theorem Data.ofJson?_eq_some_iff {tree : Json} {data : Data} :
    Data.ofJson? tree = some data ↔ Document.ofJson? tree = some data.document := by
  refine ⟨Document.ofJson?_of_data, fun read => ?_⟩
  unfold Data.ofJson?
  split
  · next document document_eq =>
    obtain ⟨_, sorted⟩ := data
    obtain rfl : document = _ := Option.some.inj (document_eq.symm.trans read)
    rfl
  · next missing => cases missing.symm.trans read

end Json

namespace Value

theorem ofJson?_rearranged {tree tree' : Json} (distinct : tree.KeysDistinct)
    (rearranges : Json.Rearranges tree tree') {value : Value} (read : ofJson? tree = some value) :
    ofJson? tree' = some value := by
  have read_data {data : Json.Data} (data_read : Json.Data.ofJson? tree = some data) :
      Json.Data.ofJson? tree' = some data := by
    rw [Json.Data.ofJson?_eq_some_iff] at data_read ⊢
    exact Json.Document.ofJson?_rearranged distinct rearranges data_read
  cases rearranges with
  | null | boolean | number | string => exact read
  | array | object =>
      obtain ⟨data, data_read, rfl⟩ := Option.map_eq_some_iff.mp read
      exact Option.map_eq_some_iff.mpr ⟨data, read_data data_read, rfl⟩

end Value

end EconModel
