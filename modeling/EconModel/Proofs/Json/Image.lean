import EconModel.Proofs.Json.Codec

/-!
# What decoders yield

A decoder `Yields` values with a property, which may depend on how many containers can be entered.
Each way to put decoders together hands such a property on from the parts to the whole.  The
property that matters is how deep a value nests once it is written: its document `Fits` where it
enters hardly more containers than could be entered to read the value.
-/

namespace EconModel

namespace Json

theorem soundItems_iff {nesting : ℕ} {items : List Json} :
    soundItems nesting items = true ↔ ∀ item ∈ items, item.sound nesting = true := by
  induction items with
  | nil => simp [soundItems]
  | cons item rest ih => rw [soundItems, Bool.and_eq_true, ih, List.forall_mem_cons]

theorem soundMembers_iff {nesting : ℕ} {members : List (Option String × Json)} :
    soundMembers nesting members = true ↔
      ∀ member ∈ members, member.1.isSome = true ∧ member.2.sound nesting = true := by
  induction members with
  | nil => simp [soundMembers]
  | cons member rest ih =>
      rw [soundMembers, Bool.and_eq_true, Bool.and_eq_true, ih, List.forall_mem_cons]

theorem Numeral.isFinite_of_float? {numeral : Numeral} {value : Float}
    (read : numeral.float? = some value) : value.isFinite = true := by
  rw [Numeral.float?] at read
  split at read
  · next finite =>
    cases read
    exact finite
  · cases read

theorem mem_of_usableMembers? {members : List (Option String × Json)}
    {usable : List (String × Json)} (read : usableMembers? members = some usable) :
    ∀ member ∈ usable, (some member.1, member.2) ∈ members := by
  induction members generalizing usable with
  | nil =>
      cases read
      simp
  | cons member rest ih =>
      obtain ⟨key, tree⟩ := member
      cases key with
      | none => cases read
      | some name =>
          rw [usableMembers?, Option.map_eq_some_iff] at read
          obtain ⟨others, others_read, rfl⟩ := read
          rw [List.forall_mem_cons]
          exact ⟨List.mem_cons_self, fun member found =>
            List.mem_cons_of_mem _ (ih others_read member found)⟩

namespace Document

theorem mem_putSorted {key : String} {value : Document} {members : List (String × Document)}
    {member : String × Document} (found : member ∈ putSorted key value members) :
    member = (key, value) ∨ member ∈ members := by
  induction members with
  | nil => simpa [putSorted] using found
  | cons entry rest ih =>
      simp only [putSorted] at found
      split at found
      · rw [List.mem_cons] at found ⊢
        rcases found with same | later
        · exact .inr (.inl same)
        · exact (ih later).imp id .inr
      · split at found
        · exact (List.mem_cons.mp found).imp id (List.mem_cons_of_mem _)
        · exact List.mem_cons.mp found

mutual

/-- The document that a tree denotes enters no more containers than the tree. -/
theorem depth_le_of_ofJson? : ∀ (tree : Json) (document : Document) (nesting : ℕ),
    ofJson? tree = some document → tree.sound nesting = true → document.depth ≤ nesting
  | .null, _, _, read, _ => by cases read; exact Nat.zero_le _
  | .boolean _, _, _, read, _ => by cases read; exact Nat.zero_le _
  | .number _, _, _, read, _ => by
      simp only [ofJson?, Option.map_eq_some_iff] at read
      obtain ⟨_, _, rfl⟩ := read
      exact Nat.zero_le _
  | .string _, _, _, read, _ => by
      simp only [ofJson?, Option.map_eq_some_iff] at read
      obtain ⟨_, _, rfl⟩ := read
      exact Nat.zero_le _
  | .array _, _, 0, _, sound => by cases sound
  | .array items, _, nesting + 1, read, sound => by
      simp only [ofJson?, Option.map_eq_some_iff] at read
      obtain ⟨documents, documents_eq, rfl⟩ := read
      exact depth_list_le.mpr
        (depth_le_of_ofItems? items documents nesting documents_eq (soundItems_iff.mp sound))
  | .object _, _, 0, _, sound => by cases sound
  | .object members, _, nesting + 1, read, sound => by
      simp only [ofJson?, Option.map_eq_some_iff] at read
      obtain ⟨documents, documents_eq, rfl⟩ := read
      exact depth_object_le.mpr (depth_le_of_ofMembers? members [] documents nesting documents_eq
        (fun member found => (soundMembers_iff.mp sound member found).2) (by simp))

theorem depth_le_of_ofItems? : ∀ (items : List Json) (documents : List Document) (nesting : ℕ),
    ofItems? items = some documents → (∀ item ∈ items, item.sound nesting = true) →
    ∀ document ∈ documents, document.depth ≤ nesting
  | [], _, _, read, _ => by cases read; simp
  | item :: rest, _, nesting, read, sound => by
      simp only [ofItems?] at read
      split at read
      · next first others first_eq others_eq =>
        cases read
        rw [List.forall_mem_cons] at sound ⊢
        exact ⟨depth_le_of_ofJson? item first nesting first_eq sound.1,
          depth_le_of_ofItems? rest others nesting others_eq sound.2⟩
      · cases read

theorem depth_le_of_ofMembers? : ∀ (members : List (Option String × Json))
    (before documents : List (String × Document)) (nesting : ℕ),
    ofMembers? before members = some documents →
    (∀ member ∈ members, member.2.sound nesting = true) →
    (∀ member ∈ before, member.2.depth ≤ nesting) → ∀ member ∈ documents, member.2.depth ≤ nesting
  | [], _, _, _, read, _, before_fits => by
      cases read
      exact before_fits
  | (key, value) :: rest, before, documents, nesting, read, sound, before_fits => by
      simp only [ofMembers?] at read
      split at read
      · next name found found_eq =>
        rw [List.forall_mem_cons] at sound
        refine depth_le_of_ofMembers? rest _ documents nesting read sound.2 fun member placed => ?_
        rcases mem_putSorted placed with rfl | earlier
        · exact depth_le_of_ofJson? value found nesting found_eq sound.1
        · exact before_fits member earlier
      · cases read

end

theorem ofJson?_of_data {tree : Json} {data : Data} (read : Data.ofJson? tree = some data) :
    ofJson? tree = some data.document := by
  unfold Data.ofJson? at read
  split at read
  · next document document_eq =>
    cases read
    exact document_eq
  · cases read

/-! ## How deep a written value nests -/

/-- A document enters no more containers than `nesting`, or one more if it is not `tight`.  It is
put as a bound with some slack, so that the two cases are shown as one. -/
def Fits (tight : Prop) (nesting : ℕ) (document : Document) : Prop :=
  ∀ slack, (slack = 0 → tight) → document.depth ≤ nesting + slack

theorem Fits.le {tight : Prop} {nesting : ℕ} {document : Document}
    (fits : document.Fits tight nesting) :
    document.depth ≤ nesting + 1 ∧ (tight → document.depth ≤ nesting) :=
  ⟨fits 1 (fun one => absurd one Nat.one_ne_zero), fun tight => fits 0 fun _ => tight⟩

theorem fits_of_depth_le {tight : Prop} {nesting : ℕ} {document : Document}
    (shallow : document.depth ≤ nesting) : document.Fits tight nesting :=
  fun _ _ => Nat.le_add_right_of_le shallow

theorem depth_object_le_iff_fit {members : List (String × Document)} {bound : ℕ} :
    (object members).depth ≤ bound + 1 ↔ Decoder.Fit members bound :=
  depth_object_le

theorem fits_list {tight : Prop} {nesting : ℕ} {items : List Document}
    (fits : ∀ slack, (slack = 0 → tight) → ∀ item ∈ items, item.depth ≤ nesting + slack) :
    (list items).Fits tight (nesting + 1) := by
  intro slack tight
  rw [Nat.add_right_comm]
  exact depth_list_le.mpr (fits slack tight)

theorem fits_table {α : Type} {tight : Prop} {nesting : ℕ} {write : α → Document}
    {values : Bindings α}
    (fits : ∀ slack, (slack = 0 → tight) →
      ∀ entry ∈ values.entries, (write entry.2).depth ≤ nesting + slack) :
    (table write values).Fits tight (nesting + 1) := by
  intro slack tight
  rw [Nat.add_right_comm, table]
  refine depth_object_le.mpr ?_
  rw [List.forall_mem_map]
  exact fits slack tight

theorem fits_object {tight : Prop} {nesting : ℕ} {members : List (String × Document)}
    (fits : ∀ slack, (slack = 0 → tight) → Decoder.Fit members (nesting + slack)) :
    (object members).Fits tight (nesting + 1) := by
  intro slack tight
  rw [Nat.add_right_comm]
  exact depth_object_le.mpr (fits slack tight)

end Document

namespace Decoder

open Document (depth)

variable {α : Type} {property : ℕ → α → Prop}

/-- Every value that the decoder yields has the property.  A tree that has been read ahead is known
to be sound. -/
def Yields (decode : Decoder α) (property : ℕ → α → Prop) : Prop :=
  ∀ ⦃ahead nesting tree value⦄, (ahead = true → tree.sound nesting = true) →
    decode ahead nesting tree = some value → property nesting value

/-- Every value that the decoder yields from a sound tree that has been read ahead has the
property. -/
def YieldsAhead (decode : Decoder α) (property : ℕ → α → Prop) : Prop :=
  ∀ ⦃nesting tree value⦄, tree.sound nesting = true → decode true nesting tree = some value →
    property nesting value

theorem Yields.ahead {decode : Decoder α} (yields : Yields decode property) :
    YieldsAhead decode property := fun _ _ _ sound found => yields (fun _ => sound) found

theorem Yields.imp {decode : Decoder α} {weaker : ℕ → α → Prop} (yields : Yields decode property)
    (imp : ∀ nesting value, property nesting value → weaker nesting value) :
    Yields decode weaker :=
  fun _ nesting _ value sound found => imp nesting value (yields sound found)

theorem readAhead_yields {decode : ℕ → Json → Option α}
    (yields : ∀ ⦃nesting tree value⦄, tree.sound nesting = true →
      decode nesting tree = some value → property nesting value) :
    Yields (readAhead decode) property := by
  intro ahead nesting tree value sound found
  rw [readAhead] at found
  split at found
  · next known =>
    rw [Bool.or_eq_true] at known
    exact yields (known.elim sound id) found
  · cases found

/-! ## Single values and containers -/

theorem float_yields : Yields float fun _ value => value.isFinite = true := by
  intro ahead nesting tree value _ found
  unfold float at found
  split at found
  · exact Numeral.isFinite_of_float? found
  · cases found

theorem nullable_yields {decode : Decoder α} (yields : Yields decode property) :
    Yields (nullable decode) fun nesting value => ∀ held, value = some held →
      property nesting held := by
  intro ahead nesting tree value sound found held held_eq
  subst held_eq
  unfold nullable at found
  split at found
  · cases found
  · rw [Option.map_eq_some_iff] at found
    obtain ⟨_, held_found, same⟩ := found
    cases same
    exact yields sound held_found

theorem exists_mem_of_mapM {β : Type} {f : α → Option β} {items : List α} {values : List β}
    (read : items.mapM f = some values) {value : β} (member : value ∈ values) :
    ∃ item ∈ items, f item = some value := by
  rw [mapM_eq_some_iff] at read
  induction read with
  | nil => cases member
  | cons first_read _ ih =>
      rcases List.mem_cons.mp member with rfl | later
      · exact ⟨_, List.mem_cons_self, first_read⟩
      · obtain ⟨item, item_member, item_read⟩ := ih later
        exact ⟨item, List.mem_cons_of_mem _ item_member, item_read⟩

theorem list_yields {decode : Decoder α} (yields : Yields decode property) :
    Yields (list decode) fun nesting values =>
      ∃ inner, nesting = inner + 1 ∧ ∀ value ∈ values, property inner value := by
  intro ahead nesting tree values sound found
  unfold list at found
  split at found
  · next inner items =>
    refine ⟨inner, rfl, ?_⟩
    intro value member
    obtain ⟨item, item_member, item_found⟩ := exists_mem_of_mapM found member
    exact yields (fun known => soundItems_iff.mp (sound known) item item_member) item_found
  · cases found

theorem table_yields {decode : Decoder α} (yields : Yields decode property) :
    Yields (table decode) fun nesting values =>
      ∃ inner, nesting = inner + 1 ∧ ∀ entry ∈ values.entries, property inner entry.2 := by
  intro ahead nesting tree values sound found
  unfold table at found
  split at found
  · next inner members =>
    refine ⟨inner, rfl, ?_⟩
    simp only [Option.bind_eq_bind, Option.bind_eq_some_iff, Option.some.injEq] at found
    obtain ⟨usable, usable_eq, pairs, pairs_eq, rfl⟩ := found
    intro entry member
    have held : (Bindings.ofList pairs).get? entry.1 = some entry.2 :=
      (Bindings.get?_eq_some_iff _ _ _).mpr member
    obtain ⟨usable_member, usable_found, pair_eq⟩ :=
      exists_mem_of_mapM pairs_eq (Bindings.mem_of_get?_ofList held)
    simp only [Option.map_eq_some_iff, Prod.mk.injEq, exists_eq_right_right] at pair_eq
    have entered := mem_of_usableMembers? usable_eq usable_member usable_found
    exact yields (fun known => (soundMembers_iff.mp (sound known) _ entered).2) pair_eq.1
  · cases found

/-! ## Records -/

/-- The fields of a record that has been read ahead are sound. -/
def Fields.Sound (fields : Fields) : Prop :=
  fields.ahead = true → ∀ member ∈ fields.present, member.2.sound fields.nesting = true

/-- What is put together from any sound fields has a property, so the record has it. -/
theorem record_yields {names : List String} {build : Fields → Option α}
    (built : ∀ ⦃fields value⦄, fields.Sound → build fields = some value →
      property (fields.nesting + 1) value) :
    Yields (record names build) property := by
  intro ahead nesting tree value sound found
  unfold record at found
  split at found
  · next inner members =>
    simp only [Option.bind_eq_bind, Option.bind_eq_some_iff] at found
    obtain ⟨usable, usable_eq, present, present_eq, value_eq⟩ := found
    refine built (fun known member member_present => ?_) value_eq
    have member_usable : member ∈ usable := by
      rw [presentFields?] at present_eq
      split at present_eq
      · cases present_eq
        exact List.mem_of_mem_filter member_present
      · cases present_eq
    have entered := mem_of_usableMembers? usable_eq member member_usable
    exact (soundMembers_iff.mp (sound known) _ entered).2
  · next inner items =>
    split at found
    · refine built (fun known member member_present => ?_) found
      exact soundItems_iff.mp (sound known) _ (List.of_mem_zip member_present).2
    · cases found
  · cases found

theorem record_yieldsAhead {names : List String} {build : Fields → Option α}
    (built : ∀ ⦃fields value⦄, fields.Sound → build fields = some value →
      property (fields.nesting + 1) value) :
    YieldsAhead (record names build) property :=
  (record_yields built).ahead

section Fields

variable {fields : Fields} {name : String} {decode : Decoder α} {value : α}

theorem required_yields (yields : Yields decode property) (sound : fields.Sound)
    (found : fields.required name decode = some value) : property fields.nesting value := by
  rw [Fields.required] at found
  split at found
  · next tree present =>
    exact yields (fun known => sound known _ (Bindings.mem_of_find? present)) found
  · cases found

theorem optional_yields {absent : α} (yields : Yields decode property) (sound : fields.Sound)
    (found : fields.optional name absent decode = some value) :
    value = absent ∨ property fields.nesting value := by
  rw [Fields.optional] at found
  split at found
  · next tree present =>
    exact .inr (yields (fun known => sound known _ (Bindings.mem_of_find? present)) found)
  · cases found
    exact .inl rfl

end Fields

/-- A list that may be absent is written out all the same, so there has to be room for it unless it
has items. -/
theorem optional_items_fit {fields : Fields} {name : String} {decode : Decoder α} {values : List α}
    {write : α → Document} {faithful tight : α → Prop}
    (yields : Yields decode fun nesting value =>
      faithful value ∧ (write value).Fits (tight value) nesting)
    (sound : fields.Sound) (found : fields.optional name [] (list decode) = some values) :
    (∀ value ∈ values, faithful value) ∧
      (Document.list (values.map write)).Fits (values ≠ [] ∧ ∀ value ∈ values, tight value)
        fields.nesting := by
  rcases optional_yields (list_yields yields) sound found with rfl | ⟨inner, nesting_eq, held⟩
  · refine ⟨by simp, fun slack tight => ?_⟩
    have positive : 0 < slack := Nat.pos_of_ne_zero fun none => (tight none).1 rfl
    exact Nat.le_add_left_of_le positive
  · refine ⟨fun value member => (held value member).1, ?_⟩
    rw [nesting_eq]
    refine Document.fits_list fun slack all_tight => List.forall_mem_map.mpr ?_
    exact fun value member =>
      (held value member).2 slack fun none => (all_tight none).2 value member

/-- Where a container can be entered there is room for a list. -/
theorem optional_list_fits (tight : α → Prop) {fields : Fields} {name : String}
    {decode : Decoder α} {values : List α} {write : α → Document} {faithful : α → Prop}
    (yields : Yields decode fun nesting value =>
      faithful value ∧ (write value).Fits (tight value) nesting)
    (sound : fields.Sound) (room : 0 < fields.nesting)
    (found : fields.optional name [] (list decode) = some values) :
    (∀ value ∈ values, faithful value) ∧
      (Document.list (values.map write)).Fits (∀ value ∈ values, tight value) fields.nesting := by
  obtain ⟨all_faithful, fits⟩ := optional_items_fit yields sound found
  refine ⟨all_faithful, fun slack all_tight => ?_⟩
  rcases eq_or_ne values [] with rfl | nonempty
  · exact Document.fits_of_depth_le room slack all_tight
  · exact fits slack fun none => ⟨nonempty, all_tight none⟩

/-- A table that may be absent is written out all the same, so there has to be room for it unless it
has entries. -/
theorem optional_entries_fit {fields : Fields} {name : String} {decode : Decoder α}
    {values : Bindings α} {write : α → Document} {faithful tight : α → Prop}
    (yields : Yields decode fun nesting value =>
      faithful value ∧ (write value).Fits (tight value) nesting)
    (sound : fields.Sound) (found : fields.optional name .empty (table decode) = some values) :
    (∀ entry ∈ values.entries, faithful entry.2) ∧
      (Document.table write values).Fits (values ≠ .empty ∧ ∀ entry ∈ values.entries, tight entry.2)
        fields.nesting := by
  rcases optional_yields (table_yields yields) sound found with rfl | ⟨inner, nesting_eq, held⟩
  · refine ⟨by simp [Bindings.empty], fun slack tight => ?_⟩
    have positive : 0 < slack := Nat.pos_of_ne_zero fun none => (tight none).1 rfl
    exact Nat.le_add_left_of_le positive
  · refine ⟨fun entry member => (held entry member).1, ?_⟩
    rw [nesting_eq]
    refine Document.fits_table fun slack all_tight => ?_
    exact fun entry member =>
      (held entry member).2 slack fun none => (all_tight none).2 entry member

/-! ## Variants -/

theorem unit_yields {value : α} (holds : ∀ nesting, property (nesting + 1) value) :
    YieldsAhead (unit value) property := by
  intro nesting tree yielded sound found
  cases nesting with
  | zero =>
      unfold unit at found
      split at found
      · cases sound
      · cases sound
      · cases found
  | succ inner =>
      have same : value = yielded := by
        unfold unit at found
        split at found <;> cases found <;> rfl
      exact same ▸ holds inner

theorem sound_of_splitTag? {key : String} {tree tag rest : Json} {nesting : ℕ}
    (sound : tree.sound nesting = true) (split_eq : splitTag? key tree = some (tag, rest)) :
    rest.sound nesting = true := by
  unfold splitTag? at split_eq
  split at split_eq
  · next members =>
    split at split_eq
    · cases split_eq
      cases nesting with
      | zero => cases sound
      | succ inner =>
          refine soundMembers_iff.mpr fun member kept => ?_
          exact soundMembers_iff.mp sound member (List.mem_of_mem_filter kept)
    · cases split_eq
  · cases split_eq
    cases nesting with
    | zero => cases sound
    | succ inner =>
        exact soundItems_iff.mpr (List.forall_mem_cons.mp (soundItems_iff.mp sound)).2
  · cases split_eq

theorem mem_of_select? {β : Type} {ahead : Bool} {variants : List (String × β)} {tag : Json}
    {selected : β} (found : select? ahead variants tag = some selected) :
    ∃ entry ∈ variants, entry.2 = selected := by
  unfold select? at found
  split at found
  · exact ⟨_, Bindings.mem_of_find? found, rfl⟩
  · split at found
    · split at found
      · next position _ =>
        rw [Option.map_eq_some_iff] at found
        obtain ⟨entry, entry_eq, same⟩ := found
        exact ⟨entry, List.mem_of_getElem? entry_eq, same⟩
      · cases found
    · cases found
  · cases found

/-- What each variant yields has a property, so what a tagged value yields has it. -/
theorem tagged_yields {key : String} {variants : List (String × Decoder α)}
    (each : ∀ entry ∈ variants, YieldsAhead entry.2 property) :
    Yields (tagged key variants) property := by
  intro ahead nesting tree value sound found
  rw [tagged] at found
  split at found
  · next known =>
    rw [Bool.or_eq_true] at known
    have tree_sound := known.elim sound id
    split at found
    · next tag rest split_eq =>
      split at found
      · next decode selected =>
        obtain ⟨entry, member, rfl⟩ := mem_of_select? selected
        exact each entry member (sound_of_splitTag? tree_sound split_eq) found
      · cases found
    · cases found
  · cases found

end Decoder

end Json

end EconModel
