import EconModel.Proofs.Bindings
import EconModel.Proofs.Json.Reading
import EconModel.RunResult.Json

/-!
# Decoders against what is written

A decoder `Reads` a document as a value if it yields the value exactly where the value is faithful,
which is for the type of the value to say, and where the document nests no deeper than containers
may be entered.  Each way to put decoders together preserves this, so a type inherits it from its
parts.
-/

namespace EconModel

namespace Json

namespace Decoder

open Document (depth tree trees memberTrees)

variable {α β : Type} {nesting : ℕ}

/-- The decoder yields `value` from the tree of a document exactly where the value is faithful and
the document fits.  A document that has been read ahead is known to fit. -/
def Reads (decode : Decoder α) (nesting : ℕ) (document : Document) (value : α)
    (faithful : Prop) : Prop :=
  ∀ ahead, (ahead = true → document.depth ≤ nesting) →
    (decode ahead nesting document.tree = some value ↔ faithful ∧ document.depth ≤ nesting)

/-! ## Single values -/

theorem reads_text (value : String) : Reads text nesting (.text value) value True := by
  simp [Reads, text, tree, depth]

theorem reads_boolean (value : Bool) : Reads boolean nesting (.boolean value) value True := by
  simp [Reads, boolean, tree, depth]

theorem reads_word (value : UInt64) : Reads word nesting (.word value) value True := by
  simp [Reads, word, tree, depth, Document.word, Number.word?_numeral_natural]

/-- A double reads back where it is finite; otherwise it is written as `null`. -/
theorem reads_float (value : Float) :
    Reads float nesting (.float value) value (value.isFinite = true) := by
  by_cases finite : value.isFinite = true
  · simp [Reads, float, tree, depth, Document.float, Number.ofFloat?, finite,
      Number.float?_numeral_real]
  · simp [Reads, float, tree, depth, Document.float, Number.ofFloat?, finite]

theorem reads_choice {names : List (String × α)} {name : String} {value : α}
    (named : Bindings.find? name names = some value) :
    Reads (choice names) nesting (.text name) value True := by
  simp [Reads, choice, tree, depth, named]

/-- A value, or `null` where there is none. -/
theorem nullable_reads (value : Option α) {decode : Decoder α} {write : α → Document}
    {faithful : α → Prop}
    (reads : ∀ held, Reads decode nesting (write held) held (faithful held))
    (notNull : ∀ ahead, decode ahead nesting .null = none) :
    Reads (nullable decode) nesting ((value.map write).getD .null) value
      (∀ held, value = some held → faithful held) := by
  intro ahead fits
  cases value with
  | none => simp [tree, nullable, depth]
  | some held =>
      have read := reads held ahead fits
      simp only [Option.map_some, Option.getD_some, Option.some.injEq, forall_eq'] at fits ⊢
      rw [← read]
      unfold nullable
      split
      · next is_null =>
        rw [is_null, notNull]
        simp
      · simp

/-! ## Containers -/

theorem mapM_eq_some_iff {f : α → Option β} {items : List α} {values : List β} :
    items.mapM f = some values ↔
      List.Forall₂ (fun item value => f item = some value) items values := by
  induction items generalizing values with
  | nil => cases values <;> simp
  | cons item rest ih =>
      cases values with
      | nil =>
          rw [List.mapM_cons]
          simp [Option.bind_eq_some_iff]
      | cons value values => simp [List.mapM_cons, ih, Option.bind_eq_some_iff]

theorem list_reads (values : List α) {decode : Decoder α} {write : α → Document}
    {faithful : α → Prop}
    (reads : ∀ inner < nesting, ∀ value ∈ values,
      Reads decode inner (write value) value (faithful value)) :
    Reads (list decode) nesting (.list (values.map write)) values
      (∀ value ∈ values, faithful value) := by
  intro ahead fits
  cases nesting with
  | zero => simp [list, depth]
  | succ inner =>
      rw [Document.depth_list_le] at fits ⊢
      simp only [List.forall_mem_map] at fits ⊢
      rw [tree, Document.trees_eq_map, list, mapM_eq_some_iff, List.map_map,
        List.forall₂_map_left_iff, List.forall₂_same, ← forall₂_and]
      exact forall₂_congr fun value member =>
        reads inner (Nat.lt_succ_self inner) value member ahead fun known => fits known value member

theorem usableMembers?_memberTrees (members : List (String × Document)) :
    usableMembers? (memberTrees members) =
      some (members.map fun member => (member.1, member.2.tree)) := by
  induction members with
  | nil => rfl
  | cons member rest ih => rw [memberTrees, usableMembers?, ih, Option.map_some, List.map_cons]

/-- The decoded entries of a table keep their names, so they are the table. -/
theorem mapM_ofList_eq_some_iff (f : Json → Option α) (write : α → Json) (values : Bindings α) :
    ((values.entries.map fun entry => (entry.1, write entry.2)).mapM fun entry =>
        (f entry.2).map (entry.1, ·)).map Bindings.ofList = some values ↔
      ∀ entry ∈ values.entries, f (write entry.2) = some entry.2 := by
  simp only [Option.map_eq_some_iff, mapM_eq_some_iff, List.forall₂_map_left_iff]
  constructor
  · rintro ⟨pairs, decoded, made⟩
    have names_eq : pairs.map Prod.fst = values.entries.map Prod.fst := by
      rw [eq_comm, ← List.forall₂_eq_eq_eq, List.forall₂_map_left_iff, List.forall₂_map_right_iff]
      refine decoded.imp fun entry pair decoded_entry => ?_
      obtain ⟨value, -, same⟩ := decoded_entry
      rw [← same]
    have pairs_eq : pairs = values.entries := by
      rw [← made, Bindings.entries_ofList]
      rw [names_eq]
      exact values.distinct
    rw [pairs_eq, List.forall₂_same] at decoded
    intro entry member
    obtain ⟨value, found, same⟩ := decoded entry member
    rw [found, ← same]
  · intro decoded
    refine ⟨values.entries, ?_, Bindings.ext (Bindings.entries_ofList values.distinct)⟩
    rw [List.forall₂_same]
    exact fun entry member => ⟨entry.2, decoded entry member, rfl⟩

theorem table_reads (values : Bindings α) {decode : Decoder α} {write : α → Document}
    {faithful : α → Prop}
    (reads : ∀ inner < nesting, ∀ value, Reads decode inner (write value) value (faithful value)) :
    Reads (table decode) nesting (.table write values) values
      (∀ entry ∈ values.entries, faithful entry.2) := by
  intro ahead fits
  rw [Document.table] at fits ⊢
  cases nesting with
  | zero => simp [table, depth]
  | succ inner =>
      rw [Document.depth_object_le] at fits ⊢
      simp only [List.forall_mem_map] at fits ⊢
      have entries_eq : (values.entries.map fun entry => (entry.1, write entry.2)).map
          (fun member => (member.1, member.2.tree)) =
          values.entries.map fun entry => (entry.1, (write entry.2).tree) := by
        rw [List.map_map]
        rfl
      have made := mapM_ofList_eq_some_iff (decode ahead inner) (fun value => (write value).tree)
        values
      rw [← entries_eq, Option.map_eq_bind] at made
      rw [tree, table, usableMembers?_memberTrees, ← forall₂_and]
      refine made.trans (forall₂_congr fun entry member => ?_)
      exact reads inner (Nat.lt_succ_self inner) entry.2 ahead fun known =>
        fits known entry member

/-! ## Members -/

/-- The values of some members nest no deeper than a bound. -/
def Fit (members : List (String × Document)) (bound : ℕ) : Prop :=
  ∀ member ∈ members, member.2.depth ≤ bound

@[simp]
theorem fit_nil {bound : ℕ} : Fit [] bound := fun _ found => (nomatch found)

@[simp]
theorem fit_cons {name : String} {document : Document} {rest : List (String × Document)}
    {bound : ℕ} : Fit ((name, document) :: rest) bound ↔ document.depth ≤ bound ∧ Fit rest bound :=
  List.forall_mem_cons

@[simp]
theorem fit_append {early late : List (String × Document)} {bound : ℕ} :
    Fit (early ++ late) bound ↔ Fit early bound ∧ Fit late bound :=
  List.forall_mem_append

@[simp]
theorem fit_present {field : String} {value : Option Document} {bound : ℕ} :
    Fit (Document.present field value) bound ↔
      ∀ document, value = some document → document.depth ≤ bound := by
  cases value <;> simp [Document.present]

@[simp]
theorem find?_present (name field : String) (value : Option Document) :
    Bindings.find? name (Document.present field value) = if field = name then value else none := by
  cases value with
  | none => simp [Document.present, Bindings.find?]
  | some document => rfl

theorem map_fst_present_sublist (field : String) (value : Option Document) :
    ((Document.present field value).map Prod.fst).Sublist [field] := by
  cases value <;> simp [Document.present]

theorem present_append_sublist {field : String} {value : Option Document}
    {members : List (String × Document)} {names : List String}
    (known : (members.map Prod.fst).Sublist names) :
    ((Document.present field value ++ members).map Prod.fst).Sublist (field :: names) := by
  rw [List.map_append]
  exact (map_fst_present_sublist field value).append known

/-- A document that is left out under a condition. -/
def omitIf (leftOut : Bool) (document : Document) : Option Document :=
  if leftOut then none else some document

@[simp]
theorem forall_omitIf {leftOut : Bool} {document : Document} {p : Document → Prop} :
    (∀ written, omitIf leftOut document = some written → p written) ↔
      (leftOut = false → p document) := by
  cases leftOut <;> simp [omitIf]

theorem ite_eq_present (leftOut : Bool) (field : String) (document : Document) :
    (if leftOut then [] else [(field, document)]) =
      Document.present field (omitIf leftOut document) := by
  cases leftOut <;> rfl

/-! ## Records -/

/-- The fields of a record that was written. -/
def Fields.ofMembers (members : List (String × Document)) (ahead : Bool) (nesting : ℕ) : Fields :=
  ⟨members.map fun member => (member.1, member.2.tree), ahead, nesting⟩

theorem filter_contains_eq_self {names : List String} {members : List (String × Json)}
    (known : (members.map Prod.fst).Sublist names) :
    (members.filter fun member => names.contains member.1) = members := by
  rw [List.filter_eq_self]
  intro member found
  exact List.contains_iff_mem.mpr (known.subset (List.mem_map_of_mem found))

/-- A record whose members are some of the fields, in order, is put together from them. -/
theorem record_reads {names : List String} (distinct : names.Nodup) {build : Fields → Option α}
    {members : List (String × Document)} (known : (members.map Prod.fst).Sublist names) {value : α}
    {faithful : Prop}
    (built : ∀ inner < nesting, ∀ ahead,
      (ahead = true → Fit members inner) →
      (build (.ofMembers members ahead inner) = some value ↔
        faithful ∧ Fit members inner)) :
    Reads (record names build) nesting (.object members) value faithful := by
  intro ahead fits
  cases nesting with
  | zero => simp [record, depth]
  | succ inner =>
      have names_eq : (members.map fun member => (member.1, member.2.tree)).map Prod.fst =
          members.map Prod.fst := by
        rw [List.map_map]
        rfl
      have kept := filter_contains_eq_self (names_eq.symm ▸ known)
      rw [Document.depth_object_le] at fits ⊢
      rw [tree, record, usableMembers?_memberTrees]
      simp only [Option.bind_eq_bind, Option.bind_some, presentFields?]
      rw [kept, names_eq, if_pos (distinct.sublist known), Option.bind_some]
      exact built inner (Nat.lt_succ_self inner) ahead fits

section Fields

variable {members : List (String × Document)} {ahead : Bool}

theorem find?_trees (name : String) (members : List (String × Document)) :
    Bindings.find? name (members.map fun member => (member.1, member.2.tree)) =
      (Bindings.find? name members).map tree :=
  Bindings.find?_map_entries (fun _ => tree) name members

theorem required_reads (name : String) {decode : Decoder α} {document : Document} {value : α}
    {faithful : Prop} (found : Bindings.find? name members = some document)
    (reads : Reads decode nesting document value faithful)
    (fits : ahead = true → Fit members nesting) :
    (Fields.ofMembers members ahead nesting).required name decode = some value ↔
      faithful ∧ document.depth ≤ nesting := by
  rw [Fields.required, Fields.ofMembers, find?_trees, found, Option.map_some]
  exact reads ahead fun known => fits known _ (Bindings.mem_of_find? found)

theorem optional_reads (name : String) (absent : α) {decode : Decoder α} {document : Document}
    {value : α} {faithful : Prop} (found : Bindings.find? name members = some document)
    (reads : Reads decode nesting document value faithful)
    (fits : ahead = true → Fit members nesting) :
    (Fields.ofMembers members ahead nesting).optional name absent decode = some value ↔
      faithful ∧ document.depth ≤ nesting := by
  rw [Fields.optional, Fields.ofMembers, find?_trees, found, Option.map_some]
  exact reads ahead fun known => fits known _ (Bindings.mem_of_find? found)

/-- A field that is not written has the value that stands for it. -/
theorem absent_reads (name : String) (absent : α) {decode : Decoder α} {value : α}
    (missing : Bindings.find? name members = none) :
    (Fields.ofMembers members ahead nesting).optional name absent decode = some value ↔
      absent = value := by
  rw [Fields.optional, Fields.ofMembers, find?_trees, missing, Option.map_none, Option.some.injEq]

/-- A value that is written only where there is one.  Its own decoder must not take `null` for a
value, since `null` stands for none. -/
theorem present_reads (name : String) (value : Option α) {decode : Decoder α}
    {write : α → Document} {faithful : α → Prop}
    (found : Bindings.find? name members = value.map write)
    (reads : ∀ held, Reads decode nesting (write held) held (faithful held))
    (notNull : ∀ ahead, decode ahead nesting .null = none)
    (fits : ahead = true → Fit members nesting) :
    (Fields.ofMembers members ahead nesting).optional name none (nullable decode) = some value ↔
      (∀ held, value = some held → faithful held) ∧
        ∀ held, value = some held → (write held).depth ≤ nesting := by
  rw [Fields.optional, Fields.ofMembers, find?_trees, found]
  cases value with
  | none => simp
  | some held =>
      have read := nullable_reads (some held) reads notNull ahead fun known =>
        fits known _ (Bindings.mem_of_find? found)
      simpa using read

/-- A value that is left out where it is the one that stands for an absent field. -/
theorem omitted_reads (name : String) {absent value : α} {leftOut : Bool} {decode : Decoder α}
    {document : Document} {faithful : Prop}
    (found : Bindings.find? name members = omitIf leftOut document)
    (same : leftOut = true → value = absent ∧ faithful)
    (reads : Reads decode nesting document value faithful)
    (fits : ahead = true → Fit members nesting) :
    (Fields.ofMembers members ahead nesting).optional name absent decode = some value ↔
      faithful ∧ (leftOut = false → document.depth ≤ nesting) := by
  cases leftOut with
  | true =>
      obtain ⟨rfl, holds⟩ := same rfl
      rw [Fields.optional, Fields.ofMembers, find?_trees, found]
      simp [omitIf, holds]
  | false =>
      rw [optional_reads name absent found reads fits]
      simp

/-- A list that is written only where it has items. -/
theorem nonempty_reads (name : String) (values : List α) {decode : Decoder α}
    {write : α → Document} {faithful : α → Prop}
    (found : Bindings.find? name members = omitIf values.isEmpty (.list (values.map write)))
    (reads : Reads (list decode) nesting (.list (values.map write)) values
      (∀ value ∈ values, faithful value))
    (fits : ahead = true → Fit members nesting) :
    (Fields.ofMembers members ahead nesting).optional name [] (list decode) = some values ↔
      (∀ value ∈ values, faithful value) ∧
        (values.isEmpty = false → (Document.list (values.map write)).depth ≤ nesting) :=
  omitted_reads name found
    (fun none => by simp [List.isEmpty_iff.mp none]) reads fits

/-- A table that is written only where it has entries. -/
theorem nonempty_table_reads (name : String) (values : Bindings α) {decode : Decoder α}
    {write : α → Document} {faithful : α → Prop}
    (found : Bindings.find? name members = omitIf values.isEmpty (.table write values))
    (reads : Reads (table decode) nesting (.table write values) values
      (∀ entry ∈ values.entries, faithful entry.2))
    (fits : ahead = true → Fit members nesting) :
    (Fields.ofMembers members ahead nesting).optional name .empty (table decode) = some values ↔
      (∀ entry ∈ values.entries, faithful entry.2) ∧
        (values.isEmpty = false → (Document.table write values).depth ≤ nesting) := by
  refine omitted_reads name found (fun none => ?_) reads fits
  have entries_eq : values.entries = [] := List.isEmpty_iff.mp none
  exact ⟨Bindings.ext entries_eq, by simp [entries_eq]⟩

end Fields

/-! ## Values that are read ahead -/

/-- The decoder yields `value` from a fitting document that has been read ahead exactly where the
value is faithful. -/
def ReadsAhead (decode : Decoder α) (nesting : ℕ) (document : Document) (value : α)
    (faithful : Prop) : Prop :=
  document.depth ≤ nesting → (decode true nesting document.tree = some value ↔ faithful)

theorem Reads.ahead {decode : Decoder α} {document : Document} {value : α} {faithful : Prop}
    (reads : Reads decode nesting document value faithful) :
    ReadsAhead decode nesting document value faithful := fun fit => by
  rw [reads true fun _ => fit, and_iff_left fit]

theorem unit_reads (value : α) : ReadsAhead (unit value) nesting (.object []) value True := by
  simp [ReadsAhead, unit, tree]

/-- Reading ahead finds out whether a document fits. -/
theorem ahead_or_sound {document : Document} {ahead : Bool}
    (fits : ahead = true → document.depth ≤ nesting) :
    (ahead || document.tree.sound nesting) = true ↔ document.depth ≤ nesting := by
  rw [Bool.or_eq_true, Document.sound_tree]
  exact ⟨fun known => known.elim fits id, .inr⟩

theorem readAhead_reads {decode : ℕ → Json → Option α} {document : Document} {value : α}
    {faithful : Prop} (reads : decode nesting document.tree = some value ↔ faithful) :
    Reads (readAhead decode) nesting document value faithful := by
  intro ahead fits
  rw [readAhead, ← reads]
  split
  · next fit => rw [and_iff_left ((ahead_or_sound fits).mp fit)]
  · next unfit => simp [mt (ahead_or_sound fits).mpr unfit]

theorem splitTag?_tree {key tag : String} {members : List (String × Document)}
    (unrepeated : ∀ member ∈ members, member.1 ≠ key) :
    splitTag? key (Document.object ((key, .text tag) :: members)).tree =
      some (.string (some tag), (Document.object members).tree) := by
  have different : ∀ member ∈ memberTrees members, member.1 ≠ some key := by
    rw [Document.memberTrees_eq_map, List.forall_mem_map]
    exact fun member found same => unrepeated member found (Option.some.inj same)
  have others : (memberTrees members).filter (fun member => decide (member.1 = some key)) = [] := by
    rw [List.filter_eq_nil_iff]
    exact fun member found => by simpa using different member found
  have kept : (memberTrees members).filter (fun member => decide (member.1 ≠ some key)) =
      memberTrees members := by
    rw [List.filter_eq_self]
    exact fun member found => decide_eq_true (different member found)
  rw [tree, memberTrees, splitTag?, List.filter_cons_of_pos (by simp), others]
  dsimp only
  rw [List.filter_cons_of_neg (by simp), kept]
  rfl

/-- A tagged object is read by the variant of its tag. -/
theorem tagged_reads {key tag : String} {variants : List (String × Decoder α)}
    {decode : Decoder α} {members : List (String × Document)} {value : α} {faithful : Prop}
    (selected : Bindings.find? tag variants = some decode)
    (unrepeated : ∀ member ∈ members, member.1 ≠ key)
    (reads : ReadsAhead decode nesting (.object members) value faithful) :
    Reads (tagged key variants) nesting (.object ((key, .text tag) :: members)) value faithful := by
  have same_depth : (Document.object ((key, .text tag) :: members)).depth =
      (Document.object members).depth := by
    simp [depth, Document.depthOfMembers]
  intro ahead fits
  have fit_iff := ahead_or_sound fits
  rw [tagged, splitTag?_tree unrepeated]
  split
  · next fit =>
    rw [fit_iff] at fit
    rw [and_iff_left fit]
    simp only [select?, selected]
    exact reads (same_depth ▸ fit)
  · next unfit => simp [mt fit_iff.mpr unfit]

/-- A tagged object is put together from the fields of the variant of its tag. -/
theorem tagged_record_reads {key tag : String} {variants : List (String × Decoder α)}
    {names : List String} {build : Fields → Option α} {members : List (String × Document)}
    {value : α} {faithful : Prop}
    (selected : Bindings.find? tag variants = some (record names build))
    (distinct : (key :: names).Nodup) (known : (members.map Prod.fst).Sublist names)
    (built : ∀ inner < nesting, ∀ ahead,
      (ahead = true → Fit members inner) →
      (build (.ofMembers members ahead inner) = some value ↔
        faithful ∧ Fit members inner)) :
    Reads (tagged key variants) nesting (.object ((key, .text tag) :: members)) value faithful := by
  rw [List.nodup_cons] at distinct
  refine tagged_reads selected (fun member found same => distinct.1 ?_)
    (record_reads distinct.2 known built).ahead
  rw [← same]
  exact known.subset (List.mem_map_of_mem found)

/-- A decoder that calls itself on the values inside, up to a depth, reads what one of its variants
reads.  It is given no more containers than its depth, so the depth is never used up early. -/
theorem within_reads {key tag : String} {variants : Decoder α → List (String × Decoder α)}
    {within : ℕ → Decoder α} (zero : within 0 = fun _ _ _ => none)
    (succ : ∀ depth, within (depth + 1) = tagged key (variants (within depth)))
    {members : List (String × Document)} {value : α} {faithful : Prop}
    (reads : ∀ depth nesting, nesting ≤ depth + 1 →
      Reads (tagged key (variants (within depth))) nesting (.object ((key, .text tag) :: members))
        value faithful)
    {limit : ℕ} (enough : nesting ≤ limit) :
    Reads (within limit) nesting (.object ((key, .text tag) :: members)) value faithful := by
  cases limit with
  | zero =>
      intro ahead _
      rw [zero, Nat.le_zero.mp enough]
      simp [depth]
  | succ limit =>
      rw [succ]
      exact reads limit nesting enough

end Decoder

/-- A text that was written, in either style, is decoded as its document is read. -/
theorem decode_render_eq_some_iff {α : Type} {decode : Decoder α} {document : Document} {value : α}
    {faithful : Prop} (reads : Decoder.Reads decode nestingLimit document value faithful)
    (style : Document.Style) :
    (read? (document.render style)).bind (decodeTree? decode) = some value ↔
      faithful ∧ document.depth ≤ nestingLimit := by
  rw [Document.read?_render, Option.bind_some]
  exact reads false fun known => (nomatch known)

end Json

end EconModel
