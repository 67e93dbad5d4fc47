import EconModel.Bindings
import Mathlib.Data.List.Perm.Basic
import Mathlib.Data.List.Nodup

/-!
# Bindings as maps

A table is read through `Bindings.get?`, and two tables that read alike differ at most in the order
of their names.  This file says what a table made from a list of pairs reads, and compares tables by
what they read.
-/

namespace EconModel

namespace Bindings

variable {α β : Type}

theorem find?_eq_some_iff {entries : List (String × α)} (distinct : (entries.map Prod.fst).Nodup)
    (name : String) (value : α) : find? name entries = some value ↔ (name, value) ∈ entries := by
  induction entries with
  | nil => simp [find?]
  | cons entry rest ih =>
      obtain ⟨key, other⟩ := entry
      simp only [List.map_cons, List.nodup_cons] at distinct
      by_cases same : key = name
      · subst same
        have absent : (key, value) ∉ rest := fun present =>
          distinct.1 (List.mem_map_of_mem (f := Prod.fst) present)
        simp [find?, absent, eq_comm]
      · have different : ¬ name = key := fun equal => same equal.symm
        simp [find?, same, different, ih distinct.2]

theorem mem_of_find? {name : String} {entries : List (String × α)} {found : α}
    (found_eq : find? name entries = some found) : (name, found) ∈ entries := by
  induction entries with
  | nil => cases found_eq
  | cons entry rest ih =>
      rw [find?] at found_eq
      split at found_eq
      · next same =>
        cases found_eq
        rw [← same]
        exact List.mem_cons_self
      · exact List.mem_cons_of_mem _ (ih found_eq)

@[simp]
theorem find?_append (name : String) (early late : List (String × α)) :
    find? name (early ++ late) =
      (find? name early).or (find? name late) := by
  induction early with
  | nil => rfl
  | cons entry rest ih =>
      rw [List.cons_append, find?, find?, ih]
      split <;> rfl

theorem get?_eq_some_iff (table : Bindings α) (name : String) (value : α) :
    table.get? name = some value ↔ (name, value) ∈ table.entries :=
  find?_eq_some_iff table.distinct name value

theorem mem_names_iff (table : Bindings α) (name : String) :
    name ∈ table.names ↔ ∃ value, table.get? name = some value := by
  have absent := get?_eq_none_iff table name
  cases found : table.get? name with
  | none => simpa [found] using absent
  | some value => simpa [found] using absent

theorem mem_names_of_get? {table : Bindings α} {name : String} {value : α}
    (found : table.get? name = some value) : name ∈ table.names :=
  (mem_names_iff table name).mpr ⟨value, found⟩

theorem contains_iff_mem_names (table : Bindings α) (name : String) :
    table.contains name = true ↔ name ∈ table.names := by
  simp [contains]

theorem isEmpty_iff (table : Bindings α) : table.isEmpty = true ↔ table.names = [] := by
  simp [isEmpty, names]

/-! ## Tables made from lists -/

theorem put_of_not_mem {name : String} {entries : List (String × α)}
    (absent : name ∉ entries.map Prod.fst) (value : α) :
    put name value entries = entries ++ [(name, value)] := by
  induction entries with
  | nil => rfl
  | cons entry rest ih =>
      obtain ⟨key, old⟩ := entry
      simp only [List.map_cons, List.mem_cons, not_or] at absent
      rw [put, if_neg (Ne.symm absent.1), ih absent.2, List.cons_append]

theorem entries_foldl_insert (pairs : List (String × α)) (table : Bindings α)
    (distinct : ((table.entries ++ pairs).map Prod.fst).Nodup) :
    (pairs.foldl (fun table pair => table.insert pair.1 pair.2) table).entries =
      table.entries ++ pairs := by
  induction pairs generalizing table with
  | nil => simp
  | cons pair rest ih =>
      have absent : pair.1 ∉ table.entries.map Prod.fst := by
        simp only [List.map_append, List.map_cons, List.nodup_append] at distinct
        intro present
        exact distinct.2.2 pair.1 present pair.1 List.mem_cons_self rfl
      have inserted : (table.insert pair.1 pair.2).entries = table.entries ++ [pair] :=
        put_of_not_mem absent pair.2
      rw [List.foldl_cons, ih, inserted, List.append_assoc, List.singleton_append]
      rw [inserted, List.append_assoc, List.singleton_append]
      exact distinct

/-- A list of pairs with distinct names is kept as it is. -/
theorem entries_ofList {pairs : List (String × α)} (distinct : (pairs.map Prod.fst).Nodup) :
    (ofList pairs).entries = pairs :=
  entries_foldl_insert pairs empty distinct

theorem names_ofList {pairs : List (String × α)} (distinct : (pairs.map Prod.fst).Nodup) :
    (ofList pairs).names = pairs.map Prod.fst := by
  rw [names, entries_ofList distinct]

theorem get?_ofList_eq_some_iff {pairs : List (String × α)}
    (distinct : (pairs.map Prod.fst).Nodup) (name : String) (value : α) :
    (ofList pairs).get? name = some value ↔ (name, value) ∈ pairs := by
  rw [get?_eq_some_iff, entries_ofList distinct]

theorem mem_names_ofList_iff (pairs : List (String × α)) (name : String) :
    name ∈ (ofList pairs).names ↔ name ∈ pairs.map Prod.fst := by
  have foldl_iff (table : Bindings α) :
      name ∈ (pairs.foldl (fun table pair => table.insert pair.1 pair.2) table).names ↔
        name ∈ table.names ∨ name ∈ pairs.map Prod.fst := by
    induction pairs generalizing table with
    | nil => simp
    | cons pair rest ih =>
        rw [List.foldl_cons, ih, names_insert, List.map_cons, List.mem_cons]
        split
        · next bound => grind
        · simp [or_assoc]
  exact (foldl_iff empty).trans (or_iff_right List.not_mem_nil)

/-- A table made from a list of pairs binds nothing else. -/
theorem mem_of_get?_ofList {pairs : List (String × α)} {name : String} {value : α}
    (found : (ofList pairs).get? name = some value) : (name, value) ∈ pairs := by
  have foldl_cases (rest : List (String × α)) (table : Bindings α)
      (found_rest : (rest.foldl (fun table pair => table.insert pair.1 pair.2) table).get? name =
        some value) : table.get? name = some value ∨ (name, value) ∈ rest := by
    induction rest generalizing table with
    | nil => exact .inl found_rest
    | cons pair rest ih =>
        rcases ih _ found_rest with inserted | member
        · rw [get?_insert] at inserted
          split at inserted
          · next same =>
            cases inserted
            exact .inr (same ▸ List.mem_cons_self)
          · exact .inl inserted
        · exact .inr (List.mem_cons_of_mem _ member)
  rcases foldl_cases pairs empty found with absent | member
  · cases absent
  · exact member

theorem map_put (f : String → α → β) (name : String) (value : α) (entries : List (String × α)) :
    (put name value entries).map (fun entry => (entry.1, f entry.1 entry.2)) =
      put name (f name value) (entries.map fun entry => (entry.1, f entry.1 entry.2)) := by
  induction entries with
  | nil => rfl
  | cons entry rest ih =>
      obtain ⟨key, old⟩ := entry
      by_cases same : key = name
      · subst same
        simp [put]
      · simp [put, same, ih]

theorem map_insert (f : String → α → β) (table : Bindings α) (name : String) (value : α) :
    (table.insert name value).map f = (table.map f).insert name (f name value) :=
  Bindings.ext (map_put f name value table.entries)

theorem map_ofList (f : String → α → β) (pairs : List (String × α)) :
    (ofList pairs).map f = ofList (pairs.map fun pair => (pair.1, f pair.1 pair.2)) := by
  have foldl_map (table : Bindings α) :
      (pairs.foldl (fun table pair => table.insert pair.1 pair.2) table).map f =
        (pairs.map fun pair => (pair.1, f pair.1 pair.2)).foldl
          (fun table pair => table.insert pair.1 pair.2) (table.map f) := by
    induction pairs generalizing table with
    | nil => rfl
    | cons pair rest ih => rw [List.foldl_cons, ih, map_insert, List.map_cons, List.foldl_cons]
  exact foldl_map empty

/-! ## Tables that read alike -/

/-- Two tables read alike. -/
def SameMap (left right : Bindings α) : Prop := ∀ name, left.get? name = right.get? name

namespace SameMap

theorem refl (table : Bindings α) : SameMap table table := fun _ => rfl

theorem symm {left right : Bindings α} (same : SameMap left right) : SameMap right left :=
  fun name => (same name).symm

theorem trans {first second third : Bindings α} (left : SameMap first second)
    (right : SameMap second third) : SameMap first third :=
  fun name => (left name).trans (right name)

theorem mem_names_iff {left right : Bindings α} (same : SameMap left right) (name : String) :
    name ∈ left.names ↔ name ∈ right.names := by
  rw [Bindings.mem_names_iff, Bindings.mem_names_iff, same name]

theorem contains_eq {left right : Bindings α} (same : SameMap left right) (name : String) :
    left.contains name = right.contains name := by
  rw [Bool.eq_iff_iff, contains_iff_mem_names, contains_iff_mem_names, same.mem_names_iff]

theorem names_perm {left right : Bindings α} (same : SameMap left right) :
    left.names.Perm right.names :=
  (List.perm_ext_iff_of_nodup left.nodup_names right.nodup_names).mpr same.mem_names_iff

theorem isEmpty_eq {left right : Bindings α} (same : SameMap left right) :
    left.isEmpty = right.isEmpty := by
  rw [Bool.eq_iff_iff, isEmpty_iff, isEmpty_iff]
  constructor
  · intro empty
    exact List.nil_perm.mp (empty ▸ same.names_perm)
  · intro empty
    exact List.perm_nil.mp (empty ▸ same.names_perm)

theorem insert {left right : Bindings α} (same : SameMap left right) (name : String) (value : α) :
    SameMap (left.insert name value) (right.insert name value) := fun other => by
  rw [get?_insert, get?_insert, same other]

theorem map {left right : Bindings α} (same : SameMap left right) (f : String → α → β) :
    SameMap (left.map f) (right.map f) := fun name => by
  rw [get?_map, get?_map, same name]

end SameMap

theorem entries_eq_filterMap (table : Bindings α) :
    table.entries =
      table.names.filterMap fun name => (table.get? name).map fun value => (name, value) := by
  have found : ∀ entry ∈ table.entries,
      ((table.get? entry.1).map fun value => (entry.1, value)) = some entry := by
    intro entry member
    rw [(table.get?_eq_some_iff entry.1 entry.2).mpr member, Option.map_some]
  rw [names, List.filterMap_map]
  exact ((List.filterMap_congr found).trans (List.filterMap_some ..)).symm

/-- Tables that read alike and have their names in the same order are equal. -/
theorem SameMap.eq {left right : Bindings α} (same : SameMap left right)
    (names_eq : left.names = right.names) : left = right := by
  apply Bindings.ext
  rw [entries_eq_filterMap left, entries_eq_filterMap right, names_eq]
  exact List.filterMap_congr fun name _ => congrArg _ (same name)

/-- Lists of pairs that differ in their order only make tables that read alike. -/
theorem sameMap_ofList_of_perm {left right : List (String × α)} (perm : left.Perm right)
    (distinct : (left.map Prod.fst).Nodup) : SameMap (ofList left) (ofList right) := by
  intro name
  have distinct' : (right.map Prod.fst).Nodup := (perm.map Prod.fst).nodup_iff.mp distinct
  apply Option.ext
  intro value
  rw [get?_ofList_eq_some_iff distinct, get?_ofList_eq_some_iff distinct', perm.mem_iff]

/-! ## Parts of tables -/

/-- The bindings of the names in a list. -/
def only (names : List String) (table : Bindings α) : Bindings α where
  entries := table.entries.filter fun entry => names.contains entry.1
  distinct := table.distinct.sublist (List.filter_sublist.map Prod.fst)

theorem get?_only (names : List String) (table : Bindings α) (name : String) :
    (table.only names).get? name = if name ∈ names then table.get? name else none := by
  apply Option.ext
  intro value
  rw [get?_eq_some_iff]
  split
  · next listed => simp [only, listed, get?_eq_some_iff]
  · next unlisted => simp [only, unlisted]

end Bindings

end EconModel
