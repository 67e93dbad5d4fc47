/-!
# Ordered bindings

Names bound to values, kept in the order in which each name was first bound.  Binding a name again
replaces its value and leaves its position alone.  Every table of the library whose order reaches
an artifact (parameters, scalars, series, event arguments) is of this type.
-/

namespace EconModel

universe u v

/-- Values bound to distinct names, in the order of their first binding. -/
structure Bindings (α : Type u) where
  /-- The name and value pairs, first bound first. -/
  entries : List (String × α)
  /-- No name is bound twice. -/
  distinct : (entries.map Prod.fst).Nodup

namespace Bindings

variable {α : Type u} {β : Type v}

/-- The table that binds no name. -/
def empty : Bindings α := ⟨[], by simp⟩

instance : EmptyCollection (Bindings α) := ⟨empty⟩

instance : Inhabited (Bindings α) := ⟨empty⟩

@[ext]
theorem ext {left right : Bindings α} (entries_eq : left.entries = right.entries) :
    left = right := by
  cases left
  cases right
  cases entries_eq
  rfl

/-- The bound names, first bound first. -/
def names (table : Bindings α) : List String := table.entries.map Prod.fst

theorem nodup_names (table : Bindings α) : table.names.Nodup := table.distinct

/-- The number of bound names. -/
def size (table : Bindings α) : Nat := table.entries.length

/-- Whether no name is bound. -/
def isEmpty (table : Bindings α) : Bool := table.entries.isEmpty

/-- The value found under a name in a list of pairs. -/
def find? (name : String) : List (String × α) → Option α
  | [] => none
  | (key, value) :: rest => if key = name then some value else find? name rest

/-- The value bound to a name. -/
def get? (table : Bindings α) (name : String) : Option α := find? name table.entries

/-- Whether a name is bound. -/
def contains (table : Bindings α) (name : String) : Bool := table.names.contains name

/-- Put a value under a name: in place where the name occurs, else at the end. -/
def put (name : String) (value : α) : List (String × α) → List (String × α)
  | [] => [(name, value)]
  | (key, old) :: rest =>
      if key = name then (key, value) :: rest else (key, old) :: put name value rest

theorem map_fst_put (name : String) (value : α) (entries : List (String × α)) :
    (put name value entries).map Prod.fst =
      if name ∈ entries.map Prod.fst then entries.map Prod.fst
      else entries.map Prod.fst ++ [name] := by
  induction entries with
  | nil => simp [put]
  | cons entry rest ih =>
      obtain ⟨key, old⟩ := entry
      by_cases same : key = name
      · simp [put, same]
      · have different : ¬ name = key := fun equal => same equal.symm
        simp only [put, if_neg same, List.map_cons, ih, List.mem_cons, different, false_or]
        split <;> simp

/-- Bind a name to a value, replacing an earlier binding in place. -/
def insert (table : Bindings α) (name : String) (value : α) : Bindings α where
  entries := put name value table.entries
  distinct := by
    rw [map_fst_put]
    split
    · exact table.distinct
    · next absent =>
        rw [List.nodup_append]
        refine ⟨table.distinct, by simp, ?_⟩
        intro left left_mem right right_mem equal
        simp only [List.mem_singleton] at right_mem
        exact absent (right_mem ▸ equal ▸ left_mem)

/-- Bind each pair in turn; of a repeated name the first position and the last value remain. -/
def ofList (pairs : List (String × α)) : Bindings α :=
  pairs.foldl (fun table pair => table.insert pair.1 pair.2) empty

/-- Apply a function to every bound value; it also sees the name. -/
def map (f : String → α → β) (table : Bindings α) : Bindings β where
  entries := table.entries.map fun entry => (entry.1, f entry.1 entry.2)
  distinct := by
    simpa [List.map_map, Function.comp_def] using table.distinct

/-! ## Reading back -/

theorem find?_put (name other : String) (value : α) (entries : List (String × α)) :
    find? other (put name value entries) =
      if name = other then some value else find? other entries := by
  induction entries with
  | nil => simp [put, find?]
  | cons entry rest ih =>
      obtain ⟨key, old⟩ := entry
      by_cases same : key = name
      · subst same
        simp only [put, if_true, find?]
        split <;> rfl
      · by_cases target : key = other
        · subst target
          have different : ¬ name = key := fun equal => same equal.symm
          simp only [put, if_neg same, find?, if_true, if_neg different]
        · simp only [put, if_neg same, find?, if_neg target, ih]

@[simp]
theorem get?_empty (name : String) : (empty : Bindings α).get? name = none := rfl

@[simp]
theorem get?_insert (table : Bindings α) (name other : String) (value : α) :
    (table.insert name value).get? other = if name = other then some value else table.get? other :=
  find?_put name other value table.entries

@[simp]
theorem names_insert (table : Bindings α) (name : String) (value : α) :
    (table.insert name value).names =
      if name ∈ table.names then table.names else table.names ++ [name] :=
  map_fst_put name value table.entries

@[simp]
theorem names_map (f : String → α → β) (table : Bindings α) :
    (table.map f).names = table.names := by
  simp [names, map]

@[simp]
theorem find?_map_entries (f : String → α → β) (name : String) (entries : List (String × α)) :
    find? name (entries.map fun entry => (entry.1, f entry.1 entry.2)) =
      (find? name entries).map (f name) := by
  induction entries with
  | nil => rfl
  | cons entry rest ih =>
      by_cases same : entry.1 = name
      · simp [find?, same]
      · simp [find?, same, ih]

@[simp]
theorem get?_map (f : String → α → β) (table : Bindings α) (name : String) :
    (table.map f).get? name = (table.get? name).map (f name) :=
  find?_map_entries f name table.entries

theorem find?_eq_none_iff (name : String) (entries : List (String × α)) :
    find? name entries = none ↔ name ∉ entries.map Prod.fst := by
  induction entries with
  | nil => simp [find?]
  | cons entry rest ih =>
      by_cases same : entry.1 = name
      · simp [find?, same]
      · have different : ¬ name = entry.1 := fun equal => same equal.symm
        simp [find?, same, different, ih]

theorem get?_eq_none_iff (table : Bindings α) (name : String) :
    table.get? name = none ↔ name ∉ table.names :=
  find?_eq_none_iff name table.entries

end Bindings

end EconModel
