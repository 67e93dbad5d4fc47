import EconModel.Proofs.Solver.FixedPoint

/-!
# Ranks of equations

An equation is of rank one if it has a value in the context in which a resolution begins, and of
rank `k + 1` if it has one as soon as the values of the equations of rank up to `k` are kept.
`Place.layer` is that context.  Layers grow, and a context that settles at least the equations of
rank up to `k` extends the layer with their values.
-/

namespace EconModel

namespace Place

variable {place : Place} {equations rest : List Equation} {base seen full context : Context}
  {equation : Equation} {done : List Equation}

/-- Keep the values that equations have in the context `seen`. -/
def putAll (place : Place) (seen : Context) : List Equation → Context → Context
  | [], full => full
  | equation :: rest, full =>
      match (seen.evalFinite equation.expr).result with
      | .ok value => putAll place seen rest (place.put full equation.target value)
      | .error _ => putAll place seen rest full

/-- The context with the values of the equations of a rank up to `rank`. -/
def layer (place : Place) (equations : List Equation) (base : Context) : (rank : Nat) → Context
  | 0 => base
  | rank + 1 => place.putAll (place.layer equations base rank) equations base

/-- An equation is of a rank up to `rank`. -/
def RankLE (place : Place) (equations : List Equation) (base : Context) (rank : Nat)
    (equation : Equation) : Prop :=
  ∃ lower < rank, ∃ value,
    ((place.layer equations base lower).evalFinite equation.expr).result = .ok value

/-! ## Keeping several values -/

theorem Ready.tail (ready : place.Ready (equation :: rest) full) : place.Ready rest full where
  distinct := (List.nodup_cons.mp ready.distinct).2
  writable other member := ready.writable other (List.mem_cons_of_mem equation member)
  blank other member := ready.blank other (List.mem_cons_of_mem equation member)

theorem Ready.put (ready : place.Ready (equation :: rest) full) (value : Value) :
    place.Ready rest (place.put full equation.target value) where
  distinct := ready.tail.distinct
  writable other member :=
    place.writable_put value (ready.writable equation List.mem_cons_self)
      (ready.tail.writable other member)
  blank other member := by
    have different : equation.target ≠ other.target := by
      intro target_eq
      exact (List.nodup_cons.mp ready.distinct).1 (target_eq ▸ List.mem_map_of_mem member)
    rw [place.read_put value _ (ready.writable equation List.mem_cons_self), if_neg different]
    exact ready.tail.blank other member

theorem extends_putAll (ready : place.Ready rest full) (seen : Context) :
    full.Extends (place.putAll seen rest full) := by
  induction rest generalizing full with
  | nil => exact .refl full
  | cons equation rest ih =>
      rw [putAll]
      split
      · next value _ =>
        have put_extends := place.extends_put value (ready.writable equation List.mem_cons_self)
          (ready.blank equation List.mem_cons_self)
        exact put_extends.trans (ih (ready.put value))
      · exact ih ready.tail

theorem writable_putAll (ready : place.Ready rest full) (seen : Context) {name : String}
    (writable : place.Writable full name) :
    place.Writable (place.putAll seen rest full) name := by
  induction rest generalizing full with
  | nil => exact writable
  | cons equation rest ih =>
      rw [putAll]
      split
      · next value _ =>
        exact ih (ready.put value)
          (place.writable_put value (ready.writable equation List.mem_cons_self) writable)
      · exact ih ready.tail writable

theorem read_putAll_of_not_mem (ready : place.Ready rest full) (seen : Context) {name : String}
    (absent : name ∉ rest.map Equation.target) :
    place.read (place.putAll seen rest full) name = place.read full name := by
  induction rest generalizing full with
  | nil => rfl
  | cons equation rest ih =>
      obtain ⟨different, absent_rest⟩ := not_or.mp (List.mem_cons.not.mp absent)
      rw [putAll]
      split
      · next value _ =>
        rw [ih (ready.put value) absent_rest,
          place.read_put value name (ready.writable equation List.mem_cons_self),
          if_neg (Ne.symm different)]
      · exact ih ready.tail absent_rest

/-- Every value is kept. -/
theorem read_putAll (ready : place.Ready rest full) {value : Value} (member : equation ∈ rest)
    (found : (seen.evalFinite equation.expr).result = .ok value) :
    place.read (place.putAll seen rest full) equation.target = some value := by
  induction rest generalizing full with
  | nil => cases member
  | cons head rest ih =>
      rcases List.mem_cons.mp member with rfl | member
      · have absent : equation.target ∉ rest.map Equation.target :=
          (List.nodup_cons.mp ready.distinct).1
        simp only [putAll, found]
        rw [read_putAll_of_not_mem (ready.put value) seen absent,
          place.read_put value _ (ready.writable equation List.mem_cons_self), if_pos rfl]
      · rw [putAll]
        split
        · next kept _ => exact ih (ready.put kept) member
        · exact ih ready.tail member

/-- A context that has the values already extends the context with them. -/
theorem putAll_extends (ready : place.Ready rest full) (extension : full.Extends context)
    (writable : ∀ equation ∈ rest, place.Writable context equation.target)
    (kept : ∀ equation ∈ rest, ∀ value, (seen.evalFinite equation.expr).result = .ok value →
      place.read context equation.target = some value) :
    (place.putAll seen rest full).Extends context := by
  induction rest generalizing full with
  | nil => exact extension
  | cons equation rest ih =>
      have writable_rest := fun other member =>
        writable other (List.mem_cons_of_mem equation member)
      have kept_rest := fun other member => kept other (List.mem_cons_of_mem equation member)
      rw [putAll]
      split
      · next value found =>
        refine ih (ready.put value) ?_ writable_rest kept_rest
        exact place.put_extends (ready.writable equation List.mem_cons_self)
          (ready.blank equation List.mem_cons_self) extension
          (writable equation List.mem_cons_self) (kept equation List.mem_cons_self value found)
      · exact ih ready.tail extension writable_rest kept_rest

/-! ## Layers -/

theorem layer_extends_succ (ready : place.Ready equations base) (rank : Nat) :
    (place.layer equations base rank).Extends (place.layer equations base (rank + 1)) := by
  induction rank with
  | zero => exact extends_putAll ready base
  | succ rank ih =>
      refine putAll_extends ready (extends_putAll ready _) ?_ ?_
      · intro equation member
        exact writable_putAll ready _ (ready.writable equation member)
      · intro equation member value found
        have found_above := (ih.evalFinite_eq found).symm ▸ found
        exact read_putAll ready member found_above

theorem layer_extends (ready : place.Ready equations base) {lower rank : Nat}
    (le : lower ≤ rank) :
    (place.layer equations base lower).Extends (place.layer equations base rank) := by
  induction le with
  | refl => exact .refl _
  | step _ ih => exact ih.trans (layer_extends_succ ready _)

/-- An equation is of a rank up to `rank + 1` if it has a value in the layer of `rank`. -/
theorem rankLE_succ_iff (ready : place.Ready equations base) {rank : Nat} :
    place.RankLE equations base (rank + 1) equation ↔ ∃ value,
      ((place.layer equations base rank).evalFinite equation.expr).result = .ok value := by
  constructor
  · rintro ⟨lower, below, value, found⟩
    have extension := layer_extends ready (Nat.le_of_lt_succ below)
    exact ⟨value, (extension.evalFinite_eq found).symm ▸ found⟩
  · rintro ⟨value, found⟩
    exact ⟨rank, Nat.lt_succ_self rank, value, found⟩

/-- The layer of a rank lies below every context that settles the equations up to it. -/
theorem Settles.layer_extends (settles : place.Settles equations base done context)
    (ready : place.Ready equations base) {rank : Nat}
    (resolved : ∀ equation ∈ equations, place.RankLE equations base rank equation →
      equation ∈ done) : (place.layer equations base rank).Extends context := by
  induction rank with
  | zero => exact settles.extension
  | succ rank ih =>
      have below : (place.layer equations base rank).Extends context := by
        refine ih fun equation member ranked => resolved equation member ?_
        obtain ⟨lower, lower_lt, found⟩ := ranked
        exact ⟨lower, Nat.lt_succ_of_lt lower_lt, found⟩
      refine putAll_extends ready settles.extension settles.writable ?_
      intro equation member value found
      obtain ⟨kept, found_kept, read_kept⟩ := settles.solved equation
        (resolved equation member ((rankLE_succ_iff ready).mpr ⟨value, found⟩))
      rw [below.evalFinite_eq found, found] at found_kept
      cases found_kept
      exact read_kept

end Place

end EconModel
