import EconModel.Proofs.Bindings
import EconModel.State

/-!
# States that are open or closed at a timestep

Between two timesteps every series of a state has one value for each committed timestep; while a
timestep is open it has one more.  Opening, writing and committing keep this, and each of them is
described by what it does to `SimulationState.valueAt?`.  Any number of writes changes open slots
only, which is what `SimulationState.Overwrites` says.
-/

namespace EconModel

namespace SimulationState

/-- No timestep is open, and the series hold the timesteps before `timestep`. -/
structure ClosedAt (state : SimulationState) (timestep : Nat) : Prop where
  isOpen_eq : state.isOpen = false
  /-- The timesteps before `timestep` are committed. -/
  committed_eq : state.committed = timestep
  /-- Every series has a value for each of them. -/
  size_eq : ∀ {name : String} {values : Array Value},
    state.series.get? name = some values → values.size = timestep

/-- The timestep `timestep` is open, and the series have a slot for it. -/
structure OpenAt (state : SimulationState) (timestep : Nat) : Prop where
  isOpen_eq : state.isOpen = true
  /-- It is the one after the committed ones. -/
  committed_eq : state.committed = timestep
  /-- Every series has a slot for it. -/
  size_eq : ∀ {name : String} {values : Array Value},
    state.series.get? name = some values → values.size = timestep + 1

theorem hasVariable_iff (state : SimulationState) (name : String) :
    state.hasVariable name = true ↔ name ∈ state.series.names :=
  Bindings.contains_iff_mem_names state.series name

theorem hasVariable_of_valueAt? {state : SimulationState} {name : String} {timestep : Nat}
    {value : Value} (found : state.valueAt? name timestep = some value) :
    state.hasVariable name = true := by
  rw [hasVariable_iff]
  obtain ⟨values, found_values, _⟩ := Option.bind_eq_some_iff.mp found
  exact Bindings.mem_names_of_get? found_values

theorem names_initial {names : List String} (distinct : names.Nodup) :
    (initial names).series.names = names := by
  have pairs_names : (names.map fun name => (name, (#[] : Array Value))).map Prod.fst = names := by
    simp [Function.comp_def]
  rw [initial, Bindings.names_ofList (pairs_names.symm ▸ distinct), pairs_names]

theorem closedAt_initial (names : List String) : (initial names).ClosedAt 0 where
  isOpen_eq := rfl
  committed_eq := rfl
  size_eq := by
    intro name values found
    obtain ⟨_, _, pair_eq⟩ := List.mem_map.mp (Bindings.mem_of_get?_ofList found)
    cases pair_eq
    rfl

/-! ## Opening -/

@[simp]
theorem names_openNext (state : SimulationState) (seed : String → Option Value → Value) :
    (state.openNext seed).series.names = state.series.names :=
  Bindings.names_map _ _

theorem openAt_openNext {state : SimulationState} {timestep : Nat}
    (closed : state.ClosedAt timestep) (seed : String → Option Value → Value) :
    (state.openNext seed).OpenAt timestep where
  isOpen_eq := rfl
  committed_eq := closed.committed_eq
  size_eq := by
    intro name values found
    rw [openNext, Bindings.get?_map] at found
    obtain ⟨before, found_before, values_eq⟩ := Option.map_eq_some_iff.mp found
    rw [← values_eq, Array.size_push, closed.size_eq found_before]

theorem valueAt?_openNext {state : SimulationState} {timestep : Nat}
    (closed : state.ClosedAt timestep) (seed : String → Option Value → Value) (name : String)
    (index : Nat) :
    (state.openNext seed).valueAt? name index =
      if index = timestep then
        (state.series.get? name).map fun values => seed name values.back?
      else state.valueAt? name index := by
  rw [valueAt?, valueAt?, openNext, Bindings.get?_map]
  cases found : state.series.get? name with
  | none => simp
  | some values =>
      have size_eq := closed.size_eq found
      by_cases here : index = timestep
      · simp [here, ← size_eq]
      · have elsewhere : ¬ index = values.size := by omega
        simp [Array.getElem?_push, here, elsewhere]

/-! ## Writing -/

theorem setCurrent_eq_ok_iff {state next : SimulationState} {name : String} {value : Value} :
    state.setCurrent name value = .ok next ↔
      ∃ values, state.series.get? name = some values ∧ state.isOpen = true ∧
        next = { state with series := state.series.insert name (overwriteLast values value) } := by
  unfold setCurrent
  cases found : state.series.get? name with
  | none => simp
  | some values =>
      cases state.isOpen with
      | false => simp
      | true => simp [eq_comm]

/-- A variable can be written while a timestep is open. -/
theorem exists_setCurrent {state : SimulationState} {timestep : Nat}
    (opened : state.OpenAt timestep) {name : String} (declared : name ∈ state.series.names)
    (value : Value) :
    ∃ next, state.setCurrent name value = .ok next := by
  obtain ⟨values, found⟩ := (Bindings.mem_names_iff state.series name).mp declared
  exact ⟨_, setCurrent_eq_ok_iff.mpr ⟨values, found, opened.isOpen_eq, rfl⟩⟩

theorem size_overwriteLast (values : Array Value) (value : Value) :
    (overwriteLast values value).size = values.size := by
  unfold overwriteLast
  split
  · rfl
  · next nonempty =>
      have positive : values.size ≠ 0 := by simpa [Array.isEmpty_iff_size_eq_zero] using nonempty
      rw [Array.size_push, Array.size_pop]
      omega

theorem getElem?_overwriteLast {values : Array Value} {timestep : Nat}
    (size_eq : values.size = timestep + 1) (value : Value) (index : Nat) :
    (overwriteLast values value)[index]? =
      if index = timestep then some value else values[index]? := by
  have nonempty : ¬ values.isEmpty = true := by
    rw [Array.isEmpty_iff_size_eq_zero, size_eq]
    omega
  rw [overwriteLast, if_neg nonempty, Array.getElem?_push]
  have popped : values.pop.size = timestep := by rw [Array.size_pop, size_eq, Nat.add_sub_cancel]
  rw [popped]
  split
  · rfl
  · next elsewhere =>
      rw [Array.getElem?_pop]
      split
      · rfl
      · rw [Array.getElem?_eq_none (by omega)]

section Write

variable {state next : SimulationState} {name : String} {value : Value} {timestep : Nat}

theorem mem_names_of_setCurrent (written : state.setCurrent name value = .ok next) :
    name ∈ state.series.names := by
  obtain ⟨values, found, _, _⟩ := setCurrent_eq_ok_iff.mp written
  exact Bindings.mem_names_of_get? found

theorem names_setCurrent (written : state.setCurrent name value = .ok next) :
    next.series.names = state.series.names := by
  have declared := mem_names_of_setCurrent written
  obtain ⟨values, _, _, rfl⟩ := setCurrent_eq_ok_iff.mp written
  rw [Bindings.names_insert, if_pos declared]

theorem openAt_setCurrent (opened : state.OpenAt timestep)
    (written : state.setCurrent name value = .ok next) : next.OpenAt timestep := by
  obtain ⟨values, found, _, rfl⟩ := setCurrent_eq_ok_iff.mp written
  refine ⟨opened.isOpen_eq, opened.committed_eq, ?_⟩
  intro other others found_others
  rw [Bindings.get?_insert] at found_others
  split at found_others
  · cases found_others
    rw [size_overwriteLast, opened.size_eq found]
  · exact opened.size_eq found_others

/-- A write changes the open slot of its variable and nothing else. -/
theorem valueAt?_setCurrent (opened : state.OpenAt timestep)
    (written : state.setCurrent name value = .ok next) (other : String) (index : Nat) :
    next.valueAt? other index =
      if name = other ∧ index = timestep then some value else state.valueAt? other index := by
  obtain ⟨values, found, _, rfl⟩ := setCurrent_eq_ok_iff.mp written
  rw [valueAt?, valueAt?, Bindings.get?_insert]
  by_cases same : name = other
  · subst same
    have slot := getElem?_overwriteLast (opened.size_eq found) value index
    simp [found, slot]
  · simp [same]

end Write

/-! ## States with other open slots -/

/-- A state differs from another one in the slots of a timestep at most. -/
structure Overwrites (before after : SimulationState) (timestep : Nat) : Prop where
  /-- Both are open or both are closed. -/
  isOpen_eq : after.isOpen = before.isOpen
  committed_eq : after.committed = before.committed
  names_eq : after.series.names = before.series.names
  /-- The series are as long as before. -/
  size_eq : ∀ name,
    (after.series.get? name).map Array.size = (before.series.get? name).map Array.size
  /-- The other values are the same. -/
  valueAt?_eq : ∀ name {index : Nat}, index ≠ timestep →
    after.valueAt? name index = before.valueAt? name index

namespace Overwrites

variable {first second third : SimulationState} {timestep : Nat}

theorem refl (state : SimulationState) (timestep : Nat) : Overwrites state state timestep :=
  ⟨rfl, rfl, rfl, fun _ => rfl, fun _ _ _ => rfl⟩

theorem trans (left : Overwrites first second timestep) (right : Overwrites second third timestep) :
    Overwrites first third timestep where
  isOpen_eq := right.isOpen_eq.trans left.isOpen_eq
  committed_eq := right.committed_eq.trans left.committed_eq
  names_eq := right.names_eq.trans left.names_eq
  size_eq name := (right.size_eq name).trans (left.size_eq name)
  valueAt?_eq name _ elsewhere :=
    (right.valueAt?_eq name elsewhere).trans (left.valueAt?_eq name elsewhere)

theorem of_setCurrent {name : String} {value : Value} (opened : first.OpenAt timestep)
    (written : first.setCurrent name value = .ok second) : Overwrites first second timestep where
  isOpen_eq := (openAt_setCurrent opened written).isOpen_eq.trans opened.isOpen_eq.symm
  committed_eq := (openAt_setCurrent opened written).committed_eq.trans opened.committed_eq.symm
  names_eq := names_setCurrent written
  size_eq other := by
    obtain ⟨values, found, _, rfl⟩ := setCurrent_eq_ok_iff.mp written
    rw [Bindings.get?_insert]
    split
    · next same =>
        subst same
        rw [found, Option.map_some, Option.map_some, size_overwriteLast]
    · rfl
  valueAt?_eq other index elsewhere := by
    rw [valueAt?_setCurrent opened written, if_neg fun here => elsewhere here.2]

theorem openAt (overwrites : Overwrites first second timestep) (opened : first.OpenAt timestep) :
    second.OpenAt timestep where
  isOpen_eq := overwrites.isOpen_eq.trans opened.isOpen_eq
  committed_eq := overwrites.committed_eq.trans opened.committed_eq
  size_eq := by
    intro name values found
    have size_eq := overwrites.size_eq name
    rw [found, Option.map_some] at size_eq
    obtain ⟨values', found', size_eq'⟩ := Option.map_eq_some_iff.mp size_eq.symm
    rw [← size_eq', opened.size_eq found']

end Overwrites

/-- Series with the same variables and the same values read alike. -/
theorem sameMap_of_valueAt? {left right : SimulationState}
    (names_iff : ∀ name, name ∈ left.series.names ↔ name ∈ right.series.names)
    (valueAt?_eq : ∀ name index, left.valueAt? name index = right.valueAt? name index) :
    left.series.SameMap right.series := by
  intro name
  cases found : left.series.get? name with
  | none =>
      have absent := (Bindings.get?_eq_none_iff _ _).mp found
      rw [names_iff] at absent
      exact ((Bindings.get?_eq_none_iff _ _).mpr absent).symm
  | some values =>
      have present := (names_iff name).mp (Bindings.mem_names_of_get? found)
      obtain ⟨values', found'⟩ := (Bindings.mem_names_iff _ _).mp present
      have values_eq : values = values' := by
        apply Array.ext_getElem?
        intro index
        simpa [valueAt?, found, found'] using valueAt?_eq name index
      rw [found', values_eq]

/-! ## Committing -/

theorem closedAt_commit {state : SimulationState} {timestep : Nat}
    (opened : state.OpenAt timestep) : state.commit.ClosedAt (timestep + 1) where
  isOpen_eq := rfl
  committed_eq := by rw [commit, opened.committed_eq]
  size_eq := fun found => opened.size_eq found

@[simp]
theorem valueAt?_commit (state : SimulationState) (name : String) (timestep : Nat) :
    state.commit.valueAt? name timestep = state.valueAt? name timestep := rfl

@[simp]
theorem names_commit (state : SimulationState) : state.commit.series.names = state.series.names :=
  rfl

theorem current?_of_openAt {state : SimulationState} {timestep : Nat}
    (opened : state.OpenAt timestep) (name : String) :
    state.current? name = state.valueAt? name timestep := by
  rw [current?, if_pos opened.isOpen_eq, valueAt?]
  cases found : state.series.get? name with
  | none => rfl
  | some values =>
      rw [Option.bind_some, Option.bind_some, Array.back?_eq_getElem?, opened.size_eq found,
        Nat.add_sub_cancel]

/-- The committed series of a closed state hold the values of every committed timestep. -/
theorem get?_committedSeries {state : SimulationState} {timestep : Nat}
    (closed : state.ClosedAt timestep) (name : String) :
    state.committedSeries.get? name = (state.series.get? name).map Array.toList := by
  rw [committedSeries, Bindings.get?_map, closed.isOpen_eq]
  rfl

theorem getElem?_committedSeries {state : SimulationState} {timestep : Nat}
    (closed : state.ClosedAt timestep) (name : String) (index : Nat) :
    (state.committedSeries.get? name).bind (·[index]?) = state.valueAt? name index := by
  rw [get?_committedSeries closed, valueAt?]
  cases state.series.get? name with
  | none => rfl
  | some values => simp

theorem lt_of_valueAt? {state : SimulationState} {timestep : Nat} (closed : state.ClosedAt timestep)
    {name : String} {index : Nat} {value : Value} (found : state.valueAt? name index = some value) :
    index < timestep := by
  obtain ⟨values, found_values, found_value⟩ := Option.bind_eq_some_iff.mp found
  rw [← closed.size_eq found_values]
  exact (Array.getElem?_eq_some_iff.mp found_value).1

/-- The last value of a series between two timesteps. -/
theorem back?_eq_valueAt? {state : SimulationState} {timestep : Nat}
    (closed : state.ClosedAt (timestep + 1)) {name : String} {values : Array Value}
    (found : state.series.get? name = some values) :
    values.back? = state.valueAt? name timestep := by
  rw [valueAt?, found, Option.bind_some, Array.back?_eq_getElem?, closed.size_eq found,
    Nat.add_sub_cancel]

/-- Series that agree up to a bound and end there at the latest are the beginnings of series that go
on. -/
theorem committedSeries_eq_take {short long : SimulationState} {timestep timestep' bound : Nat}
    (closed : short.ClosedAt timestep) (closed' : long.ClosedAt timestep')
    (names_eq : short.series.names = long.series.names) (bounded : timestep ≤ bound)
    (valueAt?_eq : ∀ name index, index < bound →
      short.valueAt? name index = long.valueAt? name index) :
    short.committedSeries = long.committedSeries.map fun _ values => values.take bound := by
  apply Bindings.SameMap.eq
  · intro name
    rw [Bindings.get?_map, get?_committedSeries closed, get?_committedSeries closed']
    cases found : short.series.get? name with
    | none =>
        have absent := (Bindings.get?_eq_none_iff _ _).mp found
        rw [names_eq] at absent
        rw [(Bindings.get?_eq_none_iff _ _).mpr absent]
        rfl
    | some values =>
        have present := Bindings.mem_names_of_get? found
        rw [names_eq] at present
        obtain ⟨values', found'⟩ := (Bindings.mem_names_iff _ _).mp present
        have values_eq : values.toList = values'.toList.take bound := by
          apply List.ext_getElem?
          intro index
          have agree := valueAt?_eq name index
          rw [valueAt?, valueAt?, found, found', Option.bind_some, Option.bind_some] at agree
          have size_eq := closed.size_eq found
          rw [List.getElem?_take]
          split
          · next inside => simpa using agree inside
          · next outside =>
              rw [List.getElem?_eq_none]
              rw [Array.length_toList]
              omega
        rw [found', Option.map_some, Option.map_some, Option.map_some, values_eq]
  · rw [Bindings.names_map, committedSeries, committedSeries, Bindings.names_map,
      Bindings.names_map, names_eq]

/-! ## States that read alike -/

/-- Two states read alike. -/
structure SameSeries (left right : SimulationState) : Prop where
  isOpen_eq : left.isOpen = right.isOpen
  committed_eq : left.committed = right.committed
  series : left.series.SameMap right.series

namespace SameSeries

variable {left right : SimulationState}

theorem openNext (same : SameSeries left right) {seed seed' : String → Option Value → Value}
    (seed_eq : seed = seed') : SameSeries (left.openNext seed) (right.openNext seed') where
  isOpen_eq := rfl
  committed_eq := same.committed_eq
  series := by
    subst seed_eq
    exact same.series.map _

/-- A write fails in both states or is done in both. -/
theorem setCurrent (same : SameSeries left right) (name : String) (value : Value) :
    (∃ error, left.setCurrent name value = .error error ∧
        right.setCurrent name value = .error error) ∨
      ∃ next next', left.setCurrent name value = .ok next ∧
        right.setCurrent name value = .ok next' ∧ SameSeries next next' := by
  unfold SimulationState.setCurrent
  rw [same.series name, same.isOpen_eq, same.committed_eq]
  cases right.series.get? name with
  | none => exact .inl ⟨_, rfl, rfl⟩
  | some values =>
      cases right.isOpen with
      | false => exact .inl ⟨_, rfl, rfl⟩
      | true =>
          exact .inr ⟨_, _, rfl, rfl, rfl, rfl, same.series.insert name _⟩

theorem commit (same : SameSeries left right) : SameSeries left.commit right.commit where
  isOpen_eq := rfl
  committed_eq := congrArg Nat.succ same.committed_eq
  series := same.series

theorem committedSeries (same : SameSeries left right) :
    left.committedSeries.SameMap right.committedSeries := by
  rw [SimulationState.committedSeries, SimulationState.committedSeries, same.isOpen_eq,
    same.committed_eq]
  exact same.series.map _

end SameSeries

end SimulationState

end EconModel
