import EconModel.Proofs.State

/-!
# The history of a state

A state changes by three calls: a timestep is opened, a slot is written, a timestep is committed.
Nothing checks their order; calls are in order if a timestep is opened only while none is, and
committed only while it is open.  Then the lengths of all series follow from the number of committed
timesteps, so that "the last value" of a series is its open slot, and what is committed stays.
-/

namespace EconModel

namespace SimulationState

/-- A call that may change a state. -/
inductive Call where
  | openNext (seed : String → Option Value → Value)
  | setCurrent (name : String) (value : Value)
  | commit

/-- What a call leaves behind.  A write that fails leaves the state as it is. -/
def perform (state : SimulationState) : Call → SimulationState
  | .openNext seed => state.openNext seed
  | .setCurrent name value =>
      match state.setCurrent name value with
      | .ok next => next
      | .error _ => state
  | .commit => state.commit

/-- What some calls leave behind, one made after the other. -/
def performAll (state : SimulationState) (calls : List Call) : SimulationState :=
  calls.foldl perform state

/-- Whether a call is in order. -/
def Allows (state : SimulationState) : Call → Prop
  | .openNext _ => state.isOpen = false
  | .setCurrent _ _ => True
  | .commit => state.isOpen = true

/-- Each of some calls is in order when its turn comes. -/
def AllowsAll (state : SimulationState) : List Call → Prop
  | [] => True
  | call :: rest => state.Allows call ∧ (state.perform call).AllowsAll rest

/-- Whether open or closed, a state is so at its number of committed timesteps. -/
def Aligned (state : SimulationState) : Prop :=
  state.OpenAt state.committed ∨ state.ClosedAt state.committed

theorem Aligned.openAt {state : SimulationState} (aligned : state.Aligned)
    (isOpen : state.isOpen = true) : state.OpenAt state.committed := by
  refine aligned.resolve_right fun closed => ?_
  rw [closed.isOpen_eq] at isOpen
  cases isOpen

theorem Aligned.closedAt {state : SimulationState} (aligned : state.Aligned)
    (isClosed : state.isOpen = false) : state.ClosedAt state.committed := by
  refine aligned.resolve_left fun opened => ?_
  rw [opened.isOpen_eq] at isClosed
  cases isClosed

theorem mem_names_initial_iff (names : List String) (name : String) :
    name ∈ (initial names).series.names ↔ name ∈ names := by
  rw [initial, Bindings.mem_names_ofList_iff]
  simp

/-! ## Writes that are refused -/

theorem setCurrent_of_not_mem {state : SimulationState} {name : String}
    (undeclared : name ∉ state.series.names) (value : Value) :
    state.setCurrent name value = .error (.unknownIdentifier name) := by
  simp only [setCurrent, (Bindings.get?_eq_none_iff _ _).mpr undeclared]

theorem setCurrent_of_closed {state : SimulationState} {name : String}
    (declared : name ∈ state.series.names) (isClosed : state.isOpen = false) (value : Value) :
    state.setCurrent name value = .error (.missingDependency name state.committed) := by
  obtain ⟨values, found⟩ := (Bindings.mem_names_iff _ _).mp declared
  simp only [setCurrent, found, isClosed, Bool.false_eq_true, if_false]

theorem perform_setCurrent_of_ok {state next : SimulationState} {name : String} {value : Value}
    (written : state.setCurrent name value = .ok next) :
    state.perform (.setCurrent name value) = next := by
  simp only [perform, written]

theorem perform_setCurrent_of_error {state : SimulationState} {name : String} {value : Value}
    {error : EvalError} (refused : state.setCurrent name value = .error error) :
    state.perform (.setCurrent name value) = state := by
  simp only [perform, refused]

/-! ## One call -/

section Call

variable {state : SimulationState} {call : Call}

theorem Aligned.perform (aligned : state.Aligned) (allowed : state.Allows call) :
    (state.perform call).Aligned := by
  cases call with
  | openNext seed => exact .inl (openAt_openNext (aligned.closedAt allowed) seed)
  | commit => exact .inr (closedAt_commit (aligned.openAt allowed))
  | setCurrent name value =>
      cases attempt : state.setCurrent name value with
      | error error => rwa [perform_setCurrent_of_error attempt]
      | ok next =>
          obtain ⟨_, _, isOpen, _⟩ := setCurrent_eq_ok_iff.mp attempt
          have next_open := openAt_setCurrent (aligned.openAt isOpen) attempt
          rw [perform_setCurrent_of_ok attempt]
          exact .inl (next_open.committed_eq.symm ▸ next_open)

theorem names_perform (state : SimulationState) (call : Call) :
    (state.perform call).series.names = state.series.names := by
  cases call with
  | openNext seed => exact names_openNext state seed
  | commit => rfl
  | setCurrent name value =>
      cases attempt : state.setCurrent name value with
      | error error => rw [perform_setCurrent_of_error attempt]
      | ok next => rw [perform_setCurrent_of_ok attempt, names_setCurrent attempt]

theorem committed_le_perform (state : SimulationState) (call : Call) :
    state.committed ≤ (state.perform call).committed := by
  cases call with
  | openNext seed => exact Nat.le_refl _
  | commit => exact Nat.le_succ _
  | setCurrent name value =>
      cases attempt : state.setCurrent name value with
      | error error =>
          exact Nat.le_of_eq (congrArg committed (perform_setCurrent_of_error attempt)).symm
      | ok next =>
          obtain ⟨_, _, _, rfl⟩ := setCurrent_eq_ok_iff.mp attempt
          exact Nat.le_of_eq (congrArg committed (perform_setCurrent_of_ok attempt)).symm

/-- Opening, writing and committing leave the committed values alone. -/
theorem valueAt?_perform (aligned : state.Aligned) (allowed : state.Allows call) (name : String)
    {index : Nat} (past : index < state.committed) :
    (state.perform call).valueAt? name index = state.valueAt? name index := by
  have elsewhere : index ≠ state.committed := Nat.ne_of_lt past
  cases call with
  | openNext seed =>
      exact (valueAt?_openNext (aligned.closedAt allowed) seed name index).trans (if_neg elsewhere)
  | commit => rfl
  | setCurrent target value =>
      cases attempt : state.setCurrent target value with
      | error error => rw [perform_setCurrent_of_error attempt]
      | ok next =>
          obtain ⟨_, _, isOpen, _⟩ := setCurrent_eq_ok_iff.mp attempt
          rw [perform_setCurrent_of_ok attempt,
            valueAt?_setCurrent (aligned.openAt isOpen) attempt,
            if_neg fun here => elsewhere here.2]

end Call

/-! ## Any calls in order -/

section Calls

variable {state : SimulationState} {calls : List Call}

theorem Aligned.performAll (aligned : state.Aligned) (allowed : state.AllowsAll calls) :
    (state.performAll calls).Aligned := by
  induction calls generalizing state with
  | nil => exact aligned
  | cons call rest ih => exact ih (aligned.perform allowed.1) allowed.2

theorem names_performAll (state : SimulationState) (calls : List Call) :
    (state.performAll calls).series.names = state.series.names := by
  induction calls generalizing state with
  | nil => rfl
  | cons call rest ih => exact (ih (state.perform call)).trans (names_perform state call)

theorem valueAt?_performAll (aligned : state.Aligned) (allowed : state.AllowsAll calls)
    (name : String) {index : Nat} (past : index < state.committed) :
    (state.performAll calls).valueAt? name index = state.valueAt? name index := by
  induction calls generalizing state with
  | nil => rfl
  | cons call rest ih =>
      have still_past := Nat.lt_of_lt_of_le past (committed_le_perform state call)
      exact (ih (aligned.perform allowed.1) allowed.2 still_past).trans
        (valueAt?_perform aligned allowed.1 name past)

end Calls

/-! ## What holds at any point -/

/-- The series of a state with the given variables are its history, and only an open slot can still
be written. -/
structure KeepsHistory (state : SimulationState) (names : List String) : Prop where
  declares : ∀ name, state.hasVariable name = true ↔ name ∈ names
  /-- A series has a value for each committed timestep, and one more while a timestep is open. -/
  size_eq : ∀ name values, state.series.get? name = some values →
    values.size = if state.isOpen then state.committed + 1 else state.committed
  /-- Committed values stay, whatever calls follow. -/
  past : ∀ calls, state.AllowsAll calls → ∀ name index, index < state.committed →
    (state.performAll calls).valueAt? name index = state.valueAt? name index
  /-- A write fails where there is no such variable or no timestep is open, and changes nothing. -/
  refused : ∀ name value, name ∉ names ∨ state.isOpen = false →
    state.setCurrent name value = .error (if name ∈ names then
      .missingDependency name state.committed else .unknownIdentifier name) ∧
    state.perform (.setCurrent name value) = state
  /-- Any other write changes the open slot of its variable and nothing else. -/
  written : ∀ name value, name ∈ names → state.isOpen = true → ∃ next,
    state.setCurrent name value = .ok next ∧ state.perform (.setCurrent name value) = next ∧
    next.isOpen = true ∧ next.committed = state.committed ∧
    next.series.names = state.series.names ∧
    ∀ other index, next.valueAt? other index =
      if name = other ∧ index = state.committed then some value else state.valueAt? other index
  current?_eq : ∀ name, state.current? name =
    if state.isOpen then state.valueAt? name state.committed else none
  /-- The committed series leave out open slots, and nothing else. -/
  committedSeries_eq : state.committedSeries =
    state.series.map fun _ values => values.toList.take state.committed

theorem Aligned.size_eq {state : SimulationState} (aligned : state.Aligned) {name : String}
    {values : Array Value} (found : state.series.get? name = some values) :
    values.size = if state.isOpen then state.committed + 1 else state.committed := by
  rcases aligned with opened | closed
  · rw [opened.isOpen_eq, if_pos rfl, opened.size_eq found]
  · rw [closed.isOpen_eq, if_neg Bool.false_ne_true, closed.size_eq found]

theorem Aligned.committedSeries_eq {state : SimulationState} (aligned : state.Aligned) :
    state.committedSeries =
      state.series.map fun _ values => values.toList.take state.committed := by
  rcases aligned with opened | closed
  · rw [committedSeries, opened.isOpen_eq]
    rfl
  · apply Bindings.SameMap.eq
    · intro name
      rw [get?_committedSeries closed, Bindings.get?_map]
      cases found : state.series.get? name with
      | none => rfl
      | some values =>
          have whole : values.toList.length ≤ state.committed :=
            Nat.le_of_eq (Array.length_toList.trans (closed.size_eq found))
          rw [Option.map_some, Option.map_some, List.take_of_length_le whole]
    · rw [committedSeries, Bindings.names_map, Bindings.names_map]

/-- From the beginning on, any calls in order leave a state that keeps its history. -/
theorem keepsHistory_performAll (names : List String) (calls : List Call)
    (allowed : (initial names).AllowsAll calls) :
    ((initial names).performAll calls).KeepsHistory names := by
  have aligned : ((initial names).performAll calls).Aligned :=
    Aligned.performAll (.inr (closedAt_initial names)) allowed
  have declared_iff (name : String) :
      name ∈ ((initial names).performAll calls).series.names ↔ name ∈ names := by
    rw [names_performAll, mem_names_initial_iff]
  generalize (initial names).performAll calls = state at aligned declared_iff ⊢
  refine ⟨?_, ?_, ?_, ?_, ?_, ?_, aligned.committedSeries_eq⟩
  · exact fun name => (hasVariable_iff state name).trans (declared_iff name)
  · exact fun name values found => aligned.size_eq found
  · exact fun later allowed name index past => valueAt?_performAll aligned allowed name past
  · intro name value unwritable
    have refused : state.setCurrent name value = .error (if name ∈ names then
        .missingDependency name state.committed else .unknownIdentifier name) := by
      by_cases declared : name ∈ names
      · have isClosed := unwritable.resolve_left (not_not_intro declared)
        rw [if_pos declared,
          setCurrent_of_closed ((declared_iff name).mpr declared) isClosed]
      · rw [if_neg declared, setCurrent_of_not_mem (mt (declared_iff name).mp declared)]
    exact ⟨refused, perform_setCurrent_of_error refused⟩
  · intro name value declared isOpen
    have opened := aligned.openAt isOpen
    obtain ⟨next, written⟩ := exists_setCurrent opened ((declared_iff name).mpr declared) value
    have overwrites := Overwrites.of_setCurrent opened written
    exact ⟨next, written, perform_setCurrent_of_ok written, overwrites.isOpen_eq.trans isOpen,
      overwrites.committed_eq, overwrites.names_eq, valueAt?_setCurrent opened written⟩
  · intro name
    split
    · next isOpen => exact current?_of_openAt (aligned.openAt isOpen) name
    · next isClosed => exact if_neg isClosed

/-- One timestep is committed, and the next one starts with its value. -/
def carriedCalls : List Call :=
  [.openNext fun _ _ => .undefined, .setCurrent "cash" (.boolean true), .commit,
    .openNext fun _ previous => previous.getD .undefined]

theorem keepsHistory_carried :
    let state := (initial ["cash", "debt", "cash"]).performAll carriedCalls
    state.KeepsHistory ["cash", "debt", "cash"] ∧
      (state.performAll [.setCurrent "cash" (.boolean false), .commit]).valueAt? "cash" 0 =
        some (.boolean true) ∧
      state.setCurrent "profit" (.boolean true) = .error (.unknownIdentifier "profit") := by
  have keeps := keepsHistory_performAll ["cash", "debt", "cash"] carriedCalls
    ⟨rfl, trivial, rfl, rfl, trivial⟩
  refine ⟨keeps, ?_, (keeps.refused "profit" (.boolean true) (.inl (by decide))).1⟩
  exact keeps.past [.setCurrent "cash" (.boolean false), .commit] ⟨trivial, rfl, trivial⟩ "cash" 0
    (by decide)

end SimulationState

end EconModel
