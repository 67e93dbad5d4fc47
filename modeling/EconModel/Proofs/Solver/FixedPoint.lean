import EconModel.Proofs.Evaluation.Extension
import EconModel.Proofs.Solver.Attempts

/-!
# What a resolution settles

Resolved values are kept in a place of a context: the scalars before the first timestep, the open
slots of the variables at a timestep.  Keeping one extends the context, so every value that was
computed against an unfinished context is also the value in the finished one.  A context in which
nothing more can be resolved lies below every other context that extends the same start and
satisfies the same equations, so the order of the equations does not matter.
-/

namespace EconModel

/-- A place of a context in which the values of resolved equations are kept. -/
structure Place where
  /-- The context with a value kept under a name. -/
  put : Context → String → Value → Context
  /-- What is kept under a name. -/
  read : Context → String → Option Value
  /-- What is kept under a name before its equation is resolved. -/
  blank : Option Value
  /-- Whether values can be kept under a name. -/
  Writable : Context → String → Prop
  /-- What is put is read, and nothing else changes. -/
  read_put : ∀ {context : Context} {name : String} (value : Value) (other : String),
    Writable context name →
      read (put context name value) other = if name = other then some value else read context other
  /-- Names stay writable. -/
  writable_put : ∀ {context : Context} {name other : String} (value : Value),
    Writable context name → Writable context other → Writable (put context name value) other
  /-- Putting a value under a blank name extends the context. -/
  extends_put : ∀ {context : Context} {name : String} (value : Value),
    Writable context name → read context name = blank → context.Extends (put context name value)
  /-- A context that has the value already extends the context with the value. -/
  put_extends : ∀ {context full : Context} {name : String} {value : Value},
    Writable context name → read context name = blank → context.Extends full →
      Writable full name → read full name = some value → (put context name value).Extends full
  /-- Whether two contexts differ in what is kept at most. -/
  Alike : Context → Context → Prop
  /-- A context differs in nothing from itself. -/
  alike_refl : ∀ context, Alike context context
  /-- Differences add up. -/
  alike_trans : ∀ {first second third : Context},
    Alike first second → Alike second third → Alike first third
  /-- Putting a value changes what is kept. -/
  alike_put : ∀ {context : Context} {name : String} (value : Value),
    Writable context name → Alike context (put context name value)
  /-- Contexts that read alike keep the same values. -/
  read_eq_of_sameReading : ∀ {context context' : Context}, context.SameReading context' →
    ∀ name, read context name = read context' name
  /-- Contexts that come from contexts reading alike and keep the same values read alike. -/
  sameReading : ∀ {base base' context context' : Context},
    base.SameReading base' → Alike base context → Alike base' context' →
      (∀ name, read context name = read context' name) → context.SameReading context'

namespace Place

/-! ## The two places -/

/-- The table of scalars. -/
def scalars : Place where
  put context name value :=
    { context with environment := { context.environment with
      scalars := context.environment.scalars.insert name value } }
  read context name := context.environment.scalars.get? name
  blank := none
  Writable context name := ∀ {index : Nat} {hidden : Value},
    context.state.valueAt? name index = some hidden → hidden = .undefined
  read_put value other _ := Bindings.get?_insert _ _ other value
  writable_put _ _ writable := writable
  extends_put {context name} value writable absent := by
    refine ⟨rfl, .refl _, rfl, rfl, fun found _ => found, ?_, ?_⟩
    · intro other kept found
      have different : name ≠ other := by
        rintro rfl
        rw [absent] at found
        cases found
      rw [Bindings.get?_insert, if_neg different]
      exact found
    · intro other new absent_other present index hidden found
      rw [Bindings.get?_insert] at present
      split at present
      · next same =>
        subst same
        exact writable found
      · rw [absent_other] at present
        cases present
  put_extends {context full name value} _ _ extension _ kept := by
    refine ⟨extension.timestep_eq, extension.parameters, extension.functions_eq,
      extension.zeroDivision_eq, extension.slot, ?_, ?_⟩
    · intro other new found
      rw [Bindings.get?_insert] at found
      split at found
      · next same =>
        subst same
        rw [kept, found]
      · exact extension.scalar found
    · intro other new absent present index hidden found
      rw [Bindings.get?_insert] at absent
      split at absent
      · cases absent
      · exact extension.new_scalar absent present found
  Alike left right :=
    ∃ scalars, right =
      { left with environment := { left.environment with scalars } }
  alike_refl context := ⟨context.environment.scalars, rfl⟩
  alike_trans := by
    rintro first _ _ ⟨scalars, rfl⟩ ⟨scalars', rfl⟩
    exact ⟨scalars', rfl⟩
  alike_put _ _ := ⟨_, rfl⟩
  read_eq_of_sameReading same := same.scalars
  sameReading := by
    rintro base base' _ _ same ⟨scalars, rfl⟩ ⟨scalars', rfl⟩ read_eq
    exact ⟨same.timestep_eq, same.parameters, read_eq, same.functions_eq, same.zeroDivision_eq,
      same.series⟩

/-- A context with a value written to the open slot of a variable. -/
def writeSlot (context : Context) (name : String) (value : Value) : Context :=
  { context with state := (context.state.setCurrent name value).toOption.getD context.state }

/-- Whether the open slot of a name can be written and is what the name stands for. -/
def HasSlot (context : Context) (name : String) : Prop :=
  context.state.OpenAt context.timestep ∧ name ∈ context.state.series.names ∧
    context.environment.scalars.get? name = none

theorem writeSlot_of_setCurrent {context : Context} {name : String} {value : Value}
    {next : SimulationState} (written : context.state.setCurrent name value = .ok next) :
    writeSlot context name value = { context with state := next } := by
  rw [writeSlot, written]
  rfl

theorem exists_writeSlot {context : Context} {name : String} (slot : HasSlot context name)
    (value : Value) :
    ∃ next, context.state.setCurrent name value = .ok next ∧
      writeSlot context name value = { context with state := next } := by
  obtain ⟨next, written⟩ := SimulationState.exists_setCurrent slot.1 slot.2.1 value
  exact ⟨next, written, writeSlot_of_setCurrent written⟩

theorem valueAt?_writeSlot {context : Context} {name : String} (slot : HasSlot context name)
    (value : Value) (other : String) (index : Nat) :
    (writeSlot context name value).state.valueAt? other index =
      if name = other ∧ index = context.timestep then some value
      else context.state.valueAt? other index := by
  obtain ⟨next, written, write_eq⟩ := exists_writeSlot slot value
  rw [write_eq]
  exact SimulationState.valueAt?_setCurrent slot.1 written other index

theorem hasSlot_writeSlot {context : Context} {name other : String} (slot : HasSlot context name)
    (value : Value) (slot' : HasSlot context other) :
    HasSlot (writeSlot context name value) other := by
  obtain ⟨next, written, write_eq⟩ := exists_writeSlot slot value
  rw [write_eq]
  refine ⟨SimulationState.openAt_setCurrent slot.1 written, ?_, slot'.2.2⟩
  rw [SimulationState.names_setCurrent written]
  exact slot'.2.1

/-- The open slots of the variables that no scalar hides. -/
def slots : Place where
  put := writeSlot
  read context name := context.state.valueAt? name context.timestep
  blank := some .undefined
  Writable := HasSlot
  read_put value other slot := by
    rw [valueAt?_writeSlot slot]
    simp [writeSlot]
  writable_put value slot slot' := hasSlot_writeSlot slot value slot'
  extends_put {context name} value slot blank := by
    refine ⟨rfl, .refl _, rfl, rfl, ?_, fun found => found, ?_⟩
    · intro other index kept found defined
      rw [valueAt?_writeSlot slot]
      split
      · next here =>
        obtain ⟨rfl, rfl⟩ := here
        rw [blank] at found
        cases found
        exact (defined rfl).elim
      · exact found
    · intro other new absent present
      cases absent.symm.trans present
  put_extends {context full name value} slot _ extension slot' kept := by
    refine ⟨extension.timestep_eq, extension.parameters, extension.functions_eq,
      extension.zeroDivision_eq, ?_, extension.scalar, ?_⟩
    · intro other index new found defined
      rw [valueAt?_writeSlot slot] at found
      split at found
      · next here =>
        obtain ⟨rfl, rfl⟩ := here
        rw [← extension.timestep_eq, kept, found]
      · exact extension.slot found defined
    · intro other new absent present index hidden found
      rw [valueAt?_writeSlot slot] at found
      split at found
      · next here =>
        obtain ⟨rfl, rfl⟩ := here
        rw [slot'.2.2] at present
        cases present
      · exact extension.new_scalar absent present found
  Alike left right :=
    left.state.Overwrites right.state left.timestep ∧ right = { left with state := right.state }
  alike_refl context := ⟨.refl _ _, rfl⟩
  alike_trans := by
    rintro first second third ⟨left, left_eq⟩ ⟨right, right_eq⟩
    rw [left_eq] at right right_eq
    exact ⟨left.trans right, right_eq⟩
  alike_put {context name} value slot := by
    obtain ⟨next, written, write_eq⟩ := exists_writeSlot slot value
    rw [write_eq]
    exact ⟨.of_setCurrent slot.1 written, rfl⟩
  read_eq_of_sameReading same name := by
    rw [SimulationState.valueAt?, SimulationState.valueAt?, same.series name, same.timestep_eq]
  sameReading := by
    rintro base base' context context' same ⟨overwrites, context_eq⟩ ⟨overwrites', context_eq'⟩
      read_eq
    have series : context.state.series.SameMap context'.state.series := by
      apply SimulationState.sameMap_of_valueAt?
      · intro name
        rw [overwrites.names_eq, overwrites'.names_eq, same.series.mem_names_iff]
      · intro name index
        by_cases here : index = base.timestep
        · have here' : index = base'.timestep := here.trans same.timestep_eq
          have read_slot := read_eq name
          rw [context_eq, context_eq'] at read_slot
          rw [here]
          rw [← same.timestep_eq] at read_slot
          exact read_slot
        · have elsewhere' : index ≠ base'.timestep := same.timestep_eq ▸ here
          rw [overwrites.valueAt?_eq name here, overwrites'.valueAt?_eq name elsewhere',
            SimulationState.valueAt?, SimulationState.valueAt?, same.series name]
    rw [context_eq, context_eq']
    exact ⟨same.timestep_eq, same.parameters, same.scalars, same.functions_eq,
      same.zeroDivision_eq, series⟩

/-! ## Contexts on the way -/

variable {place : Place} {equations : List Equation} {base context : Context}
  {done : List Equation}

/-- Equations of different variables wait for their values in a context. -/
structure Ready (place : Place) (equations : List Equation) (base : Context) : Prop where
  /-- Every equation has a variable of its own. -/
  distinct : (equations.map Equation.target).Nodup
  writable : ∀ equation ∈ equations, place.Writable base equation.target
  /-- The variables have no values yet. -/
  blank : ∀ equation ∈ equations, place.read base equation.target = place.blank

/-- A context holds the value of every equation that has one in it. -/
structure Satisfies (place : Place) (equations : List Equation) (full : Context) : Prop where
  writable : ∀ equation ∈ equations, place.Writable full equation.target
  /-- What an equation evaluates to is kept under its variable. -/
  holds : ∀ equation ∈ equations, ∀ value,
    (full.evalFinite equation.expr).result = .ok value →
      place.read full equation.target = some value

/-- A context comes from `base` by keeping the values of the equations in `done`. -/
structure Settles (place : Place) (equations : List Equation) (base : Context)
    (done : List Equation) (context : Context) : Prop where
  /-- The resolved equations are among the given ones. -/
  subset : ∀ equation ∈ done, equation ∈ equations
  /-- More is defined than in the beginning. -/
  extension : base.Extends context
  /-- Nothing but what is kept has changed. -/
  alike : place.Alike base context
  writable : ∀ equation ∈ equations, place.Writable context equation.target
  /-- Names without a resolved equation hold what they held. -/
  untouched : ∀ name, (∀ equation ∈ done, equation.target ≠ name) →
    place.read context name = place.read base name
  /-- A resolved equation has the value that is kept under its variable. -/
  solved : ∀ equation ∈ done, ∃ value,
    (context.evalFinite equation.expr).result = .ok value ∧
      place.read context equation.target = some value
  /-- Nothing is defined beyond what the equations require. -/
  least : ∀ full, base.Extends full → place.Satisfies equations full → context.Extends full

theorem settles_base (ready : place.Ready equations base) :
    place.Settles equations base [] base where
  subset _ member := by cases member
  extension := .refl base
  alike := place.alike_refl base
  writable := ready.writable
  untouched _ _ := rfl
  solved _ member := by cases member
  least _ extension _ := extension

namespace Settles

theorem eq_of_target_eq (ready : place.Ready equations base) {first second : Equation}
    (first_mem : first ∈ equations) (second_mem : second ∈ equations)
    (target_eq : first.target = second.target) : first = second :=
  List.inj_on_of_nodup_map ready.distinct first_mem second_mem target_eq

theorem read_eq_blank (settles : place.Settles equations base done context)
    (ready : place.Ready equations base) {equation : Equation} (member : equation ∈ equations)
    (fresh : equation ∉ done) : place.read context equation.target = place.blank := by
  rw [← ready.blank equation member]
  apply settles.untouched
  intro other resolved target_eq
  exact fresh (eq_of_target_eq ready (settles.subset other resolved) member target_eq ▸ resolved)

/-- Resolving one more equation. -/
theorem put (settles : place.Settles equations base done context)
    (ready : place.Ready equations base) {equation : Equation} {value : Value}
    (member : equation ∈ equations) (fresh : equation ∉ done)
    (found : (context.evalFinite equation.expr).result = .ok value) :
    place.Settles equations base (done ++ [equation])
      (place.put context equation.target value) := by
  have writable := settles.writable equation member
  have blank := settles.read_eq_blank ready member fresh
  have step : context.Extends (place.put context equation.target value) :=
    place.extends_put value writable blank
  refine ⟨?_, settles.extension.trans step,
    place.alike_trans settles.alike (place.alike_put value writable), ?_, ?_, ?_, ?_⟩
  · intro other resolved
    rcases List.mem_append.mp resolved with resolved | last
    · exact settles.subset other resolved
    · rw [List.mem_singleton.mp last]
      exact member
  · intro other other_mem
    exact place.writable_put value writable (settles.writable other other_mem)
  · intro name apart
    have different : equation.target ≠ name := apart equation (by simp)
    rw [place.read_put value name writable, if_neg different]
    exact settles.untouched name fun other resolved =>
      apart other (List.mem_append_left _ resolved)
  · intro other resolved
    rcases List.mem_append.mp resolved with resolved | last
    · obtain ⟨kept, found_other, read_other⟩ := settles.solved other resolved
      have different : equation.target ≠ other.target := by
        intro target_eq
        have equation_eq :=
          eq_of_target_eq ready member (settles.subset other resolved) target_eq
        exact fresh (equation_eq ▸ resolved)
      refine ⟨kept, ?_, ?_⟩
      · rw [step.evalFinite_eq found_other, found_other]
      · rw [place.read_put value _ writable, if_neg different, read_other]
    · rw [List.mem_singleton.mp last]
      refine ⟨value, ?_, ?_⟩
      · rw [step.evalFinite_eq found, found]
      · rw [place.read_put value _ writable, if_pos rfl]
  · intro full extension satisfies
    have below := settles.least full extension satisfies
    have found_full : (full.evalFinite equation.expr).result = .ok value := by
      rw [below.evalFinite_eq found, found]
    exact place.put_extends writable blank below (satisfies.writable equation member)
      (satisfies.holds equation member value found_full)

/-- Where the other equations fail, every equation with a value is resolved. -/
theorem satisfies (settles : place.Settles equations base done context)
    (stalled : ∀ equation ∈ equations, equation ∉ done →
      ∃ error, (context.evalFinite equation.expr).result = .error error) :
    place.Satisfies equations context where
  writable := settles.writable
  holds := by
    intro equation member value found
    by_cases resolved : equation ∈ done
    · obtain ⟨kept, found_kept, read_kept⟩ := settles.solved equation resolved
      rw [found] at found_kept
      cases found_kept
      exact read_kept
    · obtain ⟨error, failed⟩ := stalled equation member resolved
      rw [failed] at found
      cases found

/-! ## Independence of the order -/

variable {equations' : List Equation} {base' context' : Context} {done' : List Equation}

/-- What is resolved in a context is resolved wherever more is defined and the rest fails. -/
theorem mem_done_of_extends (settles : place.Settles equations base done context)
    (below : context.Extends context')
    (stalled' : ∀ equation ∈ equations, equation ∉ done' →
      ∃ error, (context'.evalFinite equation.expr).result = .error error)
    {equation : Equation} (resolved : equation ∈ done) : equation ∈ done' := by
  by_contra fresh
  obtain ⟨value, found, _⟩ := settles.solved equation resolved
  obtain ⟨error, failed⟩ := stalled' equation (settles.subset equation resolved) fresh
  rw [below.evalFinite_eq found, found] at failed
  cases failed

/-- Two contexts that come from starts defining the same, and in which nothing more can be resolved,
hold the same. -/
theorem read_eq (settles : place.Settles equations base done context)
    (settles' : place.Settles equations' base' done' context')
    (ready : place.Ready equations base) (ready' : place.Ready equations' base')
    (same : ∀ equation, equation ∈ equations ↔ equation ∈ equations')
    (done_iff : ∀ equation, equation ∈ done ↔ equation ∈ done')
    (below : context.Extends context')
    (base_eq : ∀ name, place.read base name = place.read base' name) (name : String) :
    place.read context name = place.read context' name := by
  by_cases defined : ∃ equation ∈ equations, equation.target = name
  · obtain ⟨equation, member, rfl⟩ := defined
    by_cases resolved : equation ∈ done
    · obtain ⟨value, found, read_eq⟩ := settles.solved equation resolved
      obtain ⟨value', found', read_eq'⟩ :=
        settles'.solved equation ((done_iff equation).mp resolved)
      rw [below.evalFinite_eq found, found] at found'
      cases found'
      rw [read_eq, read_eq']
    · rw [settles.read_eq_blank ready member resolved,
        settles'.read_eq_blank ready' ((same equation).mp member)
          fun resolved' => resolved ((done_iff equation).mpr resolved')]
  · have apart : ∀ equation ∈ equations, equation.target ≠ name :=
      fun equation member target_eq => defined ⟨equation, member, target_eq⟩
    rw [settles.untouched name fun equation resolved =>
        apart equation (settles.subset equation resolved),
      settles'.untouched name fun equation resolved =>
        apart equation ((same equation).mpr (settles'.subset equation resolved)),
      base_eq]

end Settles

end Place

end EconModel
