import EconModel.Proofs.Aggregate
import EconModel.Proofs.Engine.Halting
import EconModel.Proofs.Engine.Identity

/-!
# The columns of an aggregate

The runs of an aggregate ascend by their indices, its series are those of the variables of the
model, and every column holds one entry per run: the number that the run has at that place.  So the
order in which runs are handed in leaves no trace.  A run of an engine has no number where it was
halted before, or where its value does not count as one.
-/

namespace EconModel

namespace Model

/-- The targets of the equations that define values of a series. -/
def timeIndexedTargets (model : Model) : List String :=
  (model.equations.filter fun equation => equation.kind.isTimeIndexed).map Equation.target

/-- The first occurrences of names stand in the order in which they occur. -/
theorem pairwise_firstOccurrences (names : List String) :
    (firstOccurrences names).Pairwise fun name other =>
      names.idxOf name < names.idxOf other := by
  -- What is seen is in the reverse order, and consists of what stands in front of the rest.
  suffices collected : ∀ rest before seen : List String,
      (∀ name, name ∈ seen ↔ name ∈ before) →
      (seen.Pairwise fun later name =>
        (before ++ rest).idxOf name < (before ++ rest).idxOf later) →
      (rest.foldl (fun seen name => if seen.contains name then seen else name :: seen)
        seen).Pairwise fun later name =>
          (before ++ rest).idxOf name < (before ++ rest).idxOf later by
    rw [firstOccurrences, List.pairwise_reverse]
    exact collected names [] [] (fun _ => Iff.rfl) List.Pairwise.nil
  intro rest
  induction rest with
  | nil => exact fun _ _ _ ascending => ascending
  | cons first rest ih =>
      intro before seen mem_seen_iff ascending
      have split : before ++ first :: rest = (before ++ [first]) ++ rest := by simp
      rw [List.foldl_cons]
      rw [split] at ascending ⊢
      apply ih
      · intro name
        rw [List.mem_append, List.mem_singleton, ← mem_seen_iff]
        split
        · next present =>
          have member : first ∈ seen := List.contains_iff_mem.mp present
          exact ⟨.inl, fun either => either.elim id fun same => same ▸ member⟩
        · rw [List.mem_cons, or_comm]
      · split
        · exact ascending
        · next absent =>
          refine List.pairwise_cons.mpr ⟨fun name member => ?_, ascending⟩
          have earlier : name ∈ before := (mem_seen_iff name).mp member
          have new : first ∉ before := fun present =>
            absent (List.contains_iff_mem.mpr ((mem_seen_iff first).mpr present))
          rw [← split, List.idxOf_append_of_mem earlier, List.idxOf_append_of_notMem new]
          exact Nat.lt_add_right _ (List.idxOf_lt_length_of_mem earlier)

theorem pairwise_variableNames (model : Model) :
    model.variableNames.Pairwise fun name other =>
      model.timeIndexedTargets.idxOf name < model.timeIndexedTargets.idxOf other :=
  pairwise_firstOccurrences _

end Model

/-- A value counts as a number unless it is undefined, a text or structured. -/
theorem Value.numeric?_eq_none_iff (value : Value) :
    value.numeric? = none ↔
      value = .undefined ∨ (∃ text, value = .text text) ∨ ∃ data, value = .structured data := by
  cases value with
  | boolean truth => cases truth <;> simp [numeric?]
  | number | text | undefined | structured => simp [numeric?]

/-- A run of an engine has no value exactly where it was halted before. -/
theorem Engine.Produces.value?_eq_none_iff {engine : Engine} {result : RunResult}
    (produces : engine.Produces result) {name : String}
    (declared : name ∈ engine.model.variableNames) {timestep : Nat}
    (within : timestep < engine.model.horizon.toNat) :
    result.value? name timestep = none ↔
      ∃ last, result.status = .halted last ∧ last.toNat < timestep := by
  obtain ⟨scalars, marks, final, log, solved, executes, -, -, series_eq, -⟩ :=
    exists_executes_of_run produces.run_eq
  have rests := executes.rests (unhidden_of_solveScalars solved) engine.rests_initial
  rw [← rests.names_eq] at declared
  obtain ⟨values, found⟩ := (Bindings.mem_names_iff _ name).mp declared
  rw [RunResult.value?_eq rests.closed series_eq, SimulationState.valueAt?, found, Option.bind_some,
    Array.getElem?_eq_none_iff, rests.closed.size_eq found]
  cases status_eq : result.status with
  | completed => simpa [RunStatus.committed] using within
  | halted last => simp [RunStatus.committed]

namespace AggregateResult

/-! ## The order of the runs -/

theorem lt_of_indexLE {left right : Option UInt64} (ordered : indexLE left right = true)
    (different : left ≠ right) : left < right := by
  cases left with
  | none =>
      cases right with
      | none => exact absurd rfl different
      | some right => exact trivial
  | some left =>
      cases right with
      | none => cases ordered
      | some right =>
          have below : left ≤ right := of_decide_eq_true ordered
          exact UInt64.lt_of_le_of_ne below fun same => different (congrArg some same)

section Ordered

variable {runs : List RunResult} (distinct : (runs.map fun run => run.metadata.index).Nodup)

include distinct

theorem nodup_ordered : ((ordered runs).map fun run => run.metadata.index).Nodup :=
  ((ordered_perm runs).map _).nodup_iff.mpr distinct

/-- Runs with different indices ascend strictly. -/
theorem ascending_ordered :
    (ordered runs).Pairwise fun left right => left.metadata.index < right.metadata.index := by
  have different := List.pairwise_map.mp (nodup_ordered distinct)
  exact ((pairwise_ordered runs).and different).imp fun both => lt_of_indexLE both.1 both.2

theorem ordered_congr {handed : List RunResult} (perm : handed.Perm runs) :
    ordered handed = ordered runs :=
  ordered_eq_of_perm (perm.trans (ordered_perm runs).symm) (nodup_ordered distinct)
    (pairwise_ordered runs)

end Ordered

/-! ## The series -/

/-- The series of an aggregate hold what its runs have at the variables and timesteps of a model. -/
structure Aligned (model : Model) (aggregate : AggregateResult) : Prop where
  /-- The series are those of the variables. -/
  names_eq : aggregate.series.names = model.variableNames
  /-- A variable has a column for every timestep. -/
  columns : ∀ name ∈ model.variableNames, ∃ columns, aggregate.series.get? name = some columns ∧
    columns.length = model.horizon.toNat
  /-- A column has an entry for every run, which is the number of that run. -/
  column : ∀ name ∈ model.variableNames, ∀ timestep < model.horizon.toNat,
    ∃ column, aggregate.column? name timestep = some column ∧
      column.length = aggregate.runs.length ∧
      ∀ (place : Nat) (run : RunResult), aggregate.runs[place]? = some run →
        column[place]? = some ((run.value? name timestep).bind Value.numeric?)

variable (model : Model) (fingerprint : String) (baseSeed requested : UInt64)
  (runs : List RunResult) (cancelled : List UInt64)

theorem names_series_ofRuns :
    (ofRuns model fingerprint baseSeed requested runs cancelled).series.names =
      model.variableNames := by
  have names_eq : (model.variableNames.map fun name => (name, (List.range model.horizon.toNat).map
      (columnOf (ordered runs) name))).map Prod.fst = model.variableNames := by
    simp [Function.comp_def]
  rw [ofRuns, Bindings.names_ofList (names_eq.symm ▸ model.nodup_variableNames), names_eq]

theorem get?_series_ofRuns {name : String} (declared : name ∈ model.variableNames) :
    (ofRuns model fingerprint baseSeed requested runs cancelled).series.get? name =
      some ((List.range model.horizon.toNat).map (columnOf (ordered runs) name)) := by
  have distinct : ((model.variableNames.map fun name => (name, (List.range
      model.horizon.toNat).map (columnOf (ordered runs) name))).map Prod.fst).Nodup := by
    simpa [Function.comp_def] using model.nodup_variableNames
  rw [ofRuns, Bindings.get?_ofList_eq_some_iff distinct]
  exact List.mem_map_of_mem declared

theorem aligned_ofRuns :
    (ofRuns model fingerprint baseSeed requested runs cancelled).Aligned model where
  names_eq := names_series_ofRuns model fingerprint baseSeed requested runs cancelled
  columns name declared :=
    ⟨_, get?_series_ofRuns model fingerprint baseSeed requested runs cancelled declared, by simp⟩
  column name declared timestep within := by
    refine ⟨columnOf (ordered runs) name timestep, ?_, List.length_map .., ?_⟩
    · rw [column?, get?_series_ofRuns model fingerprint baseSeed requested runs cancelled declared,
        Option.bind_some, List.getElem?_map, List.getElem?_range within, Option.map_some]
    · intro place run found
      change (ordered runs)[place]? = some run at found
      rw [columnOf, List.getElem?_map, found, Option.map_some]

/-- An entry of a column is missing exactly where its run was halted before, or has a value there
that does not count as a number. -/
theorem Aligned.missing_iff {model : Model} {aggregate : AggregateResult}
    (aligned : aggregate.Aligned model) {engine : Engine} (model_eq : engine.model = model)
    {run : RunResult} (produces : engine.Produces run) {place : Nat}
    (found : aggregate.runs[place]? = some run) {name : String}
    (declared : name ∈ model.variableNames) {timestep : Nat}
    (within : timestep < model.horizon.toNat) {column : Column}
    (column_eq : aggregate.column? name timestep = some column) :
    column[place]? = some none ↔
      (∃ last, run.status = .halted last ∧ last.toNat < timestep) ∨
        ∃ value, run.value? name timestep = some value ∧
          (value = .undefined ∨ (∃ text, value = .text text) ∨
            ∃ data, value = .structured data) := by
  subst model_eq
  obtain ⟨column', column_eq', -, entries⟩ := aligned.column name declared timestep within
  obtain rfl : column' = column := Option.some.inj (column_eq'.symm.trans column_eq)
  rw [entries place run found, Option.some.injEq, Option.bind_eq_none_iff,
    ← produces.value?_eq_none_iff declared within]
  cases run.value? name timestep with
  | none => simp
  | some value => simp [Value.numeric?_eq_none_iff]

/-- Runs of a model with different indices make one aggregate, in whatever order they are handed in.
Its runs ascend by their indices, its series are those of the variables in the order of their first
equations, and its columns hold the numbers of the runs.  An entry of a run of an engine is missing
exactly where the run was halted before, or has a value there that does not count as a number. -/
theorem ofRuns_aligned (model : Model) (fingerprint : String) (baseSeed requested : UInt64)
    {runs : List RunResult} (cancelled : List UInt64)
    (distinct : (runs.map fun run => run.metadata.index).Nodup) :
    let aggregate := ofRuns model fingerprint baseSeed requested runs cancelled
    (∀ handed : List RunResult, handed.Perm runs →
      ofRuns model fingerprint baseSeed requested handed cancelled = aggregate) ∧
    aggregate.runs.Perm runs ∧
    (aggregate.runs.Pairwise fun left right => left.metadata.index < right.metadata.index) ∧
    aggregate.Aligned model ∧
    (model.variableNames.Pairwise fun name other =>
      model.timeIndexedTargets.idxOf name < model.timeIndexedTargets.idxOf other) ∧
    (∀ name, name ∈ model.variableNames ↔ name ∈ model.timeIndexedTargets) ∧
    ∀ engine : Engine, engine.model = model → ∀ (place : Nat) (run : RunResult),
      aggregate.runs[place]? = some run → engine.Produces run →
        ∀ name ∈ model.variableNames, ∀ timestep < model.horizon.toNat, ∀ column,
          aggregate.column? name timestep = some column →
            (column[place]? = some none ↔
              (∃ last, run.status = .halted last ∧ last.toNat < timestep) ∨
                ∃ value, run.value? name timestep = some value ∧
                  (value = .undefined ∨ (∃ text, value = .text text) ∨
                    ∃ data, value = .structured data)) := by
  intro aggregate
  have aligned : aggregate.Aligned model :=
    aligned_ofRuns model fingerprint baseSeed requested runs cancelled
  refine ⟨?_, ordered_perm runs, ascending_ordered distinct, aligned,
    model.pairwise_variableNames, Model.mem_firstOccurrences_iff model.timeIndexedTargets, ?_⟩
  · intro handed perm
    simp only [aggregate, ofRuns, ordered_congr distinct perm]
  · intro engine model_eq place run found produces name declared timestep within column column_eq
    exact aligned.missing_iff model_eq produces found declared within column_eq

/-- Two runs that are halted at their second timestep have no entry at the third one. -/
theorem ofRuns_aligned_flipping : ∃ first second : RunResult,
    Engine.flippingEngine.Produces first ∧ first.status = .halted 1 ∧
      ([second, first].map fun run => run.metadata.index).Nodup ∧
      ofRuns Engine.flippingModel "" 7 2 [first, second] [] =
        ofRuns Engine.flippingModel "" 7 2 [second, first] [] ∧
      ∃ (place : Nat) (column : Column),
        (ofRuns Engine.flippingModel "" 7 2 [second, first] []).runs[place]? = some first ∧
          (ofRuns Engine.flippingModel "" 7 2 [second, first] []).column? "flag" 2 = some column ∧
          column[place]? = some none := by
  obtain ⟨sampler, prepared, ran⟩ : ∃ sampler, Engine.flippingEngine.sampler = .ok sampler ∧
      ∀ index, ∃ result,
        Engine.flippingEngine.runSingle sampler 7 index .uninterrupted = .ok result ∧
          result.status = .halted 1 ∧ result.metadata.index = some index :=
    ⟨_, rfl, fun _ => ⟨_, rfl, rfl, rfl⟩⟩
  obtain ⟨first, first_ran, halted, first_index⟩ := ran 0
  obtain ⟨second, _, _, second_index⟩ := ran 1
  have produces : Engine.flippingEngine.Produces first := .sampled prepared first_ran
  have distinct : ([second, first].map fun run => run.metadata.index).Nodup := by
    simp [first_index, second_index]
  obtain ⟨same, perm, -, aligned, -, -, missing⟩ :=
    ofRuns_aligned Engine.flippingModel "" 7 2 [] distinct
  obtain ⟨place, found⟩ :=
    List.mem_iff_getElem?.mp (perm.mem_iff.mpr (List.mem_cons_of_mem second List.mem_cons_self))
  obtain ⟨column, column_eq, -, -⟩ := aligned.column "flag" (by decide) 2 (by decide)
  refine ⟨first, second, produces, halted, distinct, same _ (.swap _ _ _), place, column, found,
    column_eq, ?_⟩
  exact (missing Engine.flippingEngine rfl place first found produces "flag" (by decide) 2
    (by decide) column column_eq).mpr (.inl ⟨1, halted, by decide⟩)

end AggregateResult

end EconModel
