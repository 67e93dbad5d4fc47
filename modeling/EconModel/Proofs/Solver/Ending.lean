import EconModel.ConstraintCheck
import EconModel.Proofs.Log
import EconModel.Proofs.Solver.FixedPoint

/-!
# How a resolution ends

The attempts of the engine evaluate an equation in the context that they see, keep its value in a
place and record whether a zero divisor was replaced.  A resolution by such attempts ends in a
context that settles the resolved equations.  If it is not cut short by its limit, what it ends in
depends on the equations and on what it starts from, but not on the order of the equations.
-/

namespace EconModel

namespace Context

/-- What is recorded about an equation that has a value. -/
def mark (context : Context) (equation : Equation) : List Diagnostic :=
  Diagnostic.ofMark (context.evalFinite equation.expr).dividedByZero context.stamp equation.location

theorem Extends.mark_eq {less more : Context} (extension : less.Extends more) {equation : Equation}
    {value : Value} (found : (less.evalFinite equation.expr).result = .ok value) :
    more.mark equation = less.mark equation := by
  rw [mark, mark, extension.evalFinite_eq found, stamp, stamp, extension.timestep_eq]

theorem SameReading.mark_eq {left right : Context} (same : left.SameReading right)
    (equation : Equation) : left.mark equation = right.mark equation := by
  rw [mark, mark, same.evalFinite_eq, stamp, stamp, same.timestep_eq]

end Context

namespace Solver

variable {σ : Type} {place : Place} {view : σ → Context} {step : Step (σ × List Diagnostic)}
  {limit : Nat} {equations : List Equation} {start : σ} {base : Context} {done : List Equation}
  {failed : List (Equation × EvalError)}

/-- Attempts evaluate an equation in the context that they see and keep its value in a place. -/
structure Keeps (place : Place) (view : σ → Context) (step : Step (σ × List Diagnostic)) :
    Prop where
  /-- Without a value nothing changes. -/
  failure : ∀ {equation : Equation} {state : σ} {error : EvalError} (diagnostics : List Diagnostic),
    ((view state).evalFinite equation.expr).result = .error error →
      step equation (state, diagnostics) = (.error error, (state, diagnostics))
  /-- A value is kept. -/
  success : ∀ {equation : Equation} {state : σ} {value : Value} (diagnostics : List Diagnostic),
    place.Writable (view state) equation.target →
      ((view state).evalFinite equation.expr).result = .ok value →
        ∃ next, view next = place.put (view state) equation.target value ∧
          step equation (state, diagnostics) =
            (.ok (), (next, diagnostics ++ (view state).mark equation))

/-- The context that is seen settles the resolved equations, which are marked in order. -/
structure Stands (place : Place) (view : σ → Context) (equations : List Equation) (base : Context)
    (done : List Equation) (entry : σ × List Diagnostic) : Prop where
  /-- The resolved equations are settled. -/
  settles : place.Settles equations base done (view entry.1)
  /-- Their marks are recorded. -/
  diagnostics_eq : entry.2 = done.flatMap (view entry.1).mark

theorem stands_start (ready : place.Ready equations (view start)) :
    Stands place view equations (view start) [] (start, []) :=
  ⟨Place.settles_base ready, rfl⟩

theorem Keeps.steady (keeps : Keeps place view step) (ready : place.Ready equations base) :
    Steady step equations (Stands place view equations base) where
  success := by
    rintro done ⟨state, diagnostics⟩ next equation ⟨settles, diagnostics_eq⟩ member fresh attempt
    replace diagnostics_eq : diagnostics = done.flatMap (view state).mark := diagnostics_eq
    cases found : ((view state).evalFinite equation.expr).result with
    | error error =>
        rw [keeps.failure _ found] at attempt
        cases attempt
    | ok value =>
        have writable := settles.writable equation member
        obtain ⟨after, after_eq, attempt'⟩ := keeps.success _ writable found
        rw [attempt'] at attempt
        cases attempt
        have blank := settles.read_eq_blank ready member fresh
        have extension := place.extends_put value writable blank
        refine ⟨after_eq ▸ settles.put ready member fresh found, ?_⟩
        have earlier : done.flatMap (view after).mark = done.flatMap (view state).mark := by
          apply List.flatMap_congr
          intro other resolved
          obtain ⟨value', found', _⟩ := settles.solved other resolved
          rw [after_eq, extension.mark_eq found']
        change diagnostics ++ _ = (done ++ [equation]).flatMap (view after).mark
        rw [List.flatMap_append, earlier, List.flatMap_singleton, after_eq,
          extension.mark_eq found, diagnostics_eq]
  failure := by
    rintro done ⟨state, diagnostics⟩ next equation error ⟨settles, _⟩ member fresh attempt
    cases found : ((view state).evalFinite equation.expr).result with
    | error error' =>
        rw [keeps.failure _ found] at attempt
        cases attempt
        rfl
    | ok value =>
        obtain ⟨after, _, attempt'⟩ := keeps.success diagnostics (settles.writable _ member) found
        rw [attempt'] at attempt
        cases attempt

/-- The context that a resolution ends in. -/
def ending (view : σ → Context) (step : Step (σ × List Diagnostic)) (limit : Nat)
    (equations : List Equation) (start : σ) : Context :=
  view (solve step limit equations (start, [])).2.1

/-- A resolution ends with the equations `done` resolved and the others failed. -/
structure Ends (place : Place) (view : σ → Context) (step : Step (σ × List Diagnostic))
    (limit : Nat) (equations : List Equation) (start : σ) (done : List Equation)
    (failed : List (Equation × EvalError)) : Prop where
  /-- Its attempts keep values in the place. -/
  keeps : Keeps place view step
  /-- The equations were waiting for their values. -/
  ready : place.Ready equations (view start)
  settles : place.Settles equations (view start) done (ending view step limit equations start)
  diagnostics_eq : (solve step limit equations (start, [])).2.2 =
    done.flatMap (ending view step limit equations start).mark
  divides : Divides step limit equations (start, []) done failed

theorem exists_ends (keeps : Keeps place view step) (limit_pos : 0 < limit)
    (ready : place.Ready equations (view start)) :
    ∃ done failed, Ends place view step limit equations start done failed := by
  have distinct : equations.Nodup := List.Nodup.of_map _ ready.distinct
  obtain ⟨done, failed, stands, divides⟩ :=
    exists_divides (keeps.steady ready) limit_pos (stands_start ready) distinct
  exact ⟨done, failed, keeps, ready, stands.settles, stands.diagnostics_eq, divides⟩

namespace Ends

/-- Within a sufficient limit the other equations have no value where the resolution ends. -/
theorem failed_eq (ends : Ends place view step limit equations start done failed)
    (bound : equations.length ≤ limit) {equation : Equation} {error : EvalError}
    (member : (equation, error) ∈ failed) :
    ((ending view step limit equations start).evalFinite equation.expr).result = .error error := by
  have attempt := ends.divides.fails bound (equation, error) member
  rcases left : (solve step limit equations (start, [])).2 with ⟨state, diagnostics⟩
  have listed : equation ∈ failed.map Prod.fst := List.mem_map_of_mem member
  have equation_mem : equation ∈ equations :=
    ends.divides.perm.mem_iff.mp (List.mem_append_right done listed)
  have writable := ends.settles.writable equation equation_mem
  rw [ending, left] at writable ⊢
  rw [left] at attempt
  cases found : ((view state).evalFinite equation.expr).result with
  | error error' =>
      rw [ends.keeps.failure _ found] at attempt
      cases attempt
      rfl
  | ok value =>
      obtain ⟨next, _, attempt'⟩ := ends.keeps.success diagnostics writable found
      rw [attempt'] at attempt
      cases attempt

theorem exists_failed (ends : Ends place view step limit equations start done failed)
    {equation : Equation} (member : equation ∈ equations) (fresh : equation ∉ done) :
    ∃ error, (equation, error) ∈ failed := by
  have listed := (List.mem_append.mp (ends.divides.perm.mem_iff.mpr member)).resolve_left fresh
  obtain ⟨⟨_, error⟩, entry_mem, rfl⟩ := List.mem_map.mp listed
  exact ⟨error, entry_mem⟩

theorem stalled (ends : Ends place view step limit equations start done failed)
    (bound : equations.length ≤ limit) (equation : Equation) (member : equation ∈ equations)
    (fresh : equation ∉ done) :
    ∃ error, ((ending view step limit equations start).evalFinite equation.expr).result =
      .error error := by
  obtain ⟨error, entry_mem⟩ := ends.exists_failed member fresh
  exact ⟨error, ends.failed_eq bound entry_mem⟩

/-- The failed equations are those that are not resolved, each with what it fails with. -/
theorem mem_failed_iff (ends : Ends place view step limit equations start done failed)
    (bound : equations.length ≤ limit) (equation : Equation) (error : EvalError) :
    (equation, error) ∈ failed ↔ equation ∈ equations ∧ equation ∉ done ∧
      ((ending view step limit equations start).evalFinite equation.expr).result =
        .error error := by
  constructor
  · intro member
    have listed : equation ∈ failed.map Prod.fst := List.mem_map_of_mem member
    have distinct : (done ++ failed.map Prod.fst).Nodup :=
      List.Nodup.of_map _ (ends.divides.nodup_targets ends.ready.distinct)
    obtain ⟨_, _, apart⟩ := List.nodup_append.mp distinct
    exact ⟨ends.divides.perm.mem_iff.mp (List.mem_append_right done listed),
      fun resolved => apart equation resolved equation listed rfl, ends.failed_eq bound member⟩
  · rintro ⟨member, fresh, failed_with⟩
    obtain ⟨error', entry_mem⟩ := ends.exists_failed member fresh
    rw [ends.failed_eq bound entry_mem] at failed_with
    cases failed_with
    exact entry_mem

end Ends

/-! ## Independence of the order -/

section Order

variable {view' : σ → Context} {step' : Step (σ × List Diagnostic)} {limit' : Nat}
  {equations' : List Equation} {start' : σ} {done' : List Equation}
  {failed' : List (Equation × EvalError)}

/-- Two resolutions of the same equations, in any orders, start from contexts that read alike and
are not cut short. -/
structure Parallel (place : Place) (view view' : σ → Context)
    (step step' : Step (σ × List Diagnostic)) (limit limit' : Nat)
    (equations equations' : List Equation) (start start' : σ) (done done' : List Equation)
    (failed failed' : List (Equation × EvalError)) : Prop where
  left : Ends place view step limit equations start done failed
  right : Ends place view' step' limit' equations' start' done' failed'
  perm : equations.Perm equations'
  /-- The contexts in the beginning read alike. -/
  same : (view start).SameReading (view' start')
  left_bound : equations.length ≤ limit
  right_bound : equations'.length ≤ limit'

namespace Parallel

variable (parallel : Parallel place view view' step step' limit limit' equations equations' start
  start' done done' failed failed')

include parallel

theorem symm : Parallel place view' view step' step limit' limit equations' equations start' start
    done' done failed' failed :=
  ⟨parallel.right, parallel.left, parallel.perm.symm, parallel.same.symm, parallel.right_bound,
    parallel.left_bound⟩

theorem extends_ending : (ending view step limit equations start).Extends
    (ending view' step' limit' equations' start') := by
  have satisfies := parallel.right.settles.satisfies (parallel.right.stalled parallel.right_bound)
  apply parallel.left.settles.least
  · exact parallel.same.toExtends.trans parallel.right.settles.extension
  · constructor
    · intro equation member
      exact satisfies.writable equation (parallel.perm.mem_iff.mp member)
    · intro equation member
      exact satisfies.holds equation (parallel.perm.mem_iff.mp member)

theorem mem_done_of_mem {equation : Equation} (resolved : equation ∈ done) :
    equation ∈ done' := by
  apply parallel.left.settles.mem_done_of_extends parallel.extends_ending ?_ resolved
  intro other member fresh
  exact parallel.right.stalled parallel.right_bound other (parallel.perm.mem_iff.mp member) fresh

theorem mem_done_iff (equation : Equation) : equation ∈ done ↔ equation ∈ done' :=
  ⟨parallel.mem_done_of_mem, parallel.symm.mem_done_of_mem⟩

theorem done_perm : done.Perm done' := by
  have distinct := List.Nodup.of_map _
    (parallel.left.divides.nodup_targets parallel.left.ready.distinct)
  have distinct' := List.Nodup.of_map _
    (parallel.right.divides.nodup_targets parallel.right.ready.distinct)
  exact (List.perm_ext_iff_of_nodup (List.nodup_append.mp distinct).1
    (List.nodup_append.mp distinct').1).mpr parallel.mem_done_iff

/-- The resolutions end in contexts that read alike. -/
theorem sameReading_ending : (ending view step limit equations start).SameReading
    (ending view' step' limit' equations' start') := by
  apply place.sameReading parallel.same parallel.left.settles.alike parallel.right.settles.alike
  apply parallel.left.settles.read_eq parallel.right.settles parallel.left.ready
    parallel.right.ready (fun equation => parallel.perm.mem_iff) parallel.mem_done_iff
    parallel.extends_ending
  exact place.read_eq_of_sameReading parallel.same

theorem mem_failed_iff (equation : Equation) (error : EvalError) :
    (equation, error) ∈ failed ↔ (equation, error) ∈ failed' := by
  rw [parallel.left.mem_failed_iff parallel.left_bound,
    parallel.right.mem_failed_iff parallel.right_bound, parallel.perm.mem_iff,
    parallel.mem_done_iff, parallel.sameReading_ending.evalFinite_eq]

/-- The resolutions leave the same equations unresolved, with the same failures. -/
theorem sameMap_unresolved : (solve step limit equations (start, [])).1.unresolved.SameMap
    (solve step' limit' equations' (start', [])).1.unresolved := by
  intro name
  apply Option.ext
  intro error
  rw [parallel.left.divides.get?_unresolved parallel.left.ready.distinct,
    parallel.right.divides.get?_unresolved parallel.right.ready.distinct]
  exact exists_congr fun equation => and_congr_left' (parallel.mem_failed_iff equation error)

/-- The resolutions record the same marks. -/
theorem diagnostics_agree : Diagnostic.ListsAgree (solve step limit equations (start, [])).2.2
    (solve step' limit' equations' (start', [])).2.2 := by
  have marks : (ending view step limit equations start).mark =
      (ending view' step' limit' equations' start').mark :=
    funext fun equation => parallel.sameReading_ending.mark_eq equation
  rw [parallel.left.diagnostics_eq, parallel.right.diagnostics_eq, marks]
  refine .of_perm (parallel.done_perm.flatMap_right _) fun diagnostic member => ?_
  obtain ⟨equation, _, marked⟩ := List.mem_flatMap.mp member
  rw [((Diagnostic.mem_ofMark_iff _ _ _ _).mp marked).2]
  rfl

end Parallel

end Order

end Solver

end EconModel
