import EconModel.Proofs.Solver.Lockstep

/-!
# The attempts of a resolution

A resolution attempts equations in passes.  `Solver.calls` records its attempts with their results.
The rule for resolutions says that whatever successful and failed attempts keep holds at the end,
and that every equation is then either resolved or listed with its last failure; if the limit is not
below the number of equations, the unresolved ones fail in what the resolution leaves behind.
-/

namespace EconModel

namespace Solver

variable {σ : Type} {step : Step σ} {pending : List Equation}

/-! ## Recorded attempts -/

/-- The attempt that also records itself with its result. -/
def recorded (step : Step σ) : Step (σ × List (Equation × Except EvalError Unit)) :=
  noting (fun equation _ result => (equation, result)) step

theorem recorded_apply (step : Step σ) (equation : Equation) (state : σ)
    (record : List (Equation × Except EvalError Unit)) :
    recorded step equation (state, record) =
      ((step equation state).1,
        (step equation state).2, record ++ [(equation, (step equation state).1)]) :=
  rfl

/-- A recorded attempt leaves behind what the attempt does, with one more entry in the record. -/
theorem exists_of_recorded {equation : Equation} {before : σ}
    {record : List (Equation × Except EvalError Unit)} {result : Except EvalError Unit}
    {next : σ × List (Equation × Except EvalError Unit)}
    (attempt : recorded step equation (before, record) = (result, next)) :
    ∃ after, step equation before = (result, after) ∧
      next = (after, record ++ [(equation, result)]) := by
  rcases attempt_eq : step equation before with ⟨_, after⟩
  simp only [recorded_apply, attempt_eq, Prod.mk.injEq] at attempt
  obtain ⟨rfl, rfl⟩ := attempt
  exact ⟨after, rfl, rfl⟩

/-- The attempts of a resolution with their results, first made first. -/
def calls (step : Step σ) (limit : Nat) (pending : List Equation) (state : σ) :
    List (Equation × Except EvalError Unit) :=
  (solve (recorded step) limit pending (state, [])).2.2

/-- Recording changes neither what a resolution comes to nor what it leaves behind. -/
theorem solve_recorded (step : Step σ) (limit : Nat) (pending : List Equation) (state : σ) :
    (solve (recorded step) limit pending (state, [])).1 = (solve step limit pending state).1 ∧
      (solve (recorded step) limit pending (state, [])).2.1 =
        (solve step limit pending state).2 :=
  solve_noting _ step limit pending state

/-! ## The rule for resolutions -/

/-- Attempts at pending equations keep a relation between the resolved equations and the state. -/
structure Kept (step : Step σ) (pending : List Equation) (holds : List Equation → σ → Prop) :
    Prop where
  /-- A success keeps it with one more resolved equation. -/
  success : ∀ {done : List Equation} {state next : σ} {equation : Equation},
    holds done state → equation ∈ pending → equation ∉ done →
      step equation state = (.ok (), next) → holds (done ++ [equation]) next
  /-- A failure keeps it. -/
  failure : ∀ {done : List Equation} {state next : σ} {equation : Equation} {error : EvalError},
    holds done state → equation ∈ pending → equation ∉ done →
      step equation state = (.error error, next) → holds done next

/-- A failed equation, with its failure, was attempted while exactly the equations `done` were
resolved. -/
def FailsAt (step : Step σ) (holds : List Equation → σ → Prop) (done : List Equation)
    (entry : Equation × EvalError) : Prop :=
  ∃ before after, holds done before ∧ step entry.1 before = (.error entry.2, after)

variable {holds : List Equation → σ → Prop}

private theorem pass_kept (kept : Kept step pending holds) (rest : List Equation)
    {done : List Equation} {state : σ} (start : holds done state) (distinct : rest.Nodup)
    (fresh : ∀ equation ∈ rest, equation ∈ pending ∧ equation ∉ done) :
    ∃ now, holds (done ++ now) (pass step rest state).2 ∧
      (now ++ (pass step rest state).1.map Prod.fst).Perm rest ∧
      ((pass step rest state).1.length = rest.length →
        ∀ entry ∈ (pass step rest state).1, FailsAt step holds (done ++ now) entry) := by
  induction rest generalizing done state with
  | nil => exact ⟨[], by simpa [pass] using start, .nil, by simp [pass]⟩
  | cons equation rest ih =>
      obtain ⟨absent, distinct_rest⟩ := List.nodup_cons.mp distinct
      obtain ⟨equation_mem, equation_fresh⟩ := fresh equation List.mem_cons_self
      have fresh_rest : ∀ other ∈ rest, other ∈ pending ∧ other ∉ done :=
        fun other member => fresh other (List.mem_cons_of_mem equation member)
      rcases attempt : step equation state with ⟨result, next⟩
      cases result with
      | ok _ =>
          have fresh_next : ∀ other ∈ rest, other ∈ pending ∧ other ∉ done ++ [equation] := by
            intro other member
            refine ⟨(fresh_rest other member).1, ?_⟩
            simp only [List.mem_append, List.mem_singleton, not_or]
            exact ⟨(fresh_rest other member).2, fun equal => absent (equal ▸ member)⟩
          obtain ⟨now, holds_now, perm, _⟩ :=
            ih (kept.success start equation_mem equation_fresh attempt) distinct_rest fresh_next
          simp only [pass, attempt]
          refine ⟨equation :: now, by simpa using holds_now, perm.cons equation, ?_⟩
          intro length_eq
          have lengths := perm.length_eq
          simp only [List.length_append, List.length_map, List.length_cons] at lengths length_eq
          omega
      | error error =>
          obtain ⟨now, holds_now, perm, stalled⟩ :=
            ih (kept.failure start equation_mem equation_fresh attempt) distinct_rest fresh_rest
          simp only [pass, attempt]
          refine ⟨now, holds_now, ?_, ?_⟩
          · rw [List.map_cons]
            exact List.perm_middle.trans (perm.cons equation)
          · intro length_eq entry member
            have length_rest : (pass step rest next).1.length = rest.length := by
              simpa using length_eq
            have now_eq : now = [] := by
              have lengths := perm.length_eq
              simp only [List.length_append, List.length_map] at lengths
              exact List.length_eq_zero_iff.mp (by omega)
            rcases List.mem_cons.mp member with rfl | member
            · exact ⟨state, next, by simpa [now_eq] using start, attempt⟩
            · exact stalled length_rest entry member

-- `last` is looked at only where no pass follows, so only there does it have to be known.
private theorem passes_kept (kept : Kept step pending holds) (limit iterations : Nat)
    (last : Bindings EvalError) (rest : List Equation) {done : List Equation} {state : σ}
    (start : holds done state) (distinct : pending.Nodup) (division : (done ++ rest).Perm pending)
    (last_eq : limit = 0 ∨ rest = [] →
      ∃ failed : List (Equation × EvalError), failed.map Prod.fst = rest ∧ last = failures failed) :
    ∃ done' failed,
      holds done' (passes step limit iterations last rest state).2 ∧
        (done' ++ failed.map Prod.fst).Perm pending ∧
        (passes step limit iterations last rest state).1.unresolved = failures failed ∧
        (rest.length ≤ limit → ∀ entry ∈ failed, FailsAt step holds done' entry) := by
  induction limit generalizing iterations last rest done state with
  | zero =>
      obtain ⟨failed, rest_eq, rfl⟩ := last_eq (.inl rfl)
      refine ⟨done, failed, start, rest_eq ▸ division, rfl, ?_⟩
      intro bound entry member
      have lengths := congrArg List.length rest_eq
      rw [List.length_map] at lengths
      have empty : failed = [] := List.length_eq_zero_iff.mp (by omega)
      simp [empty] at member
  | succ limit ih =>
      simp only [passes]
      split
      · next empty =>
        obtain ⟨failed, rest_eq, rfl⟩ := last_eq (.inr (List.isEmpty_iff.mp empty))
        refine ⟨done, failed, start, rest_eq ▸ division, rfl, ?_⟩
        intro _ entry member
        rw [List.isEmpty_iff.mp empty, List.map_eq_nil_iff] at rest_eq
        simp [rest_eq] at member
      · obtain ⟨_, distinct_rest, apart⟩ := List.nodup_append.mp (division.symm.nodup distinct)
        have fresh : ∀ equation ∈ rest, equation ∈ pending ∧ equation ∉ done :=
          fun equation member =>
            ⟨division.mem_iff.mp (List.mem_append_right done member),
              fun resolved => apart equation resolved equation member rfl⟩
        obtain ⟨now, holds_now, perm, stalled⟩ := pass_kept kept rest start distinct_rest fresh
        have division_now :
            ((done ++ now) ++ (pass step rest state).1.map Prod.fst).Perm pending := by
          rw [List.append_assoc]
          exact (perm.append_left done).trans division
        split
        · next length_eq =>
          exact ⟨done ++ now, _, holds_now, division_now, rfl, fun _ => stalled length_eq⟩
        · next length_ne =>
          obtain ⟨done', failed, holds_end, division_end, unresolved_eq, fails⟩ :=
            ih (iterations + 1) _ _ holds_now division_now fun _ => ⟨_, rfl, rfl⟩
          refine ⟨done', failed, holds_end, division_end, unresolved_eq, ?_⟩
          intro bound
          have lengths := perm.length_eq
          simp only [List.length_append, List.length_map] at lengths length_ne fails
          exact fails (by omega)

/-- What attempts keep holds at the end of a resolution.  The pending equations are then divided
into resolved ones and ones listed with their last failures, and within a sufficient limit the
latter failed when nothing more was to be resolved. -/
theorem solve_kept (kept : Kept step pending holds) {limit : Nat} (limit_pos : 0 < limit)
    {state : σ} (start : holds [] state) (distinct : pending.Nodup) :
    ∃ done failed,
      holds done (solve step limit pending state).2 ∧
        (done ++ failed.map Prod.fst).Perm pending ∧
        (solve step limit pending state).1.unresolved = failures failed ∧
        (pending.length ≤ limit → ∀ entry ∈ failed, FailsAt step holds done entry) := by
  apply passes_kept kept limit 0 .empty pending start distinct (.refl _)
  rintro (limit_eq | pending_eq)
  · omega
  · exact ⟨[], pending_eq.symm, rfl⟩

/-! ## Attempts that change nothing when they fail -/

/-- Attempts at pending equations keep a relation when they succeed and change nothing when they
fail. -/
structure Steady (step : Step σ) (pending : List Equation) (holds : List Equation → σ → Prop) :
    Prop where
  /-- A success keeps the relation with one more resolved equation. -/
  success : ∀ {done : List Equation} {state next : σ} {equation : Equation},
    holds done state → equation ∈ pending → equation ∉ done →
      step equation state = (.ok (), next) → holds (done ++ [equation]) next
  /-- A failure changes nothing. -/
  failure : ∀ {done : List Equation} {state next : σ} {equation : Equation} {error : EvalError},
    holds done state → equation ∈ pending → equation ∉ done →
      step equation state = (.error error, next) → next = state

/-- How a resolution divides the pending equations: `done` are resolved, and `failed` are not and
come with their last failures. -/
structure Divides (step : Step σ) (limit : Nat) (pending : List Equation) (state : σ)
    (done : List Equation) (failed : List (Equation × EvalError)) : Prop where
  /-- Every pending equation is on one side. -/
  perm : (done ++ failed.map Prod.fst).Perm pending
  /-- The resolved equations are those with a successful attempt. -/
  mem_done_iff : ∀ equation,
    equation ∈ done ↔ (equation, .ok ()) ∈ calls step limit pending state
  /-- The others are listed with their failures. -/
  unresolved_eq : (solve step limit pending state).1.unresolved = failures failed
  /-- Within a sufficient limit they fail in what the resolution leaves behind. -/
  fails : pending.length ≤ limit → ∀ entry ∈ failed,
    step entry.1 (solve step limit pending state).2 =
      (.error entry.2, (solve step limit pending state).2)

/-- The state after successful attempts at some equations. -/
private def replay (step : Step σ) (state : σ) (done : List Equation) : σ :=
  done.foldl (fun state equation => (step equation state).2) state

-- The record tells the resolved equations, and they determine the state.
private def Tracked (step : Step σ) (state : σ) (holds : List Equation → σ → Prop)
    (done : List Equation) (entry : σ × List (Equation × Except EvalError Unit)) : Prop :=
  holds done entry.1 ∧ entry.1 = replay step state done ∧
    ∀ equation, equation ∈ done ↔ (equation, .ok ()) ∈ entry.2

private theorem kept_tracked (steady : Steady step pending holds) (state : σ) :
    Kept (recorded step) pending (Tracked step state holds) where
  success := by
    rintro done ⟨before, record⟩ next equation ⟨holds_before, before_eq, record_iff⟩ member fresh
      attempt
    obtain ⟨after, attempt_eq, rfl⟩ := exists_of_recorded attempt
    refine ⟨steady.success holds_before member fresh attempt_eq, ?_, ?_⟩
    · have last : replay step state (done ++ [equation]) =
          (step equation (replay step state done)).2 := by
        rw [replay, List.foldl_append, List.foldl_cons, List.foldl_nil, ← replay]
      rw [last, ← before_eq, attempt_eq]
    · intro other
      simp only [List.mem_append, List.mem_singleton, record_iff, Prod.mk.injEq, and_true]
  failure := by
    rintro done ⟨before, record⟩ next equation error ⟨holds_before, before_eq, record_iff⟩ member
      fresh attempt
    obtain ⟨after, attempt_eq, rfl⟩ := exists_of_recorded attempt
    obtain rfl := steady.failure holds_before member fresh attempt_eq
    refine ⟨holds_before, before_eq, ?_⟩
    intro other
    rw [record_iff]
    simp

/-- A resolution by attempts that change nothing when they fail divides the pending equations, and
what successes keep holds of the resolved ones. -/
theorem exists_divides (steady : Steady step pending holds) {limit : Nat} (limit_pos : 0 < limit)
    {state : σ} (start : holds [] state) (distinct : pending.Nodup) :
    ∃ done failed, holds done (solve step limit pending state).2 ∧
      Divides step limit pending state done failed := by
  have start_tracked : Tracked step state holds [] (state, []) := ⟨start, rfl, by simp⟩
  obtain ⟨done, failed, ⟨holds_end, end_eq, record_iff⟩, perm, unresolved_eq, fails⟩ :=
    solve_kept (kept_tracked steady state) limit_pos start_tracked distinct
  obtain ⟨resolution_eq, state_eq⟩ := solve_recorded step limit pending state
  rw [state_eq] at holds_end end_eq
  rw [resolution_eq] at unresolved_eq
  refine ⟨done, failed, holds_end, perm, record_iff, unresolved_eq, ?_⟩
  intro bound entry member
  obtain ⟨⟨before, record⟩, _, ⟨holds_before, before_eq, _⟩, attempt⟩ := fails bound entry member
  obtain ⟨after, attempt_eq, rfl⟩ := exists_of_recorded attempt
  have entry_mem : entry.1 ∈ failed.map Prod.fst := List.mem_map_of_mem member
  have entry_pending : entry.1 ∈ pending := perm.mem_iff.mp (List.mem_append_right done entry_mem)
  have entry_fresh : entry.1 ∉ done := by
    intro resolved
    obtain ⟨_, _, apart⟩ := List.nodup_append.mp (perm.symm.nodup distinct)
    exact apart entry.1 resolved entry.1 entry_mem rfl
  obtain rfl := steady.failure holds_before entry_pending entry_fresh attempt_eq
  rw [end_eq, ← before_eq]
  exact attempt_eq

namespace Divides

variable {limit : Nat} {state : σ} {done : List Equation} {failed : List (Equation × EvalError)}

theorem nodup_targets (divides : Divides step limit pending state done failed)
    (distinct : (pending.map Equation.target).Nodup) :
    ((done ++ failed.map Prod.fst).map Equation.target).Nodup :=
  (divides.perm.map Equation.target).symm.nodup distinct

theorem nodup_failed_targets (divides : Divides step limit pending state done failed)
    (distinct : (pending.map Equation.target).Nodup) :
    ((failed.map fun entry => (entry.1.target, entry.2)).map Prod.fst).Nodup := by
  have both := divides.nodup_targets distinct
  rw [List.map_append] at both
  simpa [List.map_map, Function.comp_def] using (List.nodup_append.mp both).2.1

theorem get?_unresolved (divides : Divides step limit pending state done failed)
    (distinct : (pending.map Equation.target).Nodup) (name : String) (error : EvalError) :
    (solve step limit pending state).1.unresolved.get? name = some error ↔
      ∃ equation, (equation, error) ∈ failed ∧ equation.target = name := by
  rw [divides.unresolved_eq, failures,
    Bindings.get?_ofList_eq_some_iff (divides.nodup_failed_targets distinct)]
  simp only [List.mem_map, Prod.mk.injEq]
  constructor
  · rintro ⟨⟨equation, error'⟩, member, target_eq, rfl⟩
    exact ⟨equation, member, target_eq⟩
  · rintro ⟨equation, member, target_eq⟩
    exact ⟨(equation, error), member, target_eq, rfl⟩

/-- The unresolved names are the variables of the pending equations that are not resolved. -/
theorem mem_names_unresolved (divides : Divides step limit pending state done failed)
    (distinct : (pending.map Equation.target).Nodup) (name : String) :
    name ∈ (solve step limit pending state).1.unresolved.names ↔
      ∃ equation ∈ pending, equation ∉ done ∧ equation.target = name := by
  have distinct_pending : (done ++ failed.map Prod.fst).Nodup :=
    List.Nodup.of_map _ (divides.nodup_targets distinct)
  obtain ⟨_, _, apart⟩ := List.nodup_append.mp distinct_pending
  rw [Bindings.mem_names_iff]
  constructor
  · rintro ⟨error, found⟩
    obtain ⟨equation, member, target_eq⟩ := (divides.get?_unresolved distinct name error).mp found
    have listed : equation ∈ failed.map Prod.fst := List.mem_map_of_mem member
    exact ⟨equation, divides.perm.mem_iff.mp (List.mem_append_right done listed),
      fun resolved => apart equation resolved equation listed rfl, target_eq⟩
  · rintro ⟨equation, member, fresh, target_eq⟩
    have listed : equation ∈ failed.map Prod.fst :=
      (List.mem_append.mp (divides.perm.mem_iff.mpr member)).resolve_left fresh
    obtain ⟨⟨_, error⟩, entry_mem, rfl⟩ := List.mem_map.mp listed
    exact ⟨error, (divides.get?_unresolved distinct name error).mpr ⟨_, entry_mem, target_eq⟩⟩

end Divides

end Solver

end EconModel
