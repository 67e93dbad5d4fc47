import EconModel.Proofs.Solver.Accounting
import EconModel.Proofs.Solver.Ending
import EconModel.Proofs.Solver.Ranks

/-!
# The limit of a resolution

A resolution with a higher limit makes the passes of one with a lower limit first.  So it resolves
whatever the latter resolves, with the same values, and no limit from the number of equations on
makes a difference.  A pass resolves at least the equations of the next rank, in whatever order it
attempts them, because what it sees extends the layer of the rank before.
-/

namespace EconModel

namespace Solver

/-! ## Passes under different limits -/

section Passes

variable {σ : Type} {step : Step σ} {limit limit' : Nat} {pending : List Equation} {state : σ}

/-- With a higher limit the same passes are made first. -/
theorem rounds_prefix (step : Step σ) (le : limit ≤ limit') (pending : List Equation) (state : σ) :
    rounds step limit pending state <+: rounds step limit' pending state := by
  induction limit generalizing limit' pending state with
  | zero => exact List.nil_prefix
  | succ limit ih =>
      obtain ⟨limit', rfl⟩ := Nat.exists_eq_add_of_lt le
      rw [rounds, rounds]
      split
      · exact List.nil_prefix
      · split
        · exact List.prefix_rfl
        · exact List.cons_prefix_cons.mpr ⟨rfl, ih (Nat.le_add_right limit limit') _ _⟩

/-- From the number of equations on the limit makes no difference. -/
theorem rounds_eq_of_length_le (step : Step σ) (sufficient : pending.length ≤ limit)
    (sufficient' : pending.length ≤ limit') (state : σ) :
    rounds step limit pending state = rounds step limit' pending state := by
  induction limit generalizing limit' pending state with
  | zero =>
      rw [List.length_eq_zero_iff.mp (Nat.le_zero.mp sufficient)]
      cases limit' <;> rfl
  | succ limit ih =>
      cases limit' with
      | zero =>
          rw [List.length_eq_zero_iff.mp (Nat.le_zero.mp sufficient')]
          rfl
      | succ limit' =>
          have failed_le := length_failedCalls_le (attemptAll step pending state).1
          have attempted := congrArg List.length (map_fst_attemptAll step pending state)
          rw [List.length_map] at attempted
          rw [rounds, rounds]
          split
          · rfl
          · split
            · rfl
            · next some_resolved =>
              rw [ih] <;> rw [List.length_map] <;> omega

theorem solve_eq_of_length_le (step : Step σ) (sufficient : pending.length ≤ limit)
    (sufficient' : pending.length ≤ limit') (state : σ) :
    solve step limit pending state = solve step limit' pending state := by
  rw [solve_eq, solve_eq, rounds_eq_of_length_le step sufficient sufficient']

/-! ## Attempts that keep a relation -/

/-- The equations of the calls that succeeded. -/
def successes : List Call → List Equation
  | [] => []
  | (equation, .ok _) :: rest => equation :: successes rest
  | (_, .error _) :: rest => successes rest

theorem mem_successes_iff (calls : List Call) (equation : Equation) :
    equation ∈ successes calls ↔ Succeeds calls equation := by
  induction calls with
  | nil => simp [successes, Succeeds]
  | cons call rest ih =>
      rw [Succeeds] at ih ⊢
      obtain ⟨other, _ | _⟩ := call <;> simp [successes, ih]

/-- No equation is called again after it has succeeded. -/
def Proper (calls : List Call) : Prop :=
  calls.Pairwise fun earlier later => earlier.2 = .ok () → later.1 ≠ earlier.1

theorem Course.proper {passes : List (List Call)} (course : Course limit pending passes)
    (distinct : pending.Nodup) : Proper passes.flatten := by
  have proper_round {round : List Call} (distinct_round : (round.map Prod.fst).Nodup) :
      Proper round :=
    (List.pairwise_map.mp distinct_round).imp fun apart _ equal => apart equal.symm
  induction course with
  | exhausted | finished => exact .nil
  | stalled _ attempted _ =>
      rw [List.flatten_singleton]
      exact proper_round (attempted.symm ▸ distinct)
  | advanced _ attempted _ rest ih =>
      have distinct_first := attempted.symm ▸ distinct
      refine List.pairwise_append.mpr ⟨proper_round distinct_first,
        ih (distinct_first.sublist (map_fst_failedCalls_sublist _)), ?_⟩
      rintro ⟨equation, _⟩ called ⟨other, _⟩ called_later rfl rfl
      obtain ⟨round, round_mem, called_round⟩ := List.mem_flatten.mp called_later
      have failed := (rest.sublist round_mem).subset (List.mem_map_of_mem called_round)
      exact ((mem_map_fst_failedCalls_iff distinct_first other).mp failed).2 called

/-- Calls after others are made in what the latter left behind. -/
theorem attemptAll_split {equations : List Equation} {before after : List Call}
    (calls_eq : (attemptAll step equations state).1 = before ++ after) :
    (attemptAll step (before.map Prod.fst) state).1 = before ∧
      (attemptAll step (after.map Prod.fst)
        (attemptAll step (before.map Prod.fst) state).2).1 = after := by
  have attempted := map_fst_attemptAll step equations state
  have length_eq := congrArg List.length (map_fst_attemptAll step (before.map Prod.fst) state)
  rw [List.length_map, List.length_map] at length_eq
  rw [calls_eq, List.map_append] at attempted
  rw [← attempted, attemptAll_append] at calls_eq
  exact List.append_inj calls_eq length_eq

variable {holds : List Equation → σ → Prop}

/-- What successful attempts keep holds after proper calls. -/
theorem Steady.attemptAll (steady : Steady step pending holds) {equations done : List Equation}
    (start : holds done state) (subset : ∀ equation ∈ equations, equation ∈ pending)
    (fresh : ∀ equation ∈ equations, equation ∉ done)
    (proper : Proper (attemptAll step equations state).1) :
    holds (done ++ successes (attemptAll step equations state).1)
      (attemptAll step equations state).2 := by
  induction equations generalizing done state with
  | nil => simpa [Solver.attemptAll, successes] using start
  | cons equation rest ih =>
      have member := subset equation List.mem_cons_self
      have fresh_here := fresh equation List.mem_cons_self
      have subset_rest := fun other member => subset other (List.mem_cons_of_mem equation member)
      have fresh_rest := fun other member => fresh other (List.mem_cons_of_mem equation member)
      obtain ⟨apart, proper_rest⟩ := List.pairwise_cons.mp proper
      rcases attempt : step equation state with ⟨_ | _, next⟩
      · obtain rfl := steady.failure start member fresh_here attempt
        simp only [attempt] at proper_rest
        simpa only [Solver.attemptAll, attempt, successes] using
          ih start subset_rest fresh_rest proper_rest
      · simp only [attempt] at apart proper_rest
        have fresh_next : ∀ other ∈ rest, other ∉ done ++ [equation] := by
          intro other other_mem resolved
          rcases List.mem_append.mp resolved with earlier | here
          · exact fresh_rest other other_mem earlier
          · rw [← map_fst_attemptAll step rest next] at other_mem
            obtain ⟨call, call_mem, rfl⟩ := List.mem_map.mp other_mem
            exact apart call call_mem trivial (List.mem_singleton.mp here)
        have holds_rest := ih (steady.success start member fresh_here attempt) subset_rest
          fresh_next proper_rest
        simpa only [Solver.attemptAll, attempt, successes, List.append_assoc,
          List.singleton_append] using holds_rest

/-! ## Resolved equations -/

/-- A resolution resolves a pending equation. -/
def Resolves (step : Step σ) (limit : Nat) (pending : List Equation) (state : σ)
    (equation : Equation) : Prop :=
  equation ∈ pending ∧ equation.target ∉ (solve step limit pending state).1.unresolved.names

theorem resolves_iff (limit_pos : 0 < limit) (distinct : (pending.map Equation.target).Nodup)
    {equation : Equation} : Resolves step limit pending state equation ↔
      equation ∈ pending ∧ Succeeds (rounds step limit pending state).flatten equation := by
  refine and_congr_right fun member => ?_
  have some_rounds := rounds_ne_nil step limit_pos (List.ne_nil_of_mem member) state
  obtain ⟨earlier, last, rounds_eq⟩ := (List.eq_nil_or_concat _).resolve_left some_rounds
  rw [List.concat_eq_append] at rounds_eq
  have failed_iff :=
    (course_rounds step limit pending state).mem_failed_iff (.of_map _ distinct) rounds_eq
  rw [Bindings.names, entries_unresolved distinct rounds_eq, rounds_eq, List.map_map, ← not_iff_not,
    not_not]
  constructor
  · intro listed
    obtain ⟨⟨other, error⟩, failed, target_eq⟩ := List.mem_map.mp listed
    obtain ⟨other_mem, not_succeeded⟩ := (failed_iff other).mp (List.mem_map_of_mem failed)
    exact List.inj_on_of_nodup_map distinct other_mem member target_eq ▸ not_succeeded
  · intro not_succeeded
    obtain ⟨entry, failed, rfl⟩ := List.mem_map.mp ((failed_iff _).mpr ⟨member, not_succeeded⟩)
    exact List.mem_map_of_mem failed

end Passes

/-! ## Attempts that keep values -/

section Keeping

variable {σ : Type} {place : Place} {view : σ → Context} {step : Step (σ × List Diagnostic)}
  {limit limit' rank : Nat} {pending order : List Equation} {start : σ} {equation : Equation}

/-- An attempt at an equation that is not resolved yet only adds to the context. -/
theorem Keeps.extends_step (keeps : Keeps place view step) {base : Context} {done : List Equation}
    {entry : σ × List Diagnostic} (ready : place.Ready pending base)
    (stands : Stands place view pending base done entry) (member : equation ∈ pending)
    (fresh : equation ∉ done) : (view entry.1).Extends (view (step equation entry).2.1) := by
  obtain ⟨state, diagnostics⟩ := entry
  cases found : ((view state).evalFinite equation.expr).result with
  | error error =>
      rw [keeps.failure diagnostics found]
      exact .refl _
  | ok value =>
      have writable := stands.settles.writable equation member
      obtain ⟨next, next_eq, attempt⟩ := keeps.success diagnostics writable found
      rw [attempt, next_eq]
      exact place.extends_put value writable (stands.settles.read_eq_blank ready member fresh)

/-- The context that is seen settles the equations resolved so far, and it extends an earlier
one. -/
structure Above (place : Place) (view : σ → Context) (pending : List Equation)
    (base low : Context) (done : List Equation) (entry : σ × List Diagnostic) : Prop where
  stands : Stands place view pending base done entry
  extension : low.Extends (view entry.1)

theorem Keeps.steady_above (keeps : Keeps place view step) {base : Context}
    (ready : place.Ready pending base) (low : Context) :
    Steady step pending (Above place view pending base low) where
  success above member fresh attempt := by
    have extension := keeps.extends_step ready above.stands member fresh
    rw [attempt] at extension
    exact ⟨(keeps.steady ready).success above.stands member fresh attempt,
      above.extension.trans extension⟩
  failure above := (keeps.steady ready).failure above.stands

/-- Between any two calls the context settles the equations that have succeeded, and later ones only
add to it. -/
theorem Keeps.above_split (keeps : Keeps place view step)
    (ready : place.Ready pending (view start)) (perm : order.Perm pending)
    {before after : List Call}
    (calls_eq : (rounds step limit order (start, [])).flatten = before ++ after) :
    Stands place view pending (view start) (successes before)
        (attemptAll step (before.map Prod.fst) (start, [])).2 ∧
      Above place view pending (view start)
        (view (attemptAll step (before.map Prod.fst) (start, [])).2.1)
        (successes before ++ successes after)
        (attemptAll step (after.map Prod.fst)
          (attemptAll step (before.map Prod.fst) (start, [])).2).2 := by
  have distinct : order.Nodup :=
    .of_map _ ((perm.map Equation.target).nodup_iff.mpr ready.distinct)
  have course := course_rounds step limit order (start, ([] : List Diagnostic))
  have calls_made := attemptAll_rounds step limit order (start, ([] : List Diagnostic))
  obtain ⟨before_eq, after_eq⟩ := attemptAll_split (calls_made.trans calls_eq)
  have subset : ∀ call ∈ before ++ after, call.1 ∈ pending := by
    intro call called
    obtain ⟨round, round_mem, called_round⟩ := List.mem_flatten.mp (calls_eq ▸ called)
    exact perm.mem_iff.mp ((course.sublist round_mem).subset (List.mem_map_of_mem called_round))
  obtain ⟨proper_before, proper_after, apart⟩ :=
    List.pairwise_append.mp (calls_eq ▸ course.proper distinct)
  have stands := (keeps.steady ready).attemptAll (stands_start ready)
    (List.forall_mem_map.mpr fun call called => subset call (List.mem_append_left _ called))
    (fun _ _ => List.not_mem_nil) (before_eq.symm ▸ proper_before)
  rw [List.nil_append, before_eq] at stands
  have above := (keeps.steady_above ready _).attemptAll ⟨stands, .refl _⟩
    (List.forall_mem_map.mpr fun call called => subset call (List.mem_append_right _ called))
    (List.forall_mem_map.mpr fun call called resolved =>
      apart _ ((mem_successes_iff _ _).mp resolved) call called rfl rfl)
    (after_eq.symm ▸ proper_after)
  rw [after_eq] at above
  exact ⟨stands, above⟩

/-- Each call is made in a context that settles the equations that have succeeded before. -/
theorem Keeps.exists_stands (keeps : Keeps place view step)
    (ready : place.Ready pending (view start)) (perm : order.Perm pending)
    {before after : List Call} {result : Except EvalError Unit}
    (calls_eq : (rounds step limit order (start, [])).flatten =
      before ++ (equation, result) :: after) :
    ∃ entry, Stands place view pending (view start) (successes before) entry ∧
      (step equation entry).1 = result := by
  have calls_made := attemptAll_rounds step limit order (start, ([] : List Diagnostic))
  obtain ⟨_, after_eq⟩ := attemptAll_split (calls_made.trans calls_eq)
  obtain ⟨call_eq, _⟩ := List.cons.inj after_eq
  exact ⟨_, (keeps.above_split ready perm calls_eq).1, congrArg Prod.snd call_eq⟩

/-- If the equations up to a rank have succeeded before a pass, those of the next rank have
succeeded after it. -/
theorem Keeps.succeeds_next (keeps : Keeps place view step)
    (ready : place.Ready pending (view start)) (perm : order.Perm pending)
    {earlier later : List (List Call)} {round : List Call}
    (rounds_eq : rounds step limit order (start, []) = earlier ++ round :: later)
    (resolved : ∀ other ∈ pending, place.RankLE pending (view start) rank other →
      Succeeds earlier.flatten other)
    (member : equation ∈ pending) (ranked : place.RankLE pending (view start) (rank + 1) equation) :
    Succeeds (earlier ++ [round]).flatten equation := by
  have distinct : order.Nodup :=
    .of_map _ ((perm.map Equation.target).nodup_iff.mpr ready.distinct)
  have course := course_rounds step limit order (start, ([] : List Diagnostic))
  rw [List.flatten_append, List.flatten_singleton, Succeeds.append_iff, or_iff_not_imp_left]
  intro not_earlier
  have attempted := (course.mem_round_iff distinct rounds_eq equation).mpr
    ⟨perm.mem_iff.mpr member, not_earlier⟩
  obtain ⟨⟨equation, result⟩, called, rfl⟩ := List.mem_map.mp attempted
  obtain ⟨before, after, rfl⟩ := List.append_of_mem called
  have calls_eq : (rounds step limit order (start, [])).flatten =
      (earlier.flatten ++ before) ++ (equation, result) :: (after ++ later.flatten) := by
    rw [rounds_eq]
    simp
  obtain ⟨entry, stands, result_eq⟩ := keeps.exists_stands ready perm calls_eq
  -- What the call sees extends the layer in which the equation has a value.
  have below : (place.layer pending (view start) rank).Extends (view entry.1) := by
    refine stands.settles.layer_extends ready fun other other_mem other_ranked => ?_
    exact (mem_successes_iff _ _).mpr
      (Succeeds.append_iff.mpr (.inl (resolved other other_mem other_ranked)))
  obtain ⟨value, found⟩ := (Place.rankLE_succ_iff ready).mp ranked
  obtain ⟨next, _, attempt⟩ := keeps.success entry.2 (stands.settles.writable _ member)
    ((below.evalFinite_eq found).symm ▸ found)
  rw [attempt] at result_eq
  exact result_eq ▸ called

/-- The passes up to a rank resolve the equations up to it. -/
theorem Keeps.succeeds_of_rankLE (keeps : Keeps place view step)
    (ready : place.Ready pending (view start)) (perm : order.Perm pending) (within : rank ≤ limit)
    (member : equation ∈ pending) (ranked : place.RankLE pending (view start) rank equation) :
    Succeeds ((rounds step limit order (start, [])).take rank).flatten equation := by
  have distinct : order.Nodup :=
    .of_map _ ((perm.map Equation.target).nodup_iff.mpr ready.distinct)
  have course := course_rounds step limit order (start, ([] : List Diagnostic))
  induction rank generalizing equation with
  | zero =>
      obtain ⟨lower, below, _⟩ := ranked
      exact (Nat.not_lt_zero lower below).elim
  | succ rank ih =>
      have resolved := fun other other_mem other_ranked =>
        @ih other (Nat.le_of_succ_le within) other_mem other_ranked
      rcases Nat.lt_or_ge rank (rounds step limit order (start, [])).length with more | no_more
      · have rounds_eq := (List.take_append_drop rank (rounds step limit order (start, []))).symm
        rw [List.drop_eq_getElem_cons more] at rounds_eq
        rw [List.take_succ_eq_append_getElem more]
        exact keeps.succeeds_next ready perm rounds_eq resolved member ranked
      · -- Fewer passes are made, so the last of them leaves nothing or resolves nothing.
        have order_ne : order ≠ [] := List.ne_nil_of_mem (perm.mem_iff.mpr member)
        have some_rounds := rounds_ne_nil step (Nat.zero_lt_of_lt within) order_ne (start, [])
        obtain ⟨earlier, last, rounds_eq⟩ := (List.eq_nil_or_concat _).resolve_left some_rounds
        rw [List.concat_eq_append] at rounds_eq
        simp only [List.take_of_length_le no_more] at resolved
        rw [List.take_of_length_le (Nat.le_succ_of_le no_more)]
        rcases (course.ends_iff rounds_eq).mp rfl with none_left | none_resolved | at_limit
        · rw [rounds_eq]
          exact (course.failedCalls_eq_nil_iff distinct rounds_eq).mp none_left equation
            (perm.mem_iff.mpr member)
        · rw [rounds_eq] at resolved ⊢
          refine keeps.succeeds_next ready perm rounds_eq ?_ member ranked
          intro other other_mem other_ranked
          have succeeded := resolved other other_mem other_ranked
          rw [List.flatten_append, List.flatten_singleton, Succeeds.append_iff] at succeeded
          exact succeeded.resolve_right (none_resolved other)
        · rw [rounds_eq, List.length_append, List.length_singleton] at no_more
          omega

/-! ## Fair limits -/

/-- The limit of a resolution matters only as far as it cuts the resolution short, whatever the
order of the equations. -/
structure FairLimit (place : Place) (view : σ → Context) (step : Step (σ × List Diagnostic))
    (pending : List Equation) (start : σ) : Prop where
  /-- A higher limit resolves more equations, and the others with the same values. -/
  monotone : ∀ {limit limit' : Nat}, 1 ≤ limit → limit ≤ limit' → ∀ {equation : Equation},
    Resolves step limit pending (start, []) equation →
      Resolves step limit' pending (start, []) equation ∧ ∃ value,
        place.read (ending view step limit pending start) equation.target = some value ∧
          place.read (ending view step limit' pending start) equation.target = some value
  /-- As many passes as its rank resolve an equation. -/
  ranked : ∀ {limit : Nat}, 1 ≤ limit → ∀ {order : List Equation}, order.Perm pending →
    ∀ equation ∈ pending, place.RankLE pending (view start) limit equation →
      Resolves step limit order (start, []) equation
  /-- The limit can be as high as the number of equations, or higher. -/
  sufficient : ∀ {limit limit' : Nat}, pending.length ≤ limit → pending.length ≤ limit' →
    solve step limit pending (start, []) = solve step limit' pending (start, [])

theorem ending_eq (view : σ → Context) (step : Step (σ × List Diagnostic)) (limit : Nat)
    (pending : List Equation) (start : σ) : ending view step limit pending start =
      view (attemptAll step ((rounds step limit pending (start, [])).flatten.map Prod.fst)
        (start, [])).2.1 := by
  rw [ending, solve_eq]

/-- The value of an equation that is resolved under a limit is kept under every higher one. -/
theorem Keeps.exists_value (keeps : Keeps place view step)
    (ready : place.Ready pending (view start)) (le : limit ≤ limit')
    (resolved : Succeeds (rounds step limit pending (start, [])).flatten equation) :
    ∃ value, place.read (ending view step limit pending start) equation.target = some value ∧
      place.read (ending view step limit' pending start) equation.target = some value := by
  obtain ⟨more, rounds_eq⟩ := rounds_prefix step le pending (start, ([] : List Diagnostic))
  have calls_eq := congrArg List.flatten rounds_eq.symm
  rw [List.flatten_append] at calls_eq
  obtain ⟨stands, above⟩ := keeps.above_split ready (.refl pending) calls_eq
  rw [ending_eq, ending_eq, calls_eq, List.map_append, attemptAll_append]
  have succeeded := (mem_successes_iff _ equation).mpr resolved
  obtain ⟨value, found, read_eq⟩ := stands.settles.solved equation succeeded
  obtain ⟨value', found', read_eq'⟩ :=
    above.stands.settles.solved equation (List.mem_append_left _ succeeded)
  rw [above.extension.evalFinite_eq found, found] at found'
  cases found'
  exact ⟨value, read_eq, read_eq'⟩

theorem Keeps.fairLimit (keeps : Keeps place view step)
    (ready : place.Ready pending (view start)) : FairLimit place view step pending start where
  monotone {limit limit'} limit_pos le {equation} resolved := by
    obtain ⟨member, succeeded⟩ := (resolves_iff limit_pos ready.distinct).mp resolved
    obtain ⟨more, rounds_eq⟩ := rounds_prefix step le pending (start, ([] : List Diagnostic))
    refine ⟨(resolves_iff (Nat.le_trans limit_pos le) ready.distinct).mpr ⟨member, ?_⟩,
      keeps.exists_value ready le succeeded⟩
    rw [← rounds_eq, List.flatten_append]
    exact Succeeds.append_iff.mpr (.inl succeeded)
  ranked {limit} limit_pos {order} perm equation member ranked := by
    have distinct := (perm.map Equation.target).nodup_iff.mpr ready.distinct
    have succeeded := keeps.succeeds_of_rankLE ready perm (Nat.le_refl limit) member ranked
    have course := course_rounds step limit order (start, ([] : List Diagnostic))
    rw [List.take_of_length_le course.length_le_limit] at succeeded
    exact (resolves_iff limit_pos distinct).mpr ⟨perm.mem_iff.mpr member, succeeded⟩
  sufficient bound bound' := solve_eq_of_length_le step bound bound' (start, [])

end Keeping

end Solver

end EconModel
