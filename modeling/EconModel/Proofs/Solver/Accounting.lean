import EconModel.Proofs.Solver.Attempts
import Mathlib.Data.List.Chain

/-!
# The passes of a resolution

An attempt may answer differently each time it is made, so what a resolution comes to depends on
which attempts it makes, and when.  `Solver.rounds` splits them into passes.  The first pass
attempts every equation, and each later one exactly those that failed in the pass before, in the
same order; so an equation is attempted up to its first success and never after it.  This bounds the
number of passes, says where they end, and tells which equations stay unresolved with which
failures.
-/

namespace EconModel

namespace Solver

variable {σ : Type} {step : Step σ} {limit : Nat} {pending : List Equation} {state : σ}

/-! ## Attempts one after another -/

/-- An attempt with its result. -/
abbrev Call := Equation × Except EvalError Unit

/-- Attempts at equations one after another, and what they leave behind. -/
def attemptAll (step : Step σ) : List Equation → σ → List Call × σ
  | [], state => ([], state)
  | equation :: rest, state =>
      let attempt := step equation state
      let later := attemptAll step rest attempt.2
      ((equation, attempt.1) :: later.1, later.2)

/-- The calls that failed, with their failures. -/
def failedCalls : List Call → List (Equation × EvalError)
  | [] => []
  | (_, .ok _) :: rest => failedCalls rest
  | (equation, .error error) :: rest => (equation, error) :: failedCalls rest

theorem map_fst_attemptAll (step : Step σ) (equations : List Equation) (state : σ) :
    (attemptAll step equations state).1.map Prod.fst = equations := by
  induction equations generalizing state with
  | nil => rfl
  | cons equation rest ih => rw [attemptAll, List.map_cons, ih]

theorem attemptAll_append (step : Step σ) (early late : List Equation) (state : σ) :
    attemptAll step (early ++ late) state =
      ((attemptAll step early state).1 ++
          (attemptAll step late (attemptAll step early state).2).1,
        (attemptAll step late (attemptAll step early state).2).2) := by
  induction early generalizing state with
  | nil => rfl
  | cons equation rest ih =>
      rw [List.cons_append, attemptAll, attemptAll, ih, List.cons_append]

/-- Attempts that record themselves make the same calls and leave the same behind. -/
theorem attemptAll_recorded (step : Step σ) (equations : List Equation) (state : σ)
    (record : List Call) :
    attemptAll (recorded step) equations (state, record) =
      ((attemptAll step equations state).1,
        (attemptAll step equations state).2, record ++ (attemptAll step equations state).1) := by
  induction equations generalizing state record with
  | nil => rw [attemptAll, attemptAll, List.append_nil]
  | cons equation rest ih =>
      simp only [attemptAll, recorded_apply, ih, List.append_assoc, List.singleton_append]

/-- A pass makes its attempts one after another and lists those that failed. -/
theorem pass_eq (step : Step σ) (equations : List Equation) (state : σ) :
    pass step equations state =
      (failedCalls (attemptAll step equations state).1, (attemptAll step equations state).2) := by
  induction equations generalizing state with
  | nil => rfl
  | cons equation rest ih =>
      rcases attempt : step equation state with ⟨_ | _, next⟩ <;>
        simp only [pass, attemptAll, attempt, ih, failedCalls]

theorem map_fst_failedCalls_sublist (round : List Call) :
    ((failedCalls round).map Prod.fst).Sublist (round.map Prod.fst) := by
  induction round with
  | nil => exact .slnil
  | cons call rest ih =>
      obtain ⟨equation, _ | _⟩ := call
      · exact ih.cons_cons equation
      · exact ih.cons equation

/-- Some attempt at an equation succeeded. -/
def Succeeds (calls : List Call) (equation : Equation) : Prop := (equation, .ok ()) ∈ calls

theorem Succeeds.append_iff {early late : List Call} {equation : Equation} :
    Succeeds (early ++ late) equation ↔ Succeeds early equation ∨ Succeeds late equation :=
  List.mem_append

theorem mem_failedCalls_iff (round : List Call) (equation : Equation) (error : EvalError) :
    (equation, error) ∈ failedCalls round ↔ (equation, .error error) ∈ round := by
  induction round with
  | nil => simp [failedCalls]
  | cons call rest ih =>
      obtain ⟨other, _ | _⟩ := call <;> simp [failedCalls, ih]

/-- In a pass over distinct equations each one either failed or succeeded. -/
theorem mem_map_fst_failedCalls_iff {round : List Call} (distinct : (round.map Prod.fst).Nodup)
    (equation : Equation) : equation ∈ (failedCalls round).map Prod.fst ↔
      equation ∈ round.map Prod.fst ∧ ¬ Succeeds round equation := by
  constructor
  · intro member
    obtain ⟨⟨_, error⟩, failed, rfl⟩ := List.mem_map.mp member
    have called := (mem_failedCalls_iff round _ error).mp failed
    refine ⟨List.mem_map_of_mem called, fun succeeded => ?_⟩
    cases List.inj_on_of_nodup_map distinct called succeeded rfl
  · rintro ⟨member, not_succeeded⟩
    obtain ⟨⟨_, _ | _⟩, called, rfl⟩ := List.mem_map.mp member
    · next error => exact List.mem_map_of_mem ((mem_failedCalls_iff round _ error).mpr called)
    · exact (not_succeeded called).elim

theorem length_failedCalls_le (round : List Call) : (failedCalls round).length ≤ round.length := by
  have sublist := (map_fst_failedCalls_sublist round).length_le
  rwa [List.length_map, List.length_map] at sublist

/-- Nothing is resolved by a pass exactly if as many attempts fail as are made. -/
theorem length_failedCalls_eq_iff (round : List Call) :
    (failedCalls round).length = round.length ↔ ∀ equation, ¬ Succeeds round equation := by
  induction round with
  | nil => simp [failedCalls, Succeeds]
  | cons call rest ih =>
      obtain ⟨other, _ | _⟩ := call
      · simpa [failedCalls, Succeeds] using ih
      · have shorter := length_failedCalls_le rest
        refine iff_of_false ?_ fun none_resolved => none_resolved other List.mem_cons_self
        rw [failedCalls, List.length_cons]
        omega

/-! ## Passes one after another -/

/-- The passes of a resolution, each as its calls. -/
def rounds (step : Step σ) : (limit : Nat) → List Equation → σ → List (List Call)
  | 0, _, _ => []
  | limit + 1, pending, state =>
      if pending.isEmpty then []
      else
        if (failedCalls (attemptAll step pending state).1).length = pending.length then
          [(attemptAll step pending state).1]
        else
          (attemptAll step pending state).1 ::
            rounds step limit ((failedCalls (attemptAll step pending state).1).map Prod.fst)
              (attemptAll step pending state).2

theorem rounds_recorded (step : Step σ) (limit : Nat) (pending : List Equation) (state : σ)
    (record : List Call) :
    rounds (recorded step) limit pending (state, record) = rounds step limit pending state := by
  induction limit generalizing pending state record with
  | zero => rfl
  | succ limit ih => simp only [rounds, attemptAll_recorded, ih]

/-- The calls of the passes are made one after another. -/
theorem attemptAll_rounds (step : Step σ) (limit : Nat) (pending : List Equation) (state : σ) :
    (attemptAll step ((rounds step limit pending state).flatten.map Prod.fst) state).1 =
      (rounds step limit pending state).flatten := by
  induction limit generalizing pending state with
  | zero => rfl
  | succ limit ih =>
      rw [rounds]
      split
      · rfl
      · split
        · rw [List.flatten_singleton, map_fst_attemptAll]
        · rw [List.flatten_cons, List.map_append, map_fst_attemptAll, attemptAll_append, ih]

/-- What further passes come to. -/
theorem passes_eq (step : Step σ) (limit iterations : Nat) (last : Bindings EvalError)
    (pending : List Equation) (state : σ) :
    passes step limit iterations last pending state =
      (⟨iterations + (rounds step limit pending state).length,
          ((rounds step limit pending state).getLast?.map fun round =>
            failures (failedCalls round)).getD last⟩,
        (attemptAll step ((rounds step limit pending state).flatten.map Prod.fst) state).2) := by
  induction limit generalizing iterations last pending state with
  | zero => rfl
  | succ limit ih =>
      rw [passes, rounds]
      split
      · rfl
      · rw [pass_eq]
        dsimp only
        split
        · rw [List.flatten_singleton, map_fst_attemptAll]
          rfl
        · rw [ih, List.flatten_cons, List.map_append, map_fst_attemptAll, attemptAll_append,
            List.length_cons, Nat.add_assoc, Nat.add_comm 1, List.getLast?_cons]
          congr 2
          cases (rounds step limit _ _).getLast? <;> rfl

theorem solve_eq (step : Step σ) (limit : Nat) (pending : List Equation) (state : σ) :
    solve step limit pending state =
      (⟨(rounds step limit pending state).length,
          ((rounds step limit pending state).getLast?.map fun round =>
            failures (failedCalls round)).getD .empty⟩,
        (attemptAll step ((rounds step limit pending state).flatten.map Prod.fst) state).2) := by
  rw [solve, passes_eq, Nat.zero_add]

theorem calls_eq (step : Step σ) (limit : Nat) (pending : List Equation) (state : σ) :
    calls step limit pending state = (rounds step limit pending state).flatten := by
  rw [calls, solve_eq, rounds_recorded, attemptAll_recorded, attemptAll_rounds, List.nil_append]

/-! ## The course of the passes -/

/-- Passes over what is pending, of which at most `limit` are made. -/
inductive Course : (limit : Nat) → List Equation → List (List Call) → Prop where
  | exhausted {pending : List Equation} : Course 0 pending []
  | finished {limit : Nat} : Course limit [] []
  /-- A pass that resolves nothing is the last one. -/
  | stalled {limit : Nat} {pending : List Equation} {round : List Call} :
      pending ≠ [] → round.map Prod.fst = pending →
        (failedCalls round).length = round.length → Course (limit + 1) pending [round]
  /-- A pass that resolves something is followed by a pass over what is left. -/
  | advanced {limit : Nat} {pending : List Equation} {round : List Call}
      {later : List (List Call)} :
      pending ≠ [] → round.map Prod.fst = pending →
        (failedCalls round).length < round.length →
          Course limit ((failedCalls round).map Prod.fst) later →
            Course (limit + 1) pending (round :: later)

theorem course_rounds (step : Step σ) (limit : Nat) (pending : List Equation) (state : σ) :
    Course limit pending (rounds step limit pending state) := by
  induction limit generalizing pending state with
  | zero => exact .exhausted
  | succ limit ih =>
      have attempted := map_fst_attemptAll step pending state
      have length_eq := congrArg List.length attempted
      rw [List.length_map] at length_eq
      rw [rounds]
      split
      · next empty =>
        rw [List.isEmpty_iff.mp empty]
        exact .finished
      · next nonempty =>
        rw [List.isEmpty_iff] at nonempty
        split
        · next none_resolved =>
          exact .stalled nonempty attempted (none_resolved.trans length_eq.symm)
        · next some_resolved =>
          have shorter := length_failedCalls_le (attemptAll step pending state).1
          refine .advanced nonempty attempted ?_ (ih _ _)
          omega

namespace Course

variable {passes : List (List Call)}

theorem length_le_limit (course : Course limit pending passes) : passes.length ≤ limit := by
  induction course with
  | exhausted | finished => exact Nat.zero_le _
  | stalled => exact Nat.succ_le_succ (Nat.zero_le _)
  | advanced _ _ _ _ ih => exact Nat.succ_le_succ ih

theorem eq_nil_iff (course : Course limit pending passes) :
    passes = [] ↔ limit = 0 ∨ pending = [] := by
  cases course with
  | exhausted => simp
  | finished => simp
  | stalled nonempty => simp [nonempty]
  | advanced nonempty => simp [nonempty]

/-- Every pass but a last one that stalls resolves an equation. -/
theorem length_le_pending (course : Course limit pending passes) :
    passes.length ≤ pending.length := by
  induction course with
  | exhausted | finished => exact Nat.zero_le _
  | stalled nonempty => exact List.length_pos_iff.mpr nonempty
  | advanced _ attempted resolved _ ih =>
      rw [List.length_map] at ih
      rw [← attempted, List.length_map, List.length_cons]
      omega

/-- The first pass attempts all equations. -/
theorem head_eq (course : Course limit pending passes) {round : List Call}
    (first : passes.head? = some round) : round.map Prod.fst = pending := by
  cases course with
  | exhausted | finished => cases first
  | stalled _ attempted _ =>
      cases first
      exact attempted
  | advanced _ attempted _ _ =>
      cases first
      exact attempted

/-- A later pass attempts what failed in the pass before it. -/
theorem isChain (course : Course limit pending passes) :
    passes.IsChain fun round next => next.map Prod.fst = (failedCalls round).map Prod.fst := by
  induction course with
  | exhausted | finished => exact .nil
  | stalled => exact .singleton _
  | advanced _ _ _ rest ih =>
      refine ih.cons fun next first => ?_
      exact rest.head_eq first

/-- Every pass attempts pending equations in their order. -/
theorem sublist (course : Course limit pending passes) {round : List Call}
    (member : round ∈ passes) : (round.map Prod.fst).Sublist pending := by
  induction course with
  | exhausted | finished => cases member
  | stalled _ attempted _ =>
      rw [List.mem_singleton.mp member, attempted]
  | advanced _ attempted _ _ ih =>
      rcases List.mem_cons.mp member with rfl | member
      · rw [attempted]
      · exact (ih member).trans (attempted ▸ map_fst_failedCalls_sublist _)

/-- An equation is attempted in a pass exactly if it has not succeeded in an earlier one. -/
theorem mem_round_iff (course : Course limit pending passes) (distinct : pending.Nodup)
    {earlier later : List (List Call)} {round : List Call}
    (passes_eq : passes = earlier ++ round :: later) (equation : Equation) :
    equation ∈ round.map Prod.fst ↔
      equation ∈ pending ∧ ¬ Succeeds earlier.flatten equation := by
  induction course generalizing earlier with
  | exhausted | finished => simp at passes_eq
  | stalled _ attempted _ =>
      cases earlier with
      | nil =>
          cases passes_eq
          simp [attempted, Succeeds]
      | cons head earlier => simp at passes_eq
  | advanced _ attempted _ _ ih =>
      cases earlier with
      | nil =>
          cases passes_eq
          simp [attempted, Succeeds]
      | cons head earlier =>
          cases passes_eq
          have distinct_first := attempted.symm ▸ distinct
          rw [ih (distinct_first.sublist (map_fst_failedCalls_sublist _)) rfl,
            mem_map_fst_failedCalls_iff distinct_first, attempted, List.flatten_cons,
            Succeeds.append_iff, not_or, and_assoc]

/-- A pass is the last one exactly if it leaves nothing to attempt, resolves nothing, or is the last
one that the limit admits. -/
theorem ends_iff (course : Course limit pending passes) {earlier later : List (List Call)}
    {round : List Call} (passes_eq : passes = earlier ++ round :: later) :
    later = [] ↔ failedCalls round = [] ∨ (∀ equation, ¬ Succeeds round equation) ∨
      earlier.length + 1 = limit := by
  induction course generalizing earlier with
  | exhausted | finished => simp at passes_eq
  | stalled _ _ none_resolved =>
      cases earlier with
      | nil =>
          cases passes_eq
          exact iff_of_true rfl (.inr (.inl ((length_failedCalls_eq_iff _).mp none_resolved)))
      | cons head earlier => simp at passes_eq
  | advanced _ _ some_resolved rest ih =>
      cases earlier with
      | nil =>
          cases passes_eq
          rw [← length_failedCalls_eq_iff, or_iff_right some_resolved.ne, rest.eq_nil_iff,
            List.map_eq_nil_iff, or_comm, List.length_nil, Nat.add_right_cancel_iff,
            @eq_comm Nat 0]
      | cons head earlier =>
          cases passes_eq
          rw [ih rfl, List.length_cons, Nat.add_right_cancel_iff]

end Course

/-! ## The account of a resolution -/

/-- The last of the attempts at an equation has a result. -/
def LastAnswer (calls : List Call) (equation : Equation) (result : Except EvalError Unit) : Prop :=
  ∃ before after, calls = before ++ (equation, result) :: after ∧
    equation ∉ after.map Prod.fst

/-- The passes that a resolution makes, with what it comes to. -/
structure Account (step : Step σ) (limit : Nat) (pending : List Equation) (state : σ)
    (passes : List (List Call)) : Prop where
  /-- The attempts are those of the passes, one after another. -/
  calls_eq : calls step limit pending state = passes.flatten
  /-- Each attempt is made in what the attempts before it left behind, and the last one leaves
  behind what the resolution does. -/
  attempts : attemptAll step (passes.flatten.map Prod.fst) state =
    (passes.flatten, (solve step limit pending state).2)
  /-- The first pass attempts all equations. -/
  first : ∀ round, passes.head? = some round → round.map Prod.fst = pending
  /-- Each other pass attempts the equations that failed in the pass before it. -/
  next : passes.IsChain fun round next => next.map Prod.fst = (failedCalls round).map Prod.fst
  /-- An equation is attempted in a pass exactly if no earlier attempt at it succeeded. -/
  attempted_iff : ∀ earlier round later, passes = earlier ++ round :: later →
    ∀ equation, equation ∈ round.map Prod.fst ↔
      equation ∈ pending ∧ ¬ Succeeds earlier.flatten equation
  iterations_eq : (solve step limit pending state).1.iterations = passes.length
  iterations_pos : 0 < passes.length
  iterations_le : passes.length ≤ min limit pending.length
  /-- No pass follows exactly if every equation is resolved, the last pass resolved none, or the
  limit is reached. -/
  ends_iff : ∀ earlier round later, passes = earlier ++ round :: later →
    (later = [] ↔ (∀ equation ∈ pending, Succeeds (earlier ++ [round]).flatten equation) ∨
      (∀ equation, ¬ Succeeds round equation) ∨ (earlier ++ [round]).length = limit)
  /-- The unresolved equations are listed in their order, each with its last failure. -/
  unresolved_eq : ∃ failed : List (Equation × EvalError),
    (failed.map Prod.fst).Sublist pending ∧
      (solve step limit pending state).1.unresolved.entries =
        failed.map (fun entry => (entry.1.target, entry.2)) ∧
      ∀ equation error, (equation, error) ∈ failed ↔ equation ∈ pending ∧
        ¬ Succeeds passes.flatten equation ∧ LastAnswer passes.flatten equation (.error error)
  isConverged_iff : (solve step limit pending state).1.isConverged = true ↔
    ∀ equation ∈ pending, Succeeds passes.flatten equation

theorem LastAnswer.unique {calls : List Call} {equation : Equation}
    {result other : Except EvalError Unit} (answer : LastAnswer calls equation result)
    (answer' : LastAnswer calls equation other) : result = other := by
  obtain ⟨before, after, rfl, not_after⟩ := answer
  obtain ⟨before', after', calls_eq, not_after'⟩ := answer'
  rcases List.append_eq_append_iff.mp calls_eq with ⟨between, rfl, split⟩ | ⟨between, rfl, split⟩
  · cases between with
    | nil =>
        cases split
        rfl
    | cons call between =>
        cases split
        exact (not_after (by simp)).elim
  · cases between with
    | nil =>
        cases split
        rfl
    | cons call between =>
        cases split
        exact (not_after' (by simp)).elim

/-- In a pass over distinct equations an equation has one answer, which is its last one if no other
pass follows. -/
theorem lastAnswer_of_mem {earlier : List Call} {round : List Call}
    (distinct : (round.map Prod.fst).Nodup) {equation : Equation}
    {result : Except EvalError Unit} (answered : (equation, result) ∈ round) :
    LastAnswer (earlier ++ round) equation result := by
  obtain ⟨before, after, rfl⟩ := List.append_of_mem answered
  refine ⟨earlier ++ before, after, (List.append_assoc ..).symm, ?_⟩
  rw [List.map_append, List.map_cons] at distinct
  exact (List.nodup_cons.mp (List.nodup_append.mp distinct).2.1).1

namespace Course

variable {passes : List (List Call)}

/-- Exactly the equations that have not succeeded so far fail in a pass. -/
theorem mem_failed_iff (course : Course limit pending passes) (distinct : pending.Nodup)
    {earlier later : List (List Call)} {round : List Call}
    (passes_eq : passes = earlier ++ round :: later) (equation : Equation) :
    equation ∈ (failedCalls round).map Prod.fst ↔
      equation ∈ pending ∧ ¬ Succeeds (earlier ++ [round]).flatten equation := by
  have distinct_round : (round.map Prod.fst).Nodup :=
    distinct.sublist (course.sublist (passes_eq ▸ List.mem_append_right _ List.mem_cons_self))
  rw [mem_map_fst_failedCalls_iff distinct_round, course.mem_round_iff distinct passes_eq,
    List.flatten_append, List.flatten_singleton, Succeeds.append_iff, not_or, and_assoc]

/-- Nothing fails in a pass exactly if every equation has succeeded. -/
theorem failedCalls_eq_nil_iff (course : Course limit pending passes) (distinct : pending.Nodup)
    {earlier later : List (List Call)} {round : List Call}
    (passes_eq : passes = earlier ++ round :: later) : failedCalls round = [] ↔
      ∀ equation ∈ pending, Succeeds (earlier ++ [round]).flatten equation := by
  rw [← List.map_eq_nil_iff, List.eq_nil_iff_forall_not_mem]
  refine forall_congr' fun equation => ?_
  rw [course.mem_failed_iff distinct passes_eq, not_and, not_not]

/-- What fails in the last pass fails with its last answer. -/
theorem mem_failedCalls_last_iff {earlier : List (List Call)} {round : List Call}
    (course : Course limit pending (earlier ++ [round])) (distinct : pending.Nodup)
    (equation : Equation) (error : EvalError) :
    (equation, error) ∈ failedCalls round ↔
      equation ∈ pending ∧ ¬ Succeeds (earlier ++ [round]).flatten equation ∧
        LastAnswer (earlier ++ [round]).flatten equation (.error error) := by
  have failed_iff := course.mem_failed_iff distinct rfl equation
  have answer {result : Except EvalError Unit} (called : (equation, result) ∈ round) :
      LastAnswer (earlier ++ [round]).flatten equation result := by
    rw [List.flatten_append, List.flatten_singleton]
    exact lastAnswer_of_mem (distinct.sublist
      (course.sublist (List.mem_append_right _ (List.mem_singleton_self round)))) called
  constructor
  · intro failed
    obtain ⟨member, not_succeeded⟩ := failed_iff.mp (List.mem_map_of_mem failed)
    exact ⟨member, not_succeeded, answer ((mem_failedCalls_iff _ _ _).mp failed)⟩
  · rintro ⟨member, not_succeeded, last⟩
    obtain ⟨⟨_, error'⟩, failed, rfl⟩ := List.mem_map.mp (failed_iff.mpr ⟨member, not_succeeded⟩)
    cases last.unique (answer ((mem_failedCalls_iff _ _ _).mp failed))
    exact failed

end Course

theorem rounds_ne_nil (step : Step σ) (limit_pos : 0 < limit) (nonempty : pending ≠ [])
    (state : σ) : rounds step limit pending state ≠ [] := fun none =>
  ((course_rounds step limit pending state).eq_nil_iff.mp none).elim limit_pos.ne' nonempty

/-- The unresolved equations are those that fail in the last pass, in their order. -/
theorem entries_unresolved (distinct : (pending.map Equation.target).Nodup) {state : σ}
    {earlier : List (List Call)} {last : List Call}
    (rounds_eq : rounds step limit pending state = earlier ++ [last]) :
    (solve step limit pending state).1.unresolved.entries =
      (failedCalls last).map fun entry => (entry.1.target, entry.2) := by
  have course := course_rounds step limit pending state
  have sublist : ((failedCalls last).map Prod.fst).Sublist pending :=
    (map_fst_failedCalls_sublist last).trans
      (course.sublist (rounds_eq ▸ List.mem_append_right _ (List.mem_singleton_self last)))
  rw [solve_eq, rounds_eq, List.getLast?_concat]
  refine Bindings.entries_ofList ?_
  have distinct_failed := distinct.sublist (sublist.map Equation.target)
  simpa [List.map_map, Function.comp_def] using distinct_failed

theorem account_rounds (step : Step σ) (limit_pos : 0 < limit) (nonempty : pending ≠ [])
    (distinct : (pending.map Equation.target).Nodup) (state : σ) :
    Account step limit pending state (rounds step limit pending state) := by
  have distinct_pending : pending.Nodup := .of_map _ distinct
  have course := course_rounds step limit pending state
  have some_rounds := rounds_ne_nil step limit_pos nonempty state
  obtain ⟨earlier, last, rounds_eq⟩ := (List.eq_nil_or_concat _).resolve_left some_rounds
  rw [List.concat_eq_append] at rounds_eq
  have sublist_last : (last.map Prod.fst).Sublist pending :=
    course.sublist (rounds_eq ▸ List.mem_append_right _ (List.mem_singleton_self last))
  have entries_eq := entries_unresolved distinct rounds_eq
  have failed_iff := (rounds_eq ▸ course).mem_failedCalls_last_iff distinct_pending
  have none_failed_iff := course.failedCalls_eq_nil_iff distinct_pending rounds_eq
  exact {
    calls_eq := calls_eq step limit pending state
    attempts := by
      rw [solve_eq]
      exact Prod.ext (attemptAll_rounds step limit pending state) rfl
    first := fun round => course.head_eq
    next := course.isChain
    attempted_iff := fun earlier round later passes_eq =>
      course.mem_round_iff distinct_pending passes_eq
    iterations_eq := by rw [solve_eq]
    iterations_pos := List.length_pos_iff.mpr some_rounds
    iterations_le := Nat.le_min.mpr ⟨course.length_le_limit, course.length_le_pending⟩
    ends_iff := fun earlier round later passes_eq => by
      rw [course.ends_iff passes_eq, course.failedCalls_eq_nil_iff distinct_pending passes_eq,
        List.length_append, List.length_singleton]
    unresolved_eq := ⟨failedCalls last, (map_fst_failedCalls_sublist last).trans sublist_last,
      entries_eq, rounds_eq ▸ failed_iff⟩
    isConverged_iff := by
      rw [rounds_eq, ← none_failed_iff, Resolution.isConverged, Bindings.isEmpty, entries_eq,
        List.isEmpty_iff, List.map_eq_nil_iff] }

/-- What a resolution of equations for distinct variables does, whatever the attempts answer. -/
theorem solve_accounted (step : Step σ) (limit_pos : 0 < limit) (nonempty : pending ≠ [])
    (distinct : (pending.map Equation.target).Nodup) (state : σ) :
    ∃ passes, Account step limit pending state passes :=
  ⟨rounds step limit pending state, account_rounds step limit_pos nonempty distinct state⟩

-- The first attempt of all fails, so the second pass resolves what the first one left.
theorem solve_accounted_two_passes :
    let slow : Step Nat := fun equation attempts =>
      (if attempts = 0 then .error (.unknownIdentifier equation.target) else .ok (), attempts + 1)
    let pending := [Equation.ofExpr "x" .current (.ident "y"), .ofExpr "y" .current (.ident "x")]
    (∃ passes, Account slow 3 pending 0 passes) ∧ (solve slow 3 pending 0).1.iterations = 2 :=
  ⟨solve_accounted _ (by decide) (List.cons_ne_nil _ _) (by decide) 0, rfl⟩

end Solver

end EconModel
