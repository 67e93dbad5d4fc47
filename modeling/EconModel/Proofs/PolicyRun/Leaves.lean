import EconModel.Proofs.Evaluation.Failures
import EconModel.Proofs.PolicyRun
import Mathlib.Data.List.TakeWhile

/-!
# Actions as sequences of leaves

A block only puts its members in order.  So performing an action comes to performing its leaves, the
assignments and emissions in it, one after another.  The limit on blocks acts at one place: the
first block that stands inside as many others as the limit allows ends the sequence.  There is such
a block exactly if the depth of the action is above the limit.
-/

namespace EconModel

namespace Action

/-- An action that is no block. -/
inductive Leaf where
  | assign (target : String) (value : Expr)
  | emit (name : String) (arguments : Bindings Expr)

/-- The leaf that an action is. -/
def leaf? : Action → Option Leaf
  | .assign target value => some (.assign target value)
  | .emit name arguments => some (.emit name arguments)
  | .block _ => none

/-- The leaves of a tree in their order. -/
def leaves (action : Action) : List Leaf := action.nodes.filterMap leaf?

mutual

/-- The actions of a tree in the order of `nodes`, each with the number of blocks around it. -/
def outline (enclosing : Nat) : Action → List (Nat × Action)
  | .block actions => (enclosing, .block actions) :: outlineOfAll (enclosing + 1) actions
  | leaf => [(enclosing, leaf)]

/-- The actions of several trees with the number of blocks around each. -/
def outlineOfAll (enclosing : Nat) : List Action → List (Nat × Action)
  | [] => []
  | action :: rest => outline enclosing action ++ outlineOfAll enclosing rest

end

theorem map_snd_outline (action : Action) (enclosing : Nat) :
    (action.outline enclosing).map Prod.snd = action.nodes := by
  induction action generalizing enclosing with
  | assign | emit => rfl
  | block actions ih =>
      rw [outline, nodes, List.map_cons, List.cons_inj_right]
      generalize enclosing + 1 = enclosing
      induction actions with
      | nil => rfl
      | cons action rest ih_rest =>
          rw [outlineOfAll, nodesOfAll, List.map_append, ih action List.mem_cons_self,
            ih_rest fun other member => ih other (List.mem_cons_of_mem action member)]

/-- Whether an action is a block inside `limit` others at least. -/
def standsTooDeep (limit : Nat) (entry : Nat × Action) : Bool :=
  entry.2.leaf?.isNone && decide (limit ≤ entry.1)

/-- The limit is passed within a tree exactly if its depth passes it. -/
theorem any_standsTooDeep_iff {limit : Nat} (action : Action) {enclosing : Nat}
    (within : enclosing ≤ limit) :
    (action.outline enclosing).any (standsTooDeep limit) = true ↔
      limit < enclosing + action.depth := by
  induction action generalizing enclosing with
  | assign | emit => simpa [outline, standsTooDeep, leaf?, depth] using within
  | block actions ih =>
      have members (inside : enclosing + 1 ≤ limit) :
          (outlineOfAll (enclosing + 1) actions).any (standsTooDeep limit) = true ↔
            limit < enclosing + 1 + maxDepth actions := by
        induction actions with
        | nil => simpa [outlineOfAll, maxDepth] using inside
        | cons action rest ih_rest =>
            have rest_iff :=
              ih_rest fun other member => ih other (List.mem_cons_of_mem action member)
            rw [outlineOfAll, List.any_append, Bool.or_eq_true, ih action List.mem_cons_self inside,
              rest_iff, maxDepth]
            omega
      rw [outline, List.any_cons, Bool.or_eq_true, depth, ← Nat.add_assoc]
      by_cases reached : limit ≤ enclosing
      · have tooDeep : standsTooDeep limit (enclosing, block actions) = true :=
          decide_eq_true reached
        exact iff_of_true (.inl tooDeep) (by omega)
      · have allowed : ¬ standsTooDeep limit (enclosing, block actions) = true :=
          fun tooDeep => reached (of_decide_eq_true tooDeep)
        rw [members (by omega), or_iff_right allowed]

end Action

open EconModel.Action (Leaf)

/-- Two effects differ in further diagnostics of the later one at most. -/
def PolicyEffect.DiagnosesOnly (before after : PolicyEffect) : Prop :=
  ∃ diagnostics, after = before.diagnose diagnostics

namespace PolicySetting

variable {setting : PolicySetting} {policy : String} {effect after : PolicyEffect}
  {error : EvalError}

/-! ## Leaves in order -/

/-- Perform a leaf. -/
def performLeaf (setting : PolicySetting) (policy : String) :
    Leaf → PolicyEffect → Except EvalError Unit × PolicyEffect
  | .assign target value, effect => setting.assign policy target value effect
  | .emit name arguments, effect => setting.emit policy name arguments effect

/-- Perform leaves in order up to the first one that fails. -/
def performLeaves (setting : PolicySetting) (policy : String) :
    List Leaf → PolicyEffect → Except EvalError Unit × PolicyEffect
  | [], effect => (.ok (), effect)
  | leaf :: rest, effect =>
      match setting.performLeaf policy leaf effect with
      | (.ok (), after) => performLeaves setting policy rest after
      | (.error error, after) => (.error error, after)

/-- Whether a block stands inside as many others as are allowed. -/
def refuses (setting : PolicySetting) : Nat × Action → Bool :=
  Action.standsTooDeep setting.blockLimit.toNat

/-- Perform the leaves of an outline in order up to the first one that fails or the first block that
is refused, whichever comes first, and fail there. -/
def performOutline (setting : PolicySetting) (policy : String) (outline : List (Nat × Action))
    (effect : PolicyEffect) : Except EvalError Unit × PolicyEffect :=
  let reached := outline.takeWhile fun entry => !setting.refuses entry
  match setting.performLeaves policy ((reached.map Prod.snd).filterMap Action.leaf?) effect with
  | (.ok (), after) =>
      if outline.any setting.refuses then (.error (.blockDepthExceeded setting.blockLimit), after)
      else (.ok (), after)
  | (.error error, after) => (.error error, after)

/-- A block in front of an outline is refused or is nothing but a place in the order. -/
theorem performOutline_cons_block (enclosing : Nat) (actions : List Action)
    (rest : List (Nat × Action)) (effect : PolicyEffect) :
    setting.performOutline policy ((enclosing, .block actions) :: rest) effect =
      if setting.blockLimit.toNat ≤ enclosing then
        (.error (.blockDepthExceeded setting.blockLimit), effect)
      else setting.performOutline policy rest effect := by
  have refuses_eq : setting.refuses (enclosing, .block actions) =
      decide (setting.blockLimit.toNat ≤ enclosing) := rfl
  rw [performOutline, List.any_cons, List.takeWhile_cons, refuses_eq]
  by_cases tooDeep : setting.blockLimit.toNat ≤ enclosing
  · rw [if_pos tooDeep, decide_eq_true tooDeep]
    rfl
  · rw [if_neg tooDeep, decide_eq_false tooDeep]
    rfl

/-- A leaf in front of an outline is performed first. -/
theorem performOutline_cons_leaf {action : Action} {leaf : Leaf} (found : action.leaf? = some leaf)
    (enclosing : Nat) (rest : List (Nat × Action)) (effect : PolicyEffect) :
    setting.performOutline policy ((enclosing, action) :: rest) effect =
      match setting.performLeaf policy leaf effect with
      | (.ok (), after) => setting.performOutline policy rest after
      | (.error error, after) => (.error error, after) := by
  have allowed : setting.refuses (enclosing, action) = false := by
    simp [refuses, Action.standsTooDeep, found]
  rw [performOutline, List.any_cons, List.takeWhile_cons, allowed, Bool.false_or, Bool.not_false,
    if_pos rfl, List.map_cons, List.filterMap_cons_some found, performLeaves]
  rcases setting.performLeaf policy leaf effect with ⟨_ | _, after⟩ <;> rfl

theorem performOutline_append (first second : List (Nat × Action)) (effect : PolicyEffect) :
    setting.performOutline policy (first ++ second) effect =
      match setting.performOutline policy first effect with
      | (.ok (), after) => setting.performOutline policy second after
      | (.error error, after) => (.error error, after) := by
  induction first generalizing effect with
  | nil => rfl
  | cons entry rest ih =>
      obtain ⟨enclosing, action⟩ := entry
      rw [List.cons_append]
      cases found : action.leaf? with
      | none =>
          cases action with
          | assign | emit => cases found
          | block actions =>
              rw [performOutline_cons_block, performOutline_cons_block, ih]
              split <;> rfl
      | some leaf =>
          rw [performOutline_cons_leaf found, performOutline_cons_leaf found]
          rcases setting.performLeaf policy leaf effect with ⟨_ | _, after⟩
          · rfl
          · exact ih after

theorem performOutline_leaf (action : Action) {leaf : Leaf} (found : action.leaf? = some leaf)
    (enclosing : Nat) (effect : PolicyEffect) :
    setting.performOutline policy [(enclosing, action)] effect =
      setting.performLeaf policy leaf effect := by
  rw [performOutline_cons_leaf found]
  rcases setting.performLeaf policy leaf effect with ⟨_ | _, after⟩ <;> rfl

/-- Performing an action comes to performing the leaves of its outline. -/
theorem perform_eq_performOutline (action : Action) (enclosing : Nat) (effect : PolicyEffect) :
    setting.perform policy enclosing action effect =
      setting.performOutline policy (action.outline enclosing) effect := by
  induction action generalizing enclosing effect with
  | assign target value =>
      exact (performOutline_leaf (.assign target value) rfl enclosing effect).symm
  | emit name arguments =>
      exact (performOutline_leaf (.emit name arguments) rfl enclosing effect).symm
  | block actions ih =>
      rw [perform, Action.outline, performOutline_cons_block]
      split
      · rfl
      · induction actions generalizing effect with
        | nil => rfl
        | cons action rest ih_rest =>
            have rest_eq :=
              ih_rest fun other member => ih other (List.mem_cons_of_mem action member)
            rw [performAll, Action.outlineOfAll, performOutline_append,
              ih action List.mem_cons_self]
            rcases setting.performOutline policy _ effect with ⟨_ | _, after⟩
            · rfl
            · exact rest_eq after

/-! ## Within the limit -/

theorem performOutline_of_depth_le {action : Action}
    (within : action.depth ≤ setting.blockLimit.toNat) (effect : PolicyEffect) :
    setting.performOutline policy (action.outline 0) effect =
      setting.performLeaves policy action.leaves effect := by
  have none_refused : ∀ entry ∈ action.outline 0, setting.refuses entry = false := by
    have none_deep : ¬ (action.outline 0).any setting.refuses = true := by
      rw [refuses, action.any_standsTooDeep_iff (Nat.zero_le _)]
      omega
    simpa using none_deep
  have reached : (action.outline 0).takeWhile (fun entry => !setting.refuses entry) =
      action.outline 0 := List.takeWhile_eq_self_iff.mpr fun entry member => by
        rw [none_refused entry member, Bool.not_false]
  have any_eq : (action.outline 0).any setting.refuses = false := by
    simpa [List.any_eq_false] using none_refused
  rw [performOutline, reached, any_eq, Action.map_snd_outline, ← Action.leaves]
  rcases setting.performLeaves policy action.leaves effect with ⟨_ | _, after⟩ <;> rfl

/-! ## Leaves that fail -/

theorem diagnosesOnly_refl (effect : PolicyEffect) : effect.DiagnosesOnly effect :=
  ⟨[], by simp [PolicyEffect.diagnose]⟩

/-- A leaf that fails changes nothing, but may have recorded a mark. -/
theorem diagnosesOnly_of_performLeaf {leaf : Leaf}
    (failed : setting.performLeaf policy leaf effect = (.error error, after)) :
    effect.DiagnosesOnly after := by
  have unchanged := diagnosesOnly_refl effect
  cases leaf with
  | assign target value =>
      rw [performLeaf, assign, settle] at failed
      cases result : ((setting.context effect.state).evalFinite value).result with
      | error other =>
          simp only [result, Prod.mk.injEq] at failed
          exact failed.2 ▸ unchanged
      | ok found =>
          simp only [result] at failed
          split at failed
          · cases failed
            exact ⟨_, rfl⟩
          · cases failed
  | emit name arguments =>
      rw [performLeaf, emit, settle] at failed
      cases result : ((setting.context effect.state).evalArguments arguments).result with
      | error other =>
          simp only [result, Prod.mk.injEq] at failed
          exact failed.2 ▸ unchanged
      | ok values =>
          simp only [result, Prod.mk.injEq] at failed
          cases failed.1

/-- Where leaves fail, those in front of the one that fails have been performed. -/
theorem exists_of_performLeaves {leaves : List Leaf}
    (failed : setting.performLeaves policy leaves effect = (.error error, after)) :
    ∃ done leaf rest before, leaves = done ++ leaf :: rest ∧
      setting.performLeaves policy done effect = (.ok (), before) ∧
        setting.performLeaf policy leaf before = (.error error, after) := by
  induction leaves generalizing effect with
  | nil => cases failed
  | cons leaf leaves ih =>
      rw [performLeaves] at failed
      split at failed
      · next middle performed =>
        obtain ⟨done, other, rest, before, leaves_eq, done_eq, failed⟩ := ih failed
        refine ⟨leaf :: done, other, rest, before, by rw [leaves_eq, List.cons_append], ?_, failed⟩
        rw [performLeaves, performed]
        exact done_eq
      · next performed =>
        cases failed
        exact ⟨[], leaf, leaves, effect, rfl, rfl, performed⟩

/-! ## What leaves fail with -/

end PolicySetting

/-- A call of a function of the registry may fail with an error. -/
def FunctionRegistry.FailsWith (functions : FunctionRegistry) (error : EvalError) : Prop :=
  ∃ function arguments, functions.call function arguments = .error error

/-- The functions of a catalogue know nothing about blocks. -/
theorem Catalogue.not_failsWith_blockDepthExceeded (catalogue : Catalogue) (limit : UInt64) :
    ¬ catalogue.toRegistry.FailsWith (.blockDepthExceeded limit) := by
  rintro ⟨function, arguments, failed⟩
  simp only [toRegistry] at failed
  split at failed
  · cases failed
  · split at failed <;> cases failed

/-- An error that tells of blocks too deep comes from a function. -/
def EvalError.Traced (functions : FunctionRegistry) (error : EvalError) : Prop :=
  ∀ limit, error = .blockDepthExceeded limit → functions.FailsWith error

namespace Context

open Evaluation

theorem traced_lookup {context : Context} {name : String} {lag : UInt64} {error : EvalError}
    (failed : context.lookup name lag = .error error) (functions : FunctionRegistry) :
    error.Traced functions := by
  unfold lookup at failed
  repeat' split at failed
  all_goals cases failed
  all_goals exact nofun

theorem traced_resolve {context : Context} {name : String} {error : EvalError}
    (failed : context.resolve name = .error error) (functions : FunctionRegistry) :
    error.Traced functions := by
  unfold resolve at failed
  split at failed
  · cases failed
  · split at failed
    · cases failed
    · exact traced_lookup failed functions

theorem traced_evalFinite (context : Context) (expr : Expr) :
    (context.evalFinite expr).FailsWithin (EvalError.Traced context.environment.functions) :=
  failsWithin_evalFinite ⟨fun _ _ _ => nofun, fun _ _ => nofun, fun _ => nofun⟩ {
    ident := fun _ _ _ failed => traced_resolve failed _
    lagged := fun _ _ _ _ failed => traced_lookup failed _
    call := fun function _ _ values _ failed _ _ => ⟨function, values, failed⟩ }

end Context

namespace PolicySetting

variable {setting : PolicySetting} {policy : String} {effect after : PolicyEffect}
  {error : EvalError}

theorem traced_performLeaf {leaf : Leaf}
    (failed : setting.performLeaf policy leaf effect = (.error error, after)) :
    error.Traced setting.environment.functions := by
  cases leaf with
  | assign target value =>
      rw [performLeaf, assign] at failed
      split at failed
      · next settled =>
        cases failed
        exact (setting.context effect.state).traced_evalFinite value _ (settle_eq_error settled)
      · next found middle settled =>
        split at failed
        · next written =>
          cases failed
          unfold SimulationState.setCurrent at written
          repeat' split at written
          all_goals cases written
          all_goals exact nofun
        · cases failed
  | emit name arguments =>
      rw [performLeaf, emit] at failed
      split at failed
      · next settled =>
        cases failed
        refine Evaluation.FailsWithin.andThen (Evaluation.failsWithin_forAll fun entry _ => ?_)
          (fun _ _ => Evaluation.failsWithin_pure _) _ (settle_eq_error settled)
        exact ((setting.context effect.state).traced_evalFinite entry.2).andThen
          fun _ _ => Evaluation.failsWithin_pure _
      · cases failed

/-- What a sequence of leaves fails with, one of them fails with. -/
theorem traced_performLeaves {leaves : List Leaf}
    (failed : setting.performLeaves policy leaves effect = (.error error, after)) :
    error.Traced setting.environment.functions := by
  obtain ⟨_, _, _, _, _, _, leaf_failed⟩ := exists_of_performLeaves failed
  exact traced_performLeaf leaf_failed

/-- Where an outline cannot be gone through, some leaves from the left have been performed. -/
theorem exists_of_performOutline {outline : List (Nat × Action)}
    (failed : setting.performOutline policy outline effect = (.error error, after)) :
    ∃ performed rest before, (outline.map Prod.snd).filterMap Action.leaf? = performed ++ rest ∧
      setting.performLeaves policy performed effect = (.ok (), before) ∧
        before.DiagnosesOnly after := by
  obtain ⟨reached, unreached, outline_eq, reached_eq⟩ : ∃ reached unreached,
      outline = reached ++ unreached ∧
        outline.takeWhile (fun entry => !setting.refuses entry) = reached :=
    ⟨_, _, List.takeWhile_append_dropWhile.symm, rfl⟩
  rw [performOutline, reached_eq] at failed
  rw [outline_eq, List.map_append, List.filterMap_append]
  split at failed
  · next before performed =>
    split at failed
    · cases failed
      exact ⟨_, _, _, rfl, performed, diagnosesOnly_refl _⟩
    · cases failed
  · next leaf_failed =>
    cases failed
    obtain ⟨performed, leaf, rest, before, leaves_eq, performed_eq, failed⟩ :=
      exists_of_performLeaves leaf_failed
    refine ⟨performed, leaf :: rest ++ (unreached.map Prod.snd).filterMap Action.leaf?, before, ?_,
      performed_eq, diagnosesOnly_of_performLeaf failed⟩
    rw [leaves_eq, List.append_assoc]

/-! ## Transparent blocks -/

/-- What performing an action comes to: blocks are transparent, and their limit is one on depth. -/
structure Transparent (setting : PolicySetting) (policy : String) (action : Action)
    (effect : PolicyEffect) : Prop where
  /-- The outline of the action is gone through up to a leaf that fails or a block that is
  refused. -/
  perform_eq : setting.perform policy 0 action effect =
    setting.performOutline policy (action.outline 0) effect
  /-- The outline holds the actions of the tree, every block in front of its members. -/
  outline_eq : (action.outline 0).map Prod.snd = action.nodes
  /-- A block is refused exactly if the action is too deep. -/
  refuses_iff : (action.outline 0).any setting.refuses = true ↔
    setting.blockLimit.toNat < action.depth
  /-- Within the limit all leaves are performed in order. -/
  perform_within : action.depth ≤ setting.blockLimit.toNat →
    setting.perform policy 0 action effect = setting.performLeaves policy action.leaves effect
  /-- Within the limit blocks do not matter. -/
  perform_alike : action.depth ≤ setting.blockLimit.toNat → ∀ other : Action,
    other.depth ≤ setting.blockLimit.toNat → other.leaves = action.leaves →
      setting.perform policy 0 other effect = setting.perform policy 0 action effect
  /-- Within the limit no blocks are reported as too deep, unless a function says so itself. -/
  failsWith_of_exceeded : action.depth ≤ setting.blockLimit.toNat → ∀ limit,
    (setting.perform policy 0 action effect).1 = .error (.blockDepthExceeded limit) →
      setting.environment.functions.FailsWith (.blockDepthExceeded limit)
  /-- No function of a catalogue says so. -/
  not_exceeded : action.depth ≤ setting.blockLimit.toNat → ∀ catalogue : Catalogue,
    setting.environment.functions = catalogue.toRegistry → ∀ limit,
      (setting.perform policy 0 action effect).1 ≠ .error (.blockDepthExceeded limit)
  /-- A leaf that fails changes neither the state nor the events. -/
  leaf_failed : ∀ leaf ∈ action.leaves, ∀ error before after,
    setting.performLeaf policy leaf before = (.error error, after) →
      after.state = before.state ∧ after.log.events = before.log.events
  /-- Where the action fails, some leaves from the left have been performed and keep their
  effects. -/
  failed : ∀ error after, setting.perform policy 0 action effect = (.error error, after) →
    ∃ performed rest before, action.leaves = performed ++ rest ∧
      setting.performLeaves policy performed effect = (.ok (), before) ∧
        before.DiagnosesOnly after

/-- Blocks are transparent, whatever an action consists of and whatever it is performed on. -/
theorem perform_transparent (setting : PolicySetting) (policy : String) (action : Action)
    (effect : PolicyEffect) : setting.Transparent policy action effect := by
  have perform_eq : setting.perform policy 0 action effect =
      setting.performOutline policy (action.outline 0) effect :=
    perform_eq_performOutline action 0 effect
  have within_eq {action : Action} (within : action.depth ≤ setting.blockLimit.toNat) :
      setting.perform policy 0 action effect = setting.performLeaves policy action.leaves effect :=
    (perform_eq_performOutline action 0 effect).trans (performOutline_of_depth_le within effect)
  have traced (within : action.depth ≤ setting.blockLimit.toNat) {error : EvalError}
      (failed : (setting.perform policy 0 action effect).1 = .error error) :
      error.Traced setting.environment.functions := by
    rw [within_eq within] at failed
    exact traced_performLeaves (Prod.ext failed rfl)
  exact {
    perform_eq := perform_eq
    outline_eq := action.map_snd_outline 0
    refuses_iff := by
      rw [refuses, action.any_standsTooDeep_iff (Nat.zero_le _), Nat.zero_add]
    perform_within := within_eq
    perform_alike := fun within other other_within leaves_eq => by
      rw [within_eq other_within, within_eq within, leaves_eq]
    failsWith_of_exceeded := fun within limit exceeded => traced within exceeded limit rfl
    not_exceeded := fun within catalogue functions_eq limit exceeded =>
      catalogue.not_failsWith_blockDepthExceeded limit
        (functions_eq ▸ traced within exceeded limit rfl)
    leaf_failed := fun leaf _ error before after failed => by
      obtain ⟨diagnostics, rfl⟩ := diagnosesOnly_of_performLeaf failed
      exact ⟨rfl, rfl⟩
    failed := fun error after failed => by
      rw [perform_eq] at failed
      have performed := exists_of_performOutline failed
      rwa [action.map_snd_outline 0] at performed }

-- The inner block is refused, and what stands in front of it has been done.
example :
    let setting : PolicySetting := ⟨⟨.empty, .empty, Catalogue.toRegistry .empty, .zero⟩, 0, 1⟩
    let state := (SimulationState.initial ["flag"]).openNext fun _ _ => .undefined
    let action : Action :=
      .block [.assign "flag" (.boolean true), .block [.emit "raised" .empty], .emit "late" .empty]
    let performed := setting.perform "raise" 0 action ⟨state, .empty⟩
    performed.1 = .error (.blockDepthExceeded 1) ∧
      performed.2.state.current? "flag" = some (.boolean true) ∧ performed.2.log = .empty :=
  ⟨rfl, rfl, rfl⟩

end PolicySetting

end EconModel
