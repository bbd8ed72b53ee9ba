import Cogrouping.Proofs.Rollup.Calls

/-!
What a walk does with a handler that never fails: from the keys of the groups alone follow the calls it
makes, and these account for all that it counts.
-/

namespace Cogrouping.Rollup

def Stats.after (stats : Stats) : Call → Stats
  | .openGroup .. => { stats with opened := stats.opened + 1 }
  | .closeGroup .. => { stats with closed := stats.closed + 1 }
  | .elements _ tuples =>
      { stats with groups := stats.groups + 1, elements := stats.elements + tuples.length }
  | .setup _ => stats
  | .cleanup _ => stats

namespace Engine

def opens (engine : Engine) (key : GroupKey) (first : Nat) : List Call :=
  (engine.depthsFrom first).map fun depth => .openGroup depth (engine.order.fieldName depth) key

def closes (engine : Engine) (key : GroupKey) (first : Nat) : List Call :=
  (engine.depthsFrom first).reverse.map fun depth =>
    .closeGroup depth (engine.order.fieldName depth) key

variable (engine : Engine) (differ : GroupKey → GroupKey → Nat)

theorem mismatch_with (engine : Engine) (phase : Phase) (before : Option GroupKey) (stats : Stats) :
    mismatch { engine with phase, previous := before, stats } = mismatch engine := by
  funext previous key
  rw [mismatch, mismatch]
  generalize List.range (engine.maxDepth + 1) = depths
  induction depths with
  | nil => rfl
  | cons depth depths ih =>
      rw [mismatchAmong, mismatchAmong, ih]

def firstDepth (key : GroupKey) : Option GroupKey → Nat
  | none => engine.minDepth
  | some previous => differ previous key

def turns (key : GroupKey) (previous : Option GroupKey) : List Call :=
  let first := engine.firstDepth differ key previous
  (previous.map fun before => engine.closes before first).getD [] ++ engine.opens key first

def calls : Option GroupKey → List (GroupKey × List Tuple) → List Call
  | previous, [] => (previous.map fun key => engine.closes key engine.minDepth).getD []
  | previous, (key, tuples) :: groups =>
      engine.turns differ key previous ++ .elements key tuples :: calls (some key) groups

def trace (context : Context) (groups : List (GroupKey × List Tuple)) : List Call :=
  .setup context :: engine.calls differ none groups ++ [.cleanup context]

theorem calls_with (engine : Engine) (phase : Phase) (before : Option GroupKey) (stats : Stats) :
    calls { engine with phase, previous := before, stats } differ = calls engine differ := by
  funext previous groups
  induction groups generalizing previous with
  | nil => rfl
  | cons group groups ih =>
      rw [calls, calls, ih]
      rfl

end Engine

variable {ι σ ε : Type} {handler : Handler σ ε}

def Stats.skip (count : Nat) (stats : Stats) : Stats := { stats with drained := stats.drained + count }

theorem Stats.skip_skip (count other : Nat) (stats : Stats) :
    (stats.skip count).skip other = stats.skip (count + other) := by
  rw [skip, skip, skip, Nat.add_assoc]

theorem Stats.foldl_skip (calls : List Call) (count : Nat) (stats : Stats) :
    calls.foldl Stats.after (stats.skip count) = (calls.foldl Stats.after stats).skip count := by
  induction calls generalizing stats with
  | nil => rfl
  | cons call calls ih =>
      rw [List.foldl_cons, List.foldl_cons, ← ih]
      cases call <;> rfl

def Walk.perform (handler : Handler σ ε) (calls : List Call) (walk : Walk ι σ) : Walk ι σ :=
  { walk with
    engine.stats := (calls.foldl Stats.after walk.engine.stats).skip (handler.unreadAll walk.state calls)
    state := calls.foldl handler.respond walk.state }

theorem Walk.perform_append (calls others : List Call) (walk : Walk ι σ) :
    (walk.perform handler calls).perform handler others = walk.perform handler (calls ++ others) := by
  simp only [perform, List.foldl_append, Handler.unreadAll_append, Stats.foldl_skip, Stats.skip_skip]

namespace Walking

theorem outcome_callback {α : Type} {call : ExceptT ε (StateM σ) α} {walk : Walk ι σ} {value : α}
    (succeeds : (call.run walk.state).1 = .ok value) :
    outcome (callback call) walk = (.ok value, { walk with state := (call.run walk.state).2 }) := by
  rw [callback, outcome_bind_of_ok (outcome_get walk)]
  generalize call.run walk.state = done at succeeds ⊢
  obtain ⟨result, state⟩ := done
  cases succeeds
  rfl

@[simp] theorem outcome_check {α : Type} (value : α) (walk : Walk ι σ) :
    outcome (check (.ok value) : Walking ι σ ε α) walk = (.ok value, walk) := rfl

@[simp] theorem outcome_raise {α : Type} (value : α) (walk : Walk ι σ) :
    outcome (raise (.ok value) : Walking ι σ ε α) walk = (.ok value, walk) := rfl

@[simp] theorem outcome_count (change : Stats → Stats) (walk : Walk ι σ) :
    outcome (count change : Walking ι σ ε Unit) walk =
      (.ok (), { walk with engine.stats := change walk.engine.stats }) := rfl

variable (unfailing : handler.Unfailing) (walk : Walk ι σ) (key : GroupKey)

include unfailing in
theorem outcome_openGroup (depth : Nat) :
    outcome (openGroup handler key depth) walk =
      (.ok (), walk.perform handler [.openGroup depth (walk.engine.order.fieldName depth) key]) := by
  rw [openGroup, outcome_bind_of_ok (outcome_get walk)]
  simp only
  rw [outcome_bind_of_ok (outcome_callback (unfailing.openGroup _ _ _ _))]
  rfl

include unfailing in
theorem outcome_closeGroup (depth : Nat) :
    outcome (closeGroup handler key depth) walk =
      (.ok (), walk.perform handler [.closeGroup depth (walk.engine.order.fieldName depth) key]) := by
  rw [closeGroup, outcome_bind_of_ok (outcome_get walk)]
  simp only
  rw [outcome_bind_of_ok (outcome_callback (unfailing.closeGroup _ _ _ _))]
  rfl

variable {walk} in
theorem outcome_forM {action : Nat → Walking ι σ ε Unit} {call : Nat → Call} {order : GroupOrder}
    (step : ∀ depth walk, walk.engine.order = order →
      outcome (action depth) walk = (.ok (), walk.perform handler [call depth]))
    (depths : List Nat) (ordered : walk.engine.order = order) :
    outcome (depths.forM action) walk = (.ok (), walk.perform handler (depths.map call)) := by
  induction depths generalizing walk with
  | nil => rfl
  | cons depth depths ih =>
      have rest : outcome (depths.forM action) (walk.perform handler [call depth]) =
          (.ok (), (walk.perform handler [call depth]).perform handler (depths.map call)) := ih ordered
      rw [Walk.perform_append] at rest
      rw [List.forM_eq_forM] at rest ⊢
      rw [List.forM_cons, outcome_bind_of_ok (step depth walk ordered)]
      exact rest

include unfailing in
theorem outcome_opens (first : Nat) :
    outcome ((walk.engine.depthsFrom first).forM (openGroup handler key)) walk =
      (.ok (), walk.perform handler (walk.engine.opens key first)) := by
  refine outcome_forM (fun depth other ordered => ?_) _ rfl
  rw [outcome_openGroup unfailing, ordered]

include unfailing in
theorem outcome_closes (first : Nat) :
    outcome ((walk.engine.depthsFrom first).reverse.forM (closeGroup handler key)) walk =
      (.ok (), walk.perform handler (walk.engine.closes key first)) := by
  refine outcome_forM (fun depth other ordered => ?_) _ rfl
  rw [outcome_closeGroup unfailing, ordered]

variable [SortedGroups ι] [BoundedGroups ι]

include unfailing in
theorem outcome_leaf {walk : Walk ι σ} {tuples : List Tuple} {last : ι}
    (yields : Yields walk.input tuples last) :
    outcome (leaf handler key) walk =
      (.ok (), { walk.perform handler [.elements key tuples] with input := last }) := by
  have enough : tuples.length + handler.patience + 1 ≤
      (Elements.ofInput walk.input).bound + handler.patience := by
    have bounded := BoundedGroups.values_le yields
    have bound : (Elements.ofInput walk.input).bound = SortedGroups.bound walk.input + 1 := rfl
    omega
  obtain ⟨elements, reads, count, leaves⟩ := Handler.read_yields yields enough
    (unfailing.ends key tuples walk.state) 0
  have drains : elements.drain (elements.bound + 1) = _ :=
    Elements.drain_leaves leaves (Nat.lt_succ_of_le (Nat.le_succ_of_le leaves.length_le))
  have whole := handler.browse_le tuples (handler.enter key walk.state)
  rw [Nat.zero_add] at count
  rw [leaf, outcome_bind_of_ok (outcome_get walk)]
  simp only [Elements.ofInput] at reads ⊢
  rw [reads]
  simp only
  rw [outcome_bind_of_ok (outcome_set _ _), outcome_bind_of_ok (outcome_callback (unfailing.leave _ _ _)),
    drains]
  simp only
  rw [outcome_bind_of_ok (outcome_modify _ _), outcome_bind_of_ok (outcome_raise _ _), outcome_count]
  simp [Walk.perform, Stats.after, Stats.skip, Handler.respond, Handler.unreadAll, Handler.unread, count,
    Nat.add_sub_of_le whole]

variable {walk key} {differ : GroupKey → GroupKey → Nat}

omit [SortedGroups ι] [BoundedGroups ι] in
include unfailing in
theorem outcome_closeMismatch
    (inGroup : walk.engine.previous.isSome → walk.engine.phase = .inGroup)
    (differs : ∀ previous ∈ walk.engine.previous,
      walk.engine.mismatch previous key = .ok (differ previous key)) :
    outcome (closeMismatch handler key) walk =
      (.ok (walk.engine.firstDepth differ key walk.engine.previous),
        Walk.perform handler
          ((walk.engine.previous.map fun before => walk.engine.closes before
            (walk.engine.firstDepth differ key walk.engine.previous)).getD [])
          { walk with engine.previous := none, engine.phase := .inGroup }) := by
  obtain ⟨⟨order, minDepth, maxDepth, phase, previous, stats⟩, input, state⟩ := walk
  let taken : Walk ι σ := ⟨⟨order, minDepth, maxDepth, phase, none, stats⟩, input, state⟩
  have took : outcome (takePrevious : Walking ι σ ε _)
      ⟨⟨order, minDepth, maxDepth, phase, previous, stats⟩, input, state⟩ = (.ok previous, taken) := rfl
  rw [closeMismatch, outcome_bind_of_ok took, outcome_bind_of_ok (outcome_get _)]
  cases previous with
  | none => cases phase <;> rfl
  | some before =>
      cases inGroup rfl
      have found : taken.engine.mismatch before key = .ok (differ before key) := by
        rw [← differs before rfl]
        exact congrFun₂ (Engine.mismatch_with ⟨order, minDepth, maxDepth, .inGroup, some before, stats⟩
          .inGroup none stats) before key
      have closed := outcome_closes unfailing taken before (differ before key)
      simp only [taken] at found closed ⊢
      simp only [found]
      rw [outcome_bind_of_ok (outcome_check _ _), outcome_bind_of_ok closed]
      rfl

include unfailing in
theorem outcome_onKey (inGroup : walk.engine.previous.isSome → walk.engine.phase = .inGroup)
    (differs : ∀ previous ∈ walk.engine.previous,
      walk.engine.mismatch previous key = .ok (differ previous key))
    {tuples : List Tuple} {last : ι} (yields : Yields walk.input tuples last) :
    outcome (onKey handler key) walk =
      (.ok (), Walk.perform handler
        (walk.engine.turns differ key walk.engine.previous ++ [.elements key tuples])
        { walk with engine.previous := some key, engine.phase := .inGroup, input := last }) := by
  have reads : ∀ opened : Walk ι σ, opened.input = walk.input → outcome (leaf handler key) opened =
      (.ok (), { opened.perform handler [.elements key tuples] with input := last }) := by
    intro opened same
    exact outcome_leaf unfailing key (same ▸ yields)
  rw [onKey, outcome_bind_of_ok (outcome_closeMismatch unfailing inGroup differs),
    outcome_bind_of_ok (outcome_get _)]
  simp only
  rw [outcome_bind_of_ok (outcome_opens unfailing _ _ _), outcome_bind_of_ok (reads _ ?same),
    outcome_modify, Walk.perform_append, Walk.perform_append, Engine.turns, List.append_assoc]
  case same => rfl
  rfl

omit [SortedGroups ι] [BoundedGroups ι] in
include unfailing in
theorem outcome_finish :
    outcome (finish handler) walk =
      (.ok (), Walk.perform handler (walk.engine.calls differ walk.engine.previous [])
        { walk with engine.previous := none, engine.phase := .done }) := by
  obtain ⟨⟨order, minDepth, maxDepth, phase, previous, stats⟩, input, state⟩ := walk
  let taken : Walk ι σ := ⟨⟨order, minDepth, maxDepth, phase, none, stats⟩, input, state⟩
  have took : outcome (takePrevious : Walking ι σ ε _)
      ⟨⟨order, minDepth, maxDepth, phase, previous, stats⟩, input, state⟩ = (.ok previous, taken) := rfl
  rw [finish, outcome_bind_of_ok took]
  cases previous with
  | none => rfl
  | some before =>
      simp only
      rw [outcome_bind_of_ok (outcome_get _)]
      have closed := outcome_closes unfailing taken before minDepth
      rw [outcome_bind_of_ok closed]
      rfl

/-- The groups of an input, each with the key that its first tuple makes. -/
def Keyed (plan : Plan) : List (Tuple × List Tuple) → List (GroupKey × List Tuple) → Prop :=
  List.Forall₂ fun delivered keyed =>
    GroupKey.ofTuple plan delivered.1 = .ok keyed.1 ∧ delivered.2 = keyed.2

def Tells (engine : Engine) (kind : GroupKey → Prop) (differ : GroupKey → GroupKey → Nat) : Prop :=
  ∀ previous key, kind previous → kind key → engine.mismatch previous key = .ok (differ previous key)

omit [BoundedGroups ι] in
theorem outcome_nextKey {result : Option Tuple} {begun : ι}
    (asked : outcome (SortedGroups.nextKey (σ := ι)) walk.input = (.ok result, begun)) :
    outcome (nextKey : Walking ι σ ε _) walk = (.ok result, { walk with input := begun }) := by
  rw [nextKey, outcome_bind_of_ok (outcome_get walk)]
  rw [outcome] at asked
  simp only [asked]
  rfl

include unfailing in
theorem outcome_groups {plan : Plan} (planned : walk.engine.order.plan = plan)
    {kind : GroupKey → Prop} {delivered : List (Tuple × List Tuple)}
    {keyed : List (GroupKey × List Tuple)} (delivers : Delivers walk.input delivered)
    (keys : Keyed plan delivered keyed) (kinds : ∀ group ∈ keyed, kind group.1)
    (tells : Tells walk.engine kind differ)
    (inGroup : walk.engine.previous.isSome → walk.engine.phase = .inGroup)
    (before : ∀ previous ∈ walk.engine.previous, kind previous) {limit : Nat}
    (enough : delivered.length < limit) :
    ∃ last, outcome (groups handler limit >>= fun _ => finish handler) walk =
      (.ok (), Walk.perform handler (walk.engine.calls differ walk.engine.previous keyed)
        { walk with engine.previous := none, engine.phase := .done, input := last }) := by
  induction keys generalizing walk limit with
  | nil =>
      cases delivers with
      | @done _ last asked =>
          obtain ⟨rest, rfl⟩ : ∃ rest, limit = rest + 1 := ⟨limit - 1, by omega⟩
          have stopped : outcome (groups handler (rest + 1)) walk =
              (.ok (), { walk with input := last }) := by
            rw [groups, outcome_bind_of_ok (outcome_nextKey asked)]
            rfl
          refine ⟨last, ?_⟩
          rw [outcome_bind_of_ok stopped]
          exact outcome_finish unfailing
  | @cons group keyedGroup delivered keyed first _ ih =>
      obtain ⟨firstTuple, tuples⟩ := group
      obtain ⟨key, keyTuples⟩ := keyedGroup
      obtain ⟨made, sameTuples⟩ := first
      simp only at made sameTuples
      subst sameTuples
      rw [List.forall_mem_cons] at kinds
      rw [List.length_cons] at enough
      cases delivers with
      | @group _ begun behind _ _ _ asked yields delivers =>
          obtain ⟨rest, rfl⟩ : ∃ rest, limit = rest + 1 := ⟨limit - 1, by omega⟩
          have differs : ∀ previous ∈ walk.engine.previous,
              walk.engine.mismatch previous key = .ok (differ previous key) :=
            fun previous held => tells previous key (before previous held) kinds.1
          have here : outcome (onKey handler key) { walk with input := begun } =
              (.ok (), Walk.perform handler
                (walk.engine.turns differ key walk.engine.previous ++ [.elements key tuples])
                { walk with
                  engine.previous := some key
                  engine.phase := .inGroup
                  input := behind }) := by
            refine outcome_onKey unfailing ?_ ?_ ?_
            · exact inGroup
            · exact differs
            · exact yields
          let turned : Walk ι σ := Walk.perform handler
            (walk.engine.turns differ key walk.engine.previous ++ [.elements key tuples])
            { walk with engine.previous := some key, engine.phase := .inGroup, input := behind }
          have tellsTurned : Tells turned.engine kind differ := by
            intro previous other knownPrevious knownOther
            rw [← tells previous other knownPrevious knownOther]
            exact congrFun₂ (Engine.mismatch_with walk.engine _ _ _) previous other
          have knownTurned : ∀ previous ∈ turned.engine.previous, kind previous := by
            intro previous held
            cases held
            exact kinds.1
          obtain ⟨last, later⟩ : ∃ last,
              outcome (groups handler rest >>= fun _ => finish handler) turned =
                (.ok (), Walk.perform handler (turned.engine.calls differ (some key) keyed)
                  { turned with engine.previous := none, engine.phase := .done, input := last }) := by
            refine ih ?_ ?_ kinds.2 tellsTurned (fun _ => rfl) knownTurned ?_
            · exact planned
            · exact delivers
            · omega
          refine ⟨last, ?_⟩
          have whole : outcome (groups handler (rest + 1) >>= fun _ => finish handler) walk =
              outcome (groups handler rest >>= fun _ => finish handler) turned := by
            rw [groups, bind_assoc, outcome_bind_of_ok (outcome_nextKey asked)]
            simp only
            rw [bind_assoc, outcome_bind_of_ok (outcome_get _)]
            simp only [planned, made]
            rw [bind_assoc, outcome_bind_of_ok (outcome_check _ _), bind_assoc, outcome_bind_of_ok here]
          have sameCalls : turned.engine.calls differ = walk.engine.calls differ :=
            Engine.calls_with differ walk.engine _ _ _
          have split : walk.engine.turns differ key walk.engine.previous ++
              .elements key tuples :: walk.engine.calls differ (some key) keyed =
              (walk.engine.turns differ key walk.engine.previous ++ [.elements key tuples]) ++
                walk.engine.calls differ (some key) keyed := by simp
          rw [whole, later, sameCalls, Engine.calls, split, ← Walk.perform_append]
          rfl

include unfailing in
/-- A walk of a new engine makes the calls for its groups, between those that begin and end it. -/
theorem outcome_run {plan : Plan} (planned : walk.engine.order.plan = plan)
    {kind : GroupKey → Prop} {delivered : List (Tuple × List Tuple)}
    {keyed : List (GroupKey × List Tuple)} (delivers : Delivers walk.input delivered)
    (keys : Keyed plan delivered keyed) (kinds : ∀ group ∈ keyed, kind group.1)
    (tells : Tells walk.engine kind differ) (awaits : walk.engine.phase ≠ .done)
    (fresh : walk.engine.previous = none) (context : Context) :
    ∃ last, outcome (run handler context) walk =
        (.ok (((walk.engine.trace differ context keyed).foldl Stats.after walk.engine.stats).skip
          (handler.unreadAll walk.state (walk.engine.trace differ context keyed))), last) ∧
      last.state = (walk.engine.trace differ context keyed).foldl handler.respond walk.state := by
  obtain ⟨⟨order, minDepth, maxDepth, phase, previous, stats⟩, input, state⟩ := walk
  cases fresh
  let engine : Engine := ⟨order, minDepth, maxDepth, phase, none, stats⟩
  let begun : Walk ι σ := Walk.perform handler [.setup context] ⟨engine, input, state⟩
  have setup : outcome (callback (handler.setup context) : Walking ι σ ε Unit) ⟨engine, input, state⟩ =
      (.ok (), begun) := outcome_callback (unfailing.setup context state)
  obtain ⟨last, walked⟩ : ∃ last,
      outcome (groups handler (SortedGroups.bound begun.input + 1) >>= fun _ => finish handler) begun =
        (.ok (), Walk.perform handler (engine.calls differ none keyed)
          { begun with engine.previous := none, engine.phase := .done, input := last }) := by
    refine outcome_groups unfailing ?_ ?_ keys kinds ?_ ?_ ?_ ?_
    · exact planned
    · exact delivers
    · exact tells
    · simp [begun, engine, Walk.perform]
    · simp [begun, engine, Walk.perform]
    · exact Nat.lt_succ_of_le (BoundedGroups.groups_le delivers)
  let finished : Walk ι σ := Walk.perform handler (engine.calls differ none keyed)
    { begun with engine.previous := none, engine.phase := .done, input := last }
  have cleanup : outcome (callback (handler.cleanup context) : Walking ι σ ε Unit) finished =
      (.ok (), finished.perform handler [.cleanup context]) :=
    outcome_callback (unfailing.cleanup context finished.state)
  have whole : finished.perform handler [.cleanup context] =
      Walk.perform handler (engine.trace differ context keyed)
        ⟨{ engine with phase := .done }, last, state⟩ := by
    have joined := @Walk.perform_append _ _ _ handler [.setup context]
      (engine.calls differ none keyed ++ [.cleanup context]) ⟨{ engine with phase := .done }, last, state⟩
    rw [Walk.perform_append]
    exact joined
  have notDone : phase ≠ .done := awaits
  refine ⟨finished.perform handler [.cleanup context], ?_, ?_⟩
  · have rest : outcome (groups handler (SortedGroups.bound begun.input + 1) >>= fun _ =>
        finish handler >>= fun _ => callback (handler.cleanup context) >>= fun _ =>
          (do return (← get).engine.stats : Walking ι σ ε Stats)) begun =
        outcome (callback (handler.cleanup context) >>= fun _ =>
          (do return (← get).engine.stats : Walking ι σ ε Stats)) finished := by
      rw [← bind_assoc, outcome_bind_of_ok walked]
    rw [run, outcome_bind_of_ok (outcome_get _)]
    simp only [notDone, if_false]
    rw [outcome_bind_of_ok setup, outcome_bind_of_ok (outcome_get _), rest,
      outcome_bind_of_ok cleanup, whole]
    rfl
  · rw [whole]
    rfl

end Walking

end Cogrouping.Rollup
