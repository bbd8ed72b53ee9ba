import Cogrouping.Proofs.Rollup.Brackets
import Cogrouping.Proofs.Rollup.Recorded

/-!
Engines that are used again. A walk that fails leaves its engine behind, and another walk may begin with
it. What the handler is told in one walk is nested in itself, unless the walk before was left between two
groups by its input: the engine then still holds the key of the last group, and takes the groups of this
key for open.
-/

namespace Cogrouping

namespace GroupOrder

def depthsFrom (order : GroupOrder) (first : Nat) : List Nat :=
  List.range' first (order.plan.maxDepth + 1 - first)

def depths (order : GroupOrder) : List Nat := order.depthsFrom order.plan.minDepth

def standing (order : GroupOrder) (previous : Option GroupKey) : List Nat :=
  if previous.isSome then order.depths.reverse else []

end GroupOrder

namespace Rollup

def Call.shift : List Nat → Call → List Nat
  | opened, .openGroup depth _ _ => depth :: opened
  | opened, .closeGroup .. => opened.tail
  | opened, _ => opened

/-- A call fits the open depths: the next depth is opened, the deepest one is closed, elements come when
all depths are open, and a walk is cleaned up when none is. -/
def Call.Nests (depths opened : List Nat) : Call → Prop
  | .setup _ => True
  | .openGroup depth _ _ => opened.reverse ++ [depth] <+: depths
  | .closeGroup depth _ _ => opened.head? = some depth
  | .elements _ _ => opened.reverse = depths
  | .cleanup _ => opened = []

inductive Nested (depths : List Nat) : List Nat → List Call → Prop
  | nil {opened : List Nat} : Nested depths opened []
  | cons {opened : List Nat} {call : Call} {calls : List Call} : call.Nests depths opened →
      Nested depths (call.shift opened) calls → Nested depths opened (call :: calls)

theorem nested_cons {depths opened : List Nat} {call : Call} {calls : List Call} :
    Nested depths opened (call :: calls) ↔
      call.Nests depths opened ∧ Nested depths (call.shift opened) calls := by
  constructor
  · rintro (_ | ⟨fits, rest⟩)
    exact ⟨fits, rest⟩
  · rintro ⟨fits, rest⟩
    exact .cons fits rest

instance Call.decidableNests (depths opened : List Nat) :
    (call : Call) → Decidable (call.Nests depths opened)
  | .setup _ => isTrue trivial
  | .openGroup depth _ _ => inferInstanceAs (Decidable (opened.reverse ++ [depth] <+: depths))
  | .closeGroup depth _ _ => inferInstanceAs (Decidable (opened.head? = some depth))
  | .elements _ _ => inferInstanceAs (Decidable (opened.reverse = depths))
  | .cleanup _ => inferInstanceAs (Decidable (opened = []))

instance Nested.decidable (depths : List Nat) :
    (opened : List Nat) → (calls : List Call) → Decidable (Nested depths opened calls)
  | _, [] => isTrue .nil
  | opened, call :: calls =>
      have := Nested.decidable depths (call.shift opened) calls
      decidable_of_iff _ nested_cons.symm

theorem Nested.append {depths opened : List Nat} {calls : List Call} {call : Call}
    (nested : Nested depths opened calls) (fits : call.Nests depths (calls.foldl Call.shift opened)) :
    Nested depths opened (calls ++ [call]) := by
  induction nested with
  | nil => exact .cons fits .nil
  | cons first _ ih => exact .cons first (ih fits)

structure Engine.Kept (order : GroupOrder) (engine : Engine) : Prop where
  ordered : engine.order = order
  minDepth : engine.minDepth = order.plan.minDepth
  maxDepth : engine.maxDepth = order.plan.maxDepth
  inGroup : engine.previous.isSome = true → engine.phase = .inGroup

/-- What becomes of an engine by walks, whatever their input and handler, and however they end. -/
inductive Engine.Reached (order : GroupOrder) : Engine → Prop
  | fresh : Reached order (.ofOrder order)
  | walked {ι σ ε : Type} [SortedGroups ι] (handler : Handler σ ε) (context : Context) (walk : Walk ι σ) :
      Reached order walk.engine → Reached order (outcome (Walking.run handler context) walk).2.engine

namespace Engine

variable {order : GroupOrder} {engine : Engine}

theorem mismatchAmong_ok {previous key : GroupKey} {depths : List Nat} {first : Nat}
    (found : engine.mismatchAmong previous key depths = .ok first) :
    first = engine.maxDepth + 1 ∨ ∃ depth ∈ depths, first = max depth engine.minDepth := by
  induction depths with
  | nil => exact .inl (Except.ok.inj found).symm
  | cons depth depths ih =>
      rw [mismatchAmong] at found
      split at found
      · obtain ⟨same, -, found⟩ := bind_eq_ok.mp found
        cases same with
        | true =>
            refine (ih found).imp_right ?_
            rintro ⟨other, member, place⟩
            exact ⟨other, List.mem_cons_of_mem _ member, place⟩
        | false => exact .inr ⟨depth, List.mem_cons_self, (Except.ok.inj found).symm⟩
      · cases found

theorem Kept.turn (kept : engine.Kept order) (phase : Phase) (previous : Option GroupKey) (stats : Stats)
    (inGroup : previous.isSome = true → phase = .inGroup) :
    Kept order { engine with phase, previous, stats } :=
  ⟨kept.ordered, kept.minDepth, kept.maxDepth, inGroup⟩

theorem Kept.depthsFrom_eq (kept : engine.Kept order) (first : Nat) :
    engine.depthsFrom first = order.depthsFrom first := by
  rw [depthsFrom, GroupOrder.depthsFrom, kept.maxDepth]

theorem Kept.depthsFrom_suffix (kept : engine.Kept order) {previous key : GroupKey} {first : Nat}
    (found : engine.mismatch previous key = .ok first) : order.depthsFrom first <:+ order.depths := by
  rw [GroupOrder.depths, GroupOrder.depthsFrom, GroupOrder.depthsFrom, ← kept.minDepth, ← kept.maxDepth]
  by_cases inside : engine.minDepth ≤ first ∧ first ≤ engine.maxDepth
  · have whole : engine.maxDepth + 1 - engine.minDepth =
        (first - engine.minDepth) + (engine.maxDepth + 1 - first) := by omega
    have joined : engine.minDepth + (first - engine.minDepth) = first := by omega
    rw [whole, ← List.range'_append_1, joined]
    exact List.suffix_append _ _
  · have beyond : engine.maxDepth + 1 - first = 0 := by
      rcases mismatchAmong_ok found with rfl | ⟨depth, _, rfl⟩ <;> omega
    rw [beyond]
    exact List.nil_suffix

end Engine

variable {ι σ ε : Type} {order : GroupOrder} {start opened : List Nat} {phase : Phase}
variable {previous : Option GroupKey}

structure Along (order : GroupOrder) (start : List Nat) (phase : Phase) (previous : Option GroupKey)
    (opened : List Nat) (walk : Walk ι (Recorded σ)) : Prop where
  kept : walk.engine.Kept order
  phase : walk.engine.phase = phase
  previous : walk.engine.previous = previous
  nested : Nested order.depths start walk.state.calls
  opened : walk.state.calls.foldl Call.shift start = opened

namespace Along

variable {walk : Walk ι (Recorded σ)} (along : Along order start phase previous opened walk)

include along

theorem inGroup (known : previous.isSome = true) : phase = .inGroup := by
  rw [← along.phase]
  exact along.kept.inGroup (along.previous ▸ known)

theorem call {call : Call} (fits : call.Nests order.depths opened) (state : σ) :
    Along order start phase previous (call.shift opened)
      { walk with state := { walk.state with state, calls := walk.state.calls ++ [call] } } where
  kept := along.kept
  phase := along.phase
  previous := along.previous
  nested := along.nested.append (along.opened ▸ fits)
  opened := by
    rw [List.foldl_append, along.opened]
    rfl

theorem of_calls {other : Walk ι (Recorded σ)} (engine : other.engine = walk.engine)
    (calls : other.state.calls = walk.state.calls) : Along order start phase previous opened other where
  kept := engine ▸ along.kept
  phase := engine ▸ along.phase
  previous := engine ▸ along.previous
  nested := calls ▸ along.nested
  opened := calls ▸ along.opened

end Along

def Resting (order : GroupOrder) (start : List Nat) (walk : Walk ι (Recorded σ)) : Prop :=
  ∃ phase previous, Along order start phase previous (order.standing previous) walk

def Broken (order : GroupOrder) (start : List Nat) (walk : Walk ι (Recorded σ)) : Prop :=
  ∃ phase opened, Along order start phase none opened walk

theorem Along.broken {walk : Walk ι (Recorded σ)} (along : Along order start phase none opened walk) :
    Broken order start walk := ⟨phase, opened, along⟩

theorem Along.ended {walk : Walk ι (Recorded σ)} (along : Along order start phase none [] walk)
    (context : Context) (state : σ) : Broken order start { walk with
      engine.phase := .done
      state := { walk.state with state, calls := walk.state.calls ++ [.cleanup context] } } := by
  have fits : (Call.cleanup context).Nests order.depths [] := rfl
  have after := along.call fits state
  have kept := along.kept.turn .done walk.engine.previous walk.engine.stats (by simp [along.previous])
  exact ⟨.done, [], kept, rfl, along.previous, after.nested, after.opened⟩

inductive ByInput : Stop (Failure ε) → Prop
  | failed (cause : Error) : ByInput (.failed (.input cause))
  | overrun : ByInput .overrun

/-- How a walk fails: within a group, or by its input between two. A key that was `held` before the walk
may also be there still. -/
def Left (order : GroupOrder) (start : List Nat) (held : Prop) (stop : Stop (Failure ε))
    (walk : Walk ι (Recorded σ)) : Prop :=
  Broken order start walk ∨ (held ∨ ByInput stop) ∧ Resting order start walk

namespace Walking

theorem settles_call (call : List Tuple → Call) (action : ExceptT ε (StateM σ) Unit) {next : List Nat}
    (fits : ∀ given, (call given).Nests order.depths opened)
    (shifts : ∀ given, (call given).shift opened = next) :
    Settles (Along order start phase previous opened)
      (callback (Recorded.perform (fun _ => none) call action) : Walking ι (Recorded σ) ε Unit)
      (fun _ => Along order start phase previous next)
      (fun _ => Along order start phase previous next) := by
  intro walk along
  have after := along.call (fits walk.state.given) (outcome action walk.state.state).2
  rw [shifts] at after
  rw [outcome_callback_eq, Recorded.outcome_perform]
  cases (outcome action walk.state.state).1 with
  | error cause => exact after
  | ok value => exact after

theorem settles_count (change : Stats → Stats) {broken : Stop (Failure ε) → Walk ι (Recorded σ) → Prop} :
    Settles (Along order start phase previous opened)
      (count change : Walking ι (Recorded σ) ε Unit)
      (fun _ => Along order start phase previous opened) broken := by
  intro walk along
  have kept := along.kept.turn walk.engine.phase walk.engine.previous (change walk.engine.stats)
    along.kept.inGroup
  exact ⟨kept, along.phase, along.previous, along.nested, along.opened⟩

theorem settles_check {α : Type} (result : Except Error α) {before : Walk ι (Recorded σ) → Prop} :
    Settles before (check result : Walking ι (Recorded σ) ε α)
      (fun value walk => result = .ok value ∧ before walk)
      (fun stop walk => ByInput stop ∧ before walk) := by
  intro walk held
  cases result with
  | ok value => exact ⟨rfl, held⟩
  | error cause => exact ⟨.failed cause, held⟩

theorem settles_raise {α : Type} (result : Except (Stop Error) α) {before : Walk ι (Recorded σ) → Prop} :
    Settles before (raise result : Walking ι (Recorded σ) ε α) (fun _ => before) (fun _ => before) := by
  intro walk held
  cases result with
  | ok value => exact held
  | error stop => exact held

theorem settles_takePrevious {broken : Stop (Failure ε) → Walk ι (Recorded σ) → Prop} :
    Settles (Along order start phase previous opened)
      (takePrevious : Walking ι (Recorded σ) ε (Option GroupKey))
      (fun taken walk => taken = previous ∧ Along order start phase none opened walk) broken := by
  intro walk along
  have kept := along.kept.turn walk.engine.phase none walk.engine.stats (by simp)
  exact ⟨along.previous, kept, along.phase, rfl, along.nested, along.opened⟩

variable (handler : Handler σ ε) (key : GroupKey)

theorem settles_openGroup {depth : Nat} (fits : opened.reverse ++ [depth] <+: order.depths) :
    Settles (Along order start phase none opened)
      (openGroup handler.recorded key depth : Walking ι (Recorded σ) ε Unit)
      (fun _ => Along order start phase none (depth :: opened)) (fun _ => Broken order start) := by
  refine Settles.get_bind fun seen _ => Settles.bind ?_ fun _ => settles_count _
  exact Settles.imp (settles_call (fun _ => .openGroup depth _ key) _ (fun _ => fits) fun _ => rfl)
    (fun _ _ => id) fun _ _ => Along.broken

theorem settles_closeGroup {depth : Nat} :
    Settles (Along order start phase none (depth :: opened))
      (closeGroup handler.recorded key depth : Walking ι (Recorded σ) ε Unit)
      (fun _ => Along order start phase none opened) (fun _ => Broken order start) := by
  refine Settles.get_bind fun seen _ => Settles.bind ?_ fun _ => settles_count _
  exact Settles.imp (settles_call (fun _ => .closeGroup depth _ key) _ (fun _ => rfl) fun _ => rfl)
    (fun _ _ => id) fun _ _ => Along.broken

theorem settles_opens {outer depths : List Nat} (whole : outer ++ depths = order.depths) :
    Settles (Along order start phase none outer.reverse)
      (depths.forM (openGroup handler.recorded key) : Walking ι (Recorded σ) ε Unit)
      (fun _ => Along order start phase none order.depths.reverse) (fun _ => Broken order start) := by
  induction depths generalizing outer with
  | nil =>
      rw [List.append_nil] at whole
      exact Settles.pure _ fun walk along => whole ▸ along
  | cons depth depths ih =>
      have fits : outer.reverse.reverse ++ [depth] <+: order.depths := by
        rw [List.reverse_reverse, ← whole, List.append_cons outer depth depths]
        exact List.prefix_append _ _
      rw [List.append_cons] at whole
      have rest := ih whole
      rw [List.reverse_append] at rest
      rw [List.forM_eq_forM] at rest ⊢
      rw [List.forM_cons]
      exact (settles_openGroup handler key fits).bind fun _ => rest

theorem settles_closes {depths : List Nat} :
    Settles (Along order start phase none (depths ++ opened))
      (depths.forM (closeGroup handler.recorded key) : Walking ι (Recorded σ) ε Unit)
      (fun _ => Along order start phase none opened) (fun _ => Broken order start) := by
  induction depths with
  | nil => exact Settles.pure _ fun walk along => along
  | cons depth depths ih =>
      rw [List.forM_eq_forM] at ih ⊢
      rw [List.forM_cons]
      exact (settles_closeGroup handler key).bind fun _ => ih

theorem settles_closeMismatch (inGroup : previous.isSome = true → phase = .inGroup) :
    Settles (Along order start phase previous (order.standing previous))
      (closeMismatch handler.recorded key : Walking ι (Recorded σ) ε Nat)
      (fun first walk => ∃ outer, outer ++ order.depthsFrom first = order.depths ∧
        Along order start .inGroup none outer.reverse walk)
      (fun _ => Broken order start) := by
  refine settles_takePrevious.bind fun taken => Settles.of_and ?_
  rintro rfl
  refine Settles.get_bind fun seen along => ?_
  have kept := along.kept
  simp only [along.phase]
  split
  · rename_i before
    refine ((settles_check _).imp (fun _ _ => id) fun _ _ failed => failed.2.broken).bind fun first =>
      Settles.of_and fun found => ?_
    obtain ⟨outer, whole⟩ := kept.depthsFrom_suffix found
    have standing : order.standing (some before) = (order.depthsFrom first).reverse ++ outer.reverse := by
      rw [← List.reverse_append, whole]
      rfl
    rw [kept.depthsFrom_eq, standing]
    refine (settles_closes handler before).bind fun _ => Settles.pure _ fun walk along => ?_
    exact ⟨outer, whole, along⟩
  · rename_i apart
    have none : taken = none := by
      rw [Option.eq_none_iff_forall_ne_some]
      intro before known
      exact apart before (inGroup (by simp [known])) known
    intro walk along
    rw [none] at along
    have turned := along.kept.turn .inGroup walk.engine.previous walk.engine.stats fun _ => rfl
    refine ⟨[], ?_, turned, rfl, along.previous, along.nested, along.opened⟩
    rw [kept.minDepth]
    rfl

theorem settles_closing :
    Settles (Resting order start) (closing handler.recorded : Walking ι (Recorded σ) ε Unit)
      (fun _ walk => ∃ phase, Along order start phase none [] walk) (fun _ => Broken order start) := by
  rintro walk ⟨phase, previous, along⟩
  refine (settles_takePrevious.bind fun taken => Settles.of_and ?_) walk along
  rintro rfl
  cases taken with
  | none => exact Settles.pure _ fun walk along => ⟨phase, along⟩
  | some before =>
      refine Settles.get_bind fun seen along => ?_
      have standing : order.standing (some before) = order.depths.reverse ++ [] :=
        (List.append_nil _).symm
      simp only [along.kept.depthsFrom_eq, along.kept.minDepth, standing]
      exact (settles_closes handler before).imp (fun _ _ along => ⟨phase, along⟩) fun _ _ => id

theorem settles_ending (context : Context) :
    Settles (fun walk => ∃ phase, Along order start phase none [] walk)
      (ending handler.recorded context : Walking ι (Recorded σ) ε Stats)
      (fun _ => Broken order start) (fun _ => Broken order start) := by
  rintro walk ⟨phase, along⟩
  have broken := along.ended context (outcome (handler.cleanup context) walk.state.state).2
  rw [outcome_ending, handler.outcome_recorded_cleanup]
  cases (outcome (handler.cleanup context) walk.state.state).1 with
  | ok _ => exact broken
  | error cause => exact broken

variable [SortedGroups ι]

theorem settles_leaving (elements : Elements ι) :
    Settles (Along order start phase previous order.depths.reverse)
      (leaving handler.recorded key elements : Walking ι (Recorded σ) ε Unit)
      (fun _ => Along order start phase previous order.depths.reverse)
      (fun _ => Along order start phase previous order.depths.reverse) := by
  refine (settles_call (.elements key) _ (fun _ => List.reverse_reverse _) fun _ => rfl).bind fun _ => ?_
  simp only
  refine Settles.bind (Settles.modify fun walk along => along.of_calls rfl rfl) fun _ => ?_
  exact (settles_raise _).bind fun drained => settles_count _

theorem calls_read (limit : Nat) (elements : Elements ι) (seen : Recorded σ) :
    (handler.recorded.read limit elements seen).2.calls = seen.calls := by
  induction limit generalizing elements seen with
  | zero => rfl
  | succ limit ih =>
      rw [Handler.read]
      split
      · exact ih _ _
      · rfl

theorem settles_leaf :
    Settles (Along order start phase previous order.depths.reverse)
      (leaf handler.recorded key : Walking ι (Recorded σ) ε Unit)
      (fun _ => Along order start phase previous order.depths.reverse)
      (fun _ => Along order start phase previous order.depths.reverse) := by
  intro walk along
  rw [outcome_leaf_eq]
  exact settles_leaving handler key _ _ (along.of_calls rfl (calls_read handler _ _ _))

theorem settles_onKey :
    Settles (Resting order start) (onKey handler.recorded key : Walking ι (Recorded σ) ε Unit)
      (fun _ => Resting order start) (fun _ => Broken order start) := by
  rintro walk ⟨phase, previous, along⟩
  refine ((settles_closeMismatch handler key along.inGroup).bind fun first => ?_) walk along
  rintro turned ⟨outer, whole, along⟩
  refine Settles.get_bind (fun seen along => ?_) turned along
  simp only [along.kept.depthsFrom_eq]
  refine (settles_opens handler key whole).bind fun _ => ?_
  refine ((settles_leaf handler key).imp (fun _ _ => id) fun _ _ => Along.broken).bind fun _ => ?_
  refine Settles.modify fun walk along => ?_
  have kept := along.kept.turn walk.engine.phase (some key) walk.engine.stats fun _ => along.phase
  exact ⟨.inGroup, some key, kept, along.phase, rfl, along.nested, along.opened⟩

variable {held : Prop}

theorem settles_nextKey :
    Settles (Resting order start) (nextKey : Walking ι (Recorded σ) ε (Option Tuple))
      (fun _ => Resting order start) (Left order start held) := by
  intro walk rests
  rw [outcome_nextKey_eq]
  obtain ⟨phase, previous, along⟩ := rests
  cases (outcome SortedGroups.nextKey walk.input).1 with
  | ok tuple => exact ⟨phase, previous, along.of_calls rfl rfl⟩
  | error cause => exact .inr ⟨.inr (.failed cause), phase, previous, along.of_calls rfl rfl⟩

theorem settles_groups (limit : Nat) :
    Settles (Resting order start) (groups handler.recorded limit : Walking ι (Recorded σ) ε Unit)
      (fun _ => Resting order start) (Left order start held) := by
  induction limit with
  | zero => exact Settles.throw fun walk rests => .inr ⟨.inr .overrun, rests⟩
  | succ limit ih =>
      refine settles_nextKey.bind fun begun => ?_
      cases begun with
      | none => exact Settles.pure _ fun _ => id
      | some tuple =>
          refine Settles.get_bind fun seen _ => ?_
          refine ((settles_check _).imp (fun _ _ => id) ?_).bind fun key => Settles.of_and fun _ => ?_
          · rintro cause walk ⟨fault, rests⟩
            exact .inr ⟨.inr fault, rests⟩
          · exact ((settles_onKey handler key).imp (fun _ _ => id) fun _ _ => .inl).bind fun _ => ih

theorem settles_within : Settles (Resting order start)
    (within handler.recorded : Walking ι (Recorded σ) ε Unit)
    (fun _ walk => ∃ phase, Along order start phase none [] walk) (Left order start held) := by
  refine Settles.get_bind fun seen _ => ?_
  refine (settles_groups handler _).bind fun _ => ?_
  exact (settles_closing handler).imp (fun _ _ => id) fun _ _ => .inl

theorem settles_tour (context : Context) :
    Settles (Along order start phase previous (order.standing previous))
      (tour handler.recorded context : Walking ι (Recorded σ) ε Unit)
      (fun _ walk => ∃ phase, Along order start phase none [] walk)
      (Left order start (previous.isSome = true)) := by
  refine Settles.bind (Settles.imp (settles_call (fun _ => .setup context) _ (fun _ => trivial)
    fun _ => rfl) ?_ ?_) fun _ => settles_within handler
  · exact fun _ walk along => ⟨phase, previous, along⟩
  · intro cause walk along
    cases previous with
    | none => exact .inl along.broken
    | some before => exact .inr ⟨.inl rfl, phase, some before, along⟩

theorem settles_run (context : Context) :
    Settles (Along order start phase previous (order.standing previous))
      (run handler.recorded context : Walking ι (Recorded σ) ε Stats)
      (fun _ => Broken order start) (Left order start (previous.isSome = true)) := by
  intro walk along
  by_cases ended : walk.engine.phase = .done
  · have none : previous = none := by
      rw [Option.eq_none_iff_forall_ne_some]
      rintro before rfl
      cases (along.phase.symm.trans ended).symm.trans (along.inGroup rfl)
    rw [outcome_run_done _ context ended]
    rw [none] at along
    exact .inl along.broken
  · rw [outcome_run_eq _ context ended]
    refine ((settles_tour handler context).bind fun _ => ?_) walk along
    exact (settles_ending handler context).imp (fun _ _ => id) fun _ _ => .inl

end Walking

theorem Engine.Kept.along {walk : Walk ι σ} (kept : walk.engine.Kept order) :
    Along order (order.standing walk.engine.previous) walk.engine.phase walk.engine.previous
      (order.standing walk.engine.previous) walk.watched :=
  ⟨kept, rfl, rfl, .nil, rfl⟩

namespace Walking

variable [SortedGroups ι] (handler : Handler σ ε) (context : Context)

/-- However a walk ends, its calls have been nested, and if a key is held then all of its groups are open. -/
theorem exists_along {walk : Walk ι σ} (kept : walk.engine.Kept order) :
    ∃ phase previous opened,
      Along order (order.standing walk.engine.previous) phase previous opened
        (outcome (run handler.recorded context) walk.watched).2 ∧
      (previous.isSome = true → opened = order.depths.reverse ∧
        (walk.engine.previous.isSome = true ∨
          ∃ stop, (outcome (run handler.recorded context) walk.watched).1 = .error stop ∧ ByInput stop)) := by
  have settles := settles_run handler context walk.watched kept.along
  generalize outcome (run handler.recorded context) walk.watched = done at settles ⊢
  obtain ⟨result, last⟩ := done
  cases result with
  | ok stats =>
      obtain ⟨phase, opened, along⟩ := settles
      exact ⟨phase, none, opened, along, by simp⟩
  | error stop =>
      rcases settles with ⟨phase, opened, along⟩ | ⟨left, phase, previous, along⟩
      · exact ⟨phase, none, opened, along, by simp⟩
      · exact ⟨phase, previous, _, along, fun known =>
          ⟨if_pos known, left.imp_right fun cut => ⟨stop, rfl, cut⟩⟩⟩

end Walking

theorem Engine.Reached.kept {engine : Engine} (reached : engine.Reached order) : engine.Kept order := by
  induction reached with
  | fresh => exact ⟨rfl, rfl, rfl, by simp [Engine.ofOrder]⟩
  | walked handler context walk _ kept =>
      obtain ⟨_, _, _, along, _⟩ := Walking.exists_along handler context kept
      rw [Walking.outcome_run_recorded]
      exact along.kept

/-- Each walk of an engine is nested in itself if the engine holds no key, whatever the walks before were
and however they ended. A walk of an engine that holds a key takes the groups of this key for open.
Only a walk that its input cuts short leaves a key to the next one, and then the groups are open. -/
theorem Walking.run_resumes [SortedGroups ι] (handler : Handler σ ε) (context : Context) {walk : Walk ι σ}
    (reached : walk.engine.Reached order) :
    Nested order.depths (order.standing walk.engine.previous) (callsOf handler context walk) ∧
      ((outcome (run handler context) walk).2.engine.previous.isSome = true →
        (callsOf handler context walk).foldl Call.shift (order.standing walk.engine.previous) =
            order.depths.reverse ∧
          (walk.engine.previous.isSome = true ∨
            ∃ stop, (outcome (run handler context) walk).1 = .error stop ∧ ByInput stop)) := by
  obtain ⟨phase, previous, opened, along, left⟩ := exists_along handler context reached.kept
  refine ⟨along.nested, ?_⟩
  rw [outcome_run_recorded]
  intro known
  obtain ⟨whole, ends⟩ := left (along.previous ▸ known)
  exact ⟨along.opened.trans whole, ends⟩

end Rollup

namespace Visits

open Rollup

/-- A walk that ends at its second key, which is less than the first. -/
def cutShort : Walk GroupedTuples (Bool × List String) where
  engine := .ofOrder order.groups
  input := .ofList order.groups [.ok (visit "b" 1 0), .ok (visit "a" 1 1)]
  state := (false, [])

/-- The same engine again, with a tuple of the first key. -/
def resumed : Walk GroupedTuples (Bool × List String) where
  engine := (outcome (Walking.run lister ⟨plan, ⟨0⟩⟩) cutShort).2.engine
  input := .ofList order.groups [.ok (visit "b" 1 2)]
  state := (false, [])

theorem resumed_reached : resumed.engine.Reached order.groups := .walked _ _ _ .fresh

theorem cutShort_standing : order.groups.standing cutShort.engine.previous = [] := rfl

theorem resumed_standing : order.groups.standing resumed.engine.previous = [1, 0] := by decide +kernel

theorem cutShort_leaves :
    (outcome (Walking.run lister ⟨plan, ⟨0⟩⟩) cutShort).2.engine.previous.isSome = true := by
  decide +kernel

end Visits

open Rollup in
theorem Rollup.Walking.run_resumes_visits :
    (callsOf Visits.lister ⟨Visits.plan, ⟨0⟩⟩ Visits.cutShort).foldl Call.shift [] = [1, 0] ∧
      Nested Visits.order.groups.depths [1, 0] (callsOf Visits.lister ⟨Visits.plan, ⟨0⟩⟩ Visits.resumed) := by
  have begun : Visits.cutShort.engine.Reached Visits.order.groups := .fresh
  have whole : Visits.order.groups.depths.reverse = [1, 0] := by decide +kernel
  have first := run_resumes Visits.lister ⟨Visits.plan, ⟨0⟩⟩ begun
  have second := run_resumes Visits.lister ⟨Visits.plan, ⟨0⟩⟩ Visits.resumed_reached
  rw [Visits.cutShort_standing, whole] at first
  rw [Visits.resumed_standing] at second
  exact ⟨(first.2 Visits.cutShort_leaves).1, second.1⟩

open Rollup in
/-- The second walk opens no group, and yet it is told elements and closes two groups. -/
theorem Rollup.Walking.resumed_not_nested :
    Visits.resumed.engine.Reached Visits.order.groups ∧ Visits.resumed.engine.phase ≠ .done ∧
      ¬Nested Visits.order.groups.depths [] (callsOf Visits.lister ⟨Visits.plan, ⟨0⟩⟩ Visits.resumed) :=
  ⟨Visits.resumed_reached, by decide +kernel, by decide +kernel⟩

end Cogrouping
