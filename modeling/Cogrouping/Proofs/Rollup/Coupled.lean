import Cogrouping.Proofs.Rollup.Calls

/-!
Two handlers side by side. As long as their callbacks come to the same, so do the walks with them, and
where the second fails on its own, its walk stops there, whatever the walk with the first goes on to do.
-/

namespace Cogrouping

/-- Two actions come to the same, and are `alike` afterwards, unless the second fails on its own. What it
left then stays `behind` whatever the first goes on to do. -/
structure Coupled {σ τ ε α : Type} (alike : σ → τ → Prop) (behind : σ → ε × τ → Prop)
    (first : ExceptT ε (StateM σ) α) (second : ExceptT ε (StateM τ) α) : Prop where
  follows : ∀ left right, alike left right →
    (∃ last, outcome second right = ((outcome first left).1, last) ∧
      alike (outcome first left).2 last) ∨
    ∃ cause last, outcome second right = (.error cause, last) ∧
      behind (outcome first left).2 (cause, last)
  keeps : ∀ left stopped, behind left stopped → behind (outcome first left).2 stopped

namespace Coupled

variable {σ τ ε α β : Type} {alike : σ → τ → Prop} {behind : σ → ε × τ → Prop}
variable {first : ExceptT ε (StateM σ) α} {second : ExceptT ε (StateM τ) α}
variable {next : α → ExceptT ε (StateM σ) β} {following : α → ExceptT ε (StateM τ) β}

theorem bind (head : Coupled alike behind first second)
    (later : ∀ value, Coupled alike behind (next value) (following value)) :
    Coupled alike behind (first >>= next) (second >>= following) where
  follows left right similar := by
    have begun := head.follows left right similar
    rw [outcome_bind, outcome_bind]
    generalize outcome first left = done at begun ⊢
    obtain ⟨result, after⟩ := done
    rcases begun with ⟨between, same, similar⟩ | ⟨cause, last, stopped, left⟩
    · rw [same]
      cases result with
      | ok value => exact (later value).follows after between similar
      | error cause => exact .inl ⟨between, rfl, similar⟩
    · rw [stopped]
      refine .inr ⟨cause, last, rfl, ?_⟩
      cases result with
      | ok value => exact (later value).keeps after _ left
      | error cause => exact left
  keeps left stopped held := by
    have begun := head.keeps left stopped held
    rw [outcome_bind]
    generalize outcome first left = done at begun ⊢
    obtain ⟨result, after⟩ := done
    cases result with
    | ok value => exact (later value).keeps after stopped begun
    | error cause => exact begun

theorem of_outcome (result : Except ε α) {change : σ → σ} {other : τ → τ}
    (left : ∀ state, outcome first state = (result, change state))
    (right : ∀ state, outcome second state = (result, other state))
    (similar : ∀ state another, alike state another → alike (change state) (other another))
    (keeps : ∀ state stopped, behind state stopped → behind (change state) stopped) :
    Coupled alike behind first second where
  follows state another held := by
    rw [left, right]
    exact .inl ⟨other another, rfl, similar state another held⟩
  keeps state stopped held := by
    rw [left]
    exact keeps state stopped held

theorem pure (value : α) : Coupled alike behind (Pure.pure value) (Pure.pure value) :=
  of_outcome (.ok value) (outcome_pure value) (outcome_pure value) (fun _ _ => id) (fun _ _ => id)

theorem throw (cause : ε) : Coupled alike behind (MonadExcept.throw cause : ExceptT ε (StateM σ) α)
    (MonadExcept.throw cause) :=
  of_outcome (.error cause) (outcome_throw cause) (outcome_throw cause) (fun _ _ => id) (fun _ _ => id)

theorem modify {change : σ → σ} {other : τ → τ}
    (similar : ∀ state another, alike state another → alike (change state) (other another))
    (keeps : ∀ state stopped, behind state stopped → behind (change state) stopped) :
    Coupled alike behind (modify change : ExceptT ε (StateM σ) PUnit) (modify other) :=
  of_outcome (.ok ⟨⟩) (outcome_modify change) (outcome_modify other) similar keeps

theorem forM {items : List β} {step : β → ExceptT ε (StateM σ) PUnit}
    {other : β → ExceptT ε (StateM τ) PUnit}
    (each : ∀ item, Coupled alike behind (step item) (other item)) :
    Coupled alike behind (items.forM step) (items.forM other) := by
  induction items with
  | nil => exact pure _
  | cons item items ih =>
      rw [List.forM_eq_forM, List.forM_eq_forM] at ih ⊢
      rw [List.forM_cons, List.forM_cons]
      exact (each item).bind fun _ => ih

end Coupled

structure Handler.Coupled {σ τ ε : Type} (alike : σ → τ → Prop) (behind : σ → ε × τ → Prop)
    (first : Handler σ ε) (second : Handler τ ε) : Prop where
  openGroup : ∀ depth field key,
    Cogrouping.Coupled alike behind (first.openGroup depth field key) (second.openGroup depth field key)
  closeGroup : ∀ depth field key,
    Cogrouping.Coupled alike behind (first.closeGroup depth field key) (second.closeGroup depth field key)
  leave : ∀ key count,
    Cogrouping.Coupled alike behind (first.leave key count) (second.leave key count)
  patience : second.patience = first.patience
  wants : ∀ left right, alike left right → second.wants right = first.wants left
  enter : ∀ key left right, alike left right → alike (first.enter key left) (second.enter key right)
  receive : ∀ answer left right, alike left right →
    alike (first.receive answer left) (second.receive answer right)
  enter_keeps : ∀ key left stopped, behind left stopped → behind (first.enter key left) stopped
  receive_keeps : ∀ answer left stopped, behind left stopped →
    behind (first.receive answer left) stopped

namespace Rollup

variable {ι σ τ ε α : Type} {alike : σ → τ → Prop} {behind : σ → ε × τ → Prop}

structure Walk.Alike (alike : σ → τ → Prop) (left : Walk ι σ) (right : Walk ι τ) : Prop where
  engine : right.engine = left.engine
  input : right.input = left.input
  state : alike left.state right.state
  going : left.engine.phase ≠ .done

def Walk.Behind (behind : σ → ε × τ → Prop) (left : Walk ι σ) (stopped : Stop (Failure ε) × Walk ι τ) : Prop :=
  stopped.2.engine.phase ≠ .done ∧
    ∃ cause, stopped.1 = .failed (.handler cause) ∧ behind left.state (cause, stopped.2.state)

namespace Walking

theorem outcome_callback_eq (call : ExceptT ε (StateM σ) α) (walk : Walk ι σ) :
    outcome (callback call) walk =
      ((outcome call walk.state).1.mapError fun cause => .failed (.handler cause),
        { walk with state := (outcome call walk.state).2 }) := by
  rw [callback, outcome_bind_of_ok (outcome_get walk)]
  have run : call.run walk.state = outcome call walk.state := rfl
  simp only [run]
  generalize outcome call walk.state = done
  obtain ⟨result, state⟩ := done
  cases result <;> rfl

abbrev Together (alike : σ → τ → Prop) (behind : σ → ε × τ → Prop) (first : Walking ι σ ε α)
    (second : Walking ι τ ε α) : Prop :=
  Coupled (Walk.Alike alike) (Walk.Behind behind) first second

theorem together_callback {first : ExceptT ε (StateM σ) α} {second : ExceptT ε (StateM τ) α}
    (coupled : Coupled alike behind first second) :
    Together alike behind (callback first : Walking ι σ ε α) (callback second) where
  follows left right similar := by
    rw [outcome_callback_eq, outcome_callback_eq]
    rcases coupled.follows left.state right.state similar.state with ⟨last, same, still⟩ | stops
    · rw [same]
      exact .inl ⟨_, rfl, similar.engine, similar.input, still, similar.going⟩
    · obtain ⟨cause, last, stopped, left⟩ := stops
      rw [stopped]
      refine .inr ⟨.failed (.handler cause), _, rfl, ?_, cause, rfl, left⟩
      rw [similar.engine]
      exact similar.going
  keeps left stopped held := by
    obtain ⟨short, cause, same, held⟩ := held
    rw [outcome_callback_eq]
    exact ⟨short, cause, same, coupled.keeps _ _ held⟩

theorem together_check (result : Except Error α) :
    Together alike behind (check result : Walking ι σ ε α) (check result) := by
  cases result with
  | ok value => exact Coupled.pure value
  | error cause => exact Coupled.throw _

theorem together_raise (result : Except (Stop Error) α) :
    Together alike behind (raise result : Walking ι σ ε α) (raise result) := by
  cases result with
  | ok value => exact Coupled.pure value
  | error stop => exact Coupled.throw _

theorem together_change (change : Engine → Engine)
    (going : ∀ engine, engine.phase ≠ .done → (change engine).phase ≠ .done) :
    Together alike behind
      (modify fun walk => { walk with engine := change walk.engine } : Walking ι σ ε PUnit)
      (modify fun walk => { walk with engine := change walk.engine }) :=
  Coupled.modify
    (fun _ _ similar => ⟨congrArg change similar.engine, similar.input, similar.state,
      going _ similar.going⟩)
    fun _ _ => id

theorem together_count (change : Stats → Stats) :
    Together alike behind (count change : Walking ι σ ε Unit) (count change) :=
  together_change (fun engine => { engine with stats := change engine.stats }) fun _ => id

theorem together_takePrevious :
    Together alike behind (takePrevious : Walking ι σ ε _) (takePrevious : Walking ι τ ε _) where
  follows left right similar := by
    refine .inl ⟨{ right with engine.previous := none }, ?_, ?_⟩
    · have same : right.engine.previous = left.engine.previous := congrArg _ similar.engine
      exact congrArg (fun previous => (Except.ok previous, _)) same
    · exact ⟨congrArg (fun engine : Engine => { engine with previous := none }) similar.engine,
        similar.input, similar.state, similar.going⟩
  keeps _ _ := id

theorem together_get {next : Walk ι σ → Walking ι σ ε α} {following : Walk ι τ → Walking ι τ ε α}
    (later : ∀ left right, right.engine = left.engine → right.input = left.input →
      Together alike behind (next left) (following right)) :
    Together alike behind (get >>= next) (get >>= following) where
  follows left right similar := by
    rw [outcome_bind_of_ok (outcome_get left), outcome_bind_of_ok (outcome_get right)]
    exact (later left right similar.engine similar.input).follows left right similar
  keeps left stopped held := by
    rw [outcome_bind_of_ok (outcome_get left)]
    exact (later left ⟨left.engine, left.input, stopped.2.state⟩ rfl rfl).keeps left stopped held

variable [SortedGroups ι]

theorem outcome_nextKey_eq (walk : Walk ι σ) :
    outcome (nextKey : Walking ι σ ε _) walk =
      ((outcome (SortedGroups.nextKey (σ := ι)) walk.input).1.mapError fun cause => .failed (.input cause),
        { walk with input := (outcome (SortedGroups.nextKey (σ := ι)) walk.input).2 }) := by
  rw [nextKey, outcome_bind_of_ok (outcome_get walk)]
  have run : (SortedGroups.nextKey (σ := ι)).run walk.input = outcome SortedGroups.nextKey walk.input := rfl
  simp only [run]
  generalize outcome (SortedGroups.nextKey (σ := ι)) walk.input = asked
  obtain ⟨result, input⟩ := asked
  cases result <;> rfl

theorem together_nextKey :
    Together alike behind (nextKey : Walking ι σ ε _) (nextKey : Walking ι τ ε _) := by
  constructor
  · intro left right similar
    rw [outcome_nextKey_eq, outcome_nextKey_eq, similar.input]
    exact .inl ⟨_, rfl, similar.engine, rfl, similar.state, similar.going⟩
  · intro left stopped held
    rw [outcome_nextKey_eq]
    exact held

def leaving (handler : Handler σ ε) (key : GroupKey) (elements : Elements ι) : Walking ι σ ε Unit := do
  callback (handler.leave key elements.yielded)
  let (drained, elements) := elements.drain (elements.bound + 1)
  modify fun walk => { walk with input := elements.input }
  let drained ← raise drained
  count fun stats => { stats with
    groups := stats.groups + 1
    elements := stats.elements + elements.yielded
    drained := stats.drained + drained }

theorem outcome_leaf_eq (handler : Handler σ ε) (key : GroupKey) (walk : Walk ι σ) :
    outcome (leaf handler key) walk =
      let read := handler.read ((Elements.ofInput walk.input).bound + handler.patience)
        (Elements.ofInput walk.input) (handler.enter key walk.state)
      outcome (leaving handler key read.1) { walk with input := read.1.input, state := read.2 } := rfl

variable {first : Handler σ ε} {second : Handler τ ε} (coupled : first.Coupled alike behind second)

include coupled

theorem read_coupled (count : Nat) (elements : Elements ι) {left : σ} {right : τ}
    (similar : alike left right) :
    (second.read count elements right).1 = (first.read count elements left).1 ∧
      alike (first.read count elements left).2 (second.read count elements right).2 := by
  induction count generalizing elements left right with
  | zero => exact ⟨rfl, similar⟩
  | succ count ih =>
      rw [Handler.read, Handler.read, coupled.wants left right similar]
      by_cases wants : first.wants left = true
      · rw [if_pos wants, if_pos wants]
        exact ih _ (coupled.receive _ left right similar)
      · rw [if_neg wants, if_neg wants]
        exact ⟨rfl, similar⟩

theorem read_keeps (count : Nat) (elements : Elements ι) {left : σ} {stopped : ε × τ}
    (held : behind left stopped) : behind (first.read count elements left).2 stopped := by
  induction count generalizing elements left with
  | zero => exact held
  | succ count ih =>
      rw [Handler.read]
      split
      · exact ih _ (coupled.receive_keeps _ left stopped held)
      · exact held

variable (key : GroupKey)

omit [SortedGroups ι] in
theorem together_openGroup (depth : Nat) :
    Together alike behind (openGroup first key depth : Walking ι σ ε Unit)
      (openGroup second key depth) := by
  refine together_get fun left right sameEngine _ => ?_
  rw [sameEngine]
  exact (together_callback (coupled.openGroup _ _ _)).bind fun _ => together_count _

omit [SortedGroups ι] in
theorem together_closeGroup (depth : Nat) :
    Together alike behind (closeGroup first key depth : Walking ι σ ε Unit)
      (closeGroup second key depth) := by
  refine together_get fun left right sameEngine _ => ?_
  rw [sameEngine]
  exact (together_callback (coupled.closeGroup _ _ _)).bind fun _ => together_count _

omit [SortedGroups ι] in
theorem together_closeMismatch :
    Together alike behind (closeMismatch first key : Walking ι σ ε Nat) (closeMismatch second key) := by
  refine together_takePrevious.bind fun previous => together_get fun left right sameEngine _ => ?_
  rw [sameEngine]
  simp only
  split
  · refine (together_check _).bind fun depth => ?_
    exact (Coupled.forM fun place => together_closeGroup coupled _ place).bind fun _ => Coupled.pure _
  · exact (together_change (fun engine => { engine with phase := .inGroup }) (by simp)).bind
      fun _ => Coupled.pure _

theorem together_leaving (elements : Elements ι) :
    Together alike behind (leaving first key elements) (leaving second key elements) := by
  refine (together_callback (coupled.leave _ _)).bind fun _ => ?_
  simp only
  refine Coupled.bind (Coupled.modify (fun _ _ similar => ?_) fun _ _ => id) fun _ => ?_
  · exact ⟨similar.engine, rfl, similar.state, similar.going⟩
  · exact (together_raise _).bind fun drained => together_count _

theorem together_leaf :
    Together alike behind (leaf first key : Walking ι σ ε Unit) (leaf second key) := by
  constructor
  · intro left right similar
    rw [outcome_leaf_eq, outcome_leaf_eq]
    obtain ⟨sameElements, read⟩ := read_coupled coupled
      ((Elements.ofInput left.input).bound + first.patience) (Elements.ofInput left.input)
      (coupled.enter key left.state right.state similar.state)
    simp only [similar.input, coupled.patience, sameElements]
    exact (together_leaving coupled key _).follows _ _ ⟨similar.engine, rfl, read, similar.going⟩
  · intro left stopped held
    obtain ⟨short, cause, same, held⟩ := held
    rw [outcome_leaf_eq]
    refine (together_leaving coupled key _).keeps _ _ ⟨short, cause, same, ?_⟩
    exact read_keeps coupled _ _ (coupled.enter_keeps key left.state _ held)

theorem together_onKey :
    Together alike behind (onKey first key : Walking ι σ ε Unit) (onKey second key) := by
  refine (together_closeMismatch coupled key).bind fun depth => ?_
  refine together_get fun left right sameEngine _ => ?_
  rw [sameEngine]
  refine (Coupled.forM fun place => together_openGroup coupled key place).bind fun _ => ?_
  refine (together_leaf coupled key).bind fun _ => ?_
  exact together_change (fun engine => { engine with previous := some key }) fun _ => id

theorem together_groups (limit : Nat) :
    Together alike behind (groups first limit : Walking ι σ ε Unit) (groups second limit) := by
  induction limit with
  | zero => exact Coupled.throw _
  | succ limit ih =>
      refine together_nextKey.bind fun begun => ?_
      cases begun with
      | none => exact Coupled.pure _
      | some tuple =>
          refine together_get fun left right sameEngine _ => ?_
          rw [sameEngine]
          refine (together_check _).bind fun key => ?_
          exact (together_onKey coupled key).bind fun _ => ih

end Walking

end Rollup

end Cogrouping
