import Cogrouping.Proofs.Order.Total
import Cogrouping.Proofs.Rollup.Brackets

/-!
Walks over input that fails somewhere. A failure that a handler passes over leaves its group open, so
that the input gives no further group: whatever the handler does, the walk fails before its end.
-/

namespace Cogrouping

namespace GroupedTuples

/-- What may keep a list of tuples from giving the next tuple. -/
inductive Fault (order : GroupOrder) (items : List (Except Error Tuple)) : Error → Prop
  | item {cause : Error} : .error cause ∈ items → Fault order items cause
  | compared {left right : Tuple} {cause : Error} : order.compare left right = .error cause →
      Fault order items cause
  | unsorted {left right : Tuple} : order.compare left right = .ok .gt →
      Fault order items (.invariant (.unsorted right.display left.display))
  | notDrained : Fault order items (.invariant .notDrained)

/-- Some tuple is not held equal to itself, so that its group comes again and again. -/
def Stalls (order : GroupOrder) (items : List (Except Error Tuple)) : Prop :=
  ∃ tuple ordering, .ok tuple ∈ items ∧ order.compare tuple tuple = .ok ordering ∧ ordering ≠ .eq

structure Owes (order : GroupOrder) (items : List (Except Error Tuple)) (input : GroupedTuples) : Prop where
  ordered : input.order = order
  inside : ∀ item ∈ input.ahead, item ∈ items
  owed : ∃ cause, .error cause ∈ input.ahead

variable {order : GroupOrder} {items : List (Except Error Tuple)} {input : GroupedTuples}

theorem Owes.length_pos (owes : input.Owes order items) : 0 < input.ahead.length := by
  obtain ⟨cause, member⟩ := owes.owed
  exact List.length_pos_of_mem member

theorem Owes.pass {tuple : Tuple} {next : GroupedTuples} (owes : input.Owes order items)
    (ordered : next.order = order) (ahead : input.ahead = .ok tuple :: next.ahead) :
    next.Owes order items := by
  obtain ⟨_, inside, cause, member⟩ := owes
  rw [ahead] at inside member
  refine ⟨ordered, fun item behind => inside item (List.mem_cons_of_mem _ behind), cause, ?_⟩
  simpa using member

theorem Owes.keep {next : GroupedTuples} (owes : input.Owes order items)
    (ordered : next.order = order) (ahead : next.ahead = input.ahead) : next.Owes order items := by
  refine ⟨ordered, ?_, ?_⟩
  · rw [ahead]
    exact owes.inside
  · rw [ahead]
    exact owes.owed

structure Fresh (input : GroupedTuples) : Prop where
  inGroup : input.inGroup = true
  first : ∃ first, input.key = some first ∧ input.pending = some first

theorem fault_of_checkSorted {previous : Option Tuple} {first : Tuple} {cause : Error}
    (checked : checkSorted order previous first = .error cause) : Fault order items cause := by
  cases previous with
  | none => cases checked
  | some previous =>
      rw [checkSorted] at checked
      cases compared : order.compare previous first with
      | error other =>
          simp only [compared, error_bind, Except.error.injEq] at checked
          exact checked ▸ .compared compared
      | ok ordering =>
          cases ordering with
          | lt => simp [compared] at checked
          | eq => simp [compared] at checked
          | gt =>
              simp only [compared, ok_bind, if_true, throw_eq_error, Except.error.injEq] at checked
              exact checked ▸ .unsorted compared

inductive NextKey (order : GroupOrder) (items : List (Except Error Tuple)) (input : GroupedTuples) :
    Except Error (Option Tuple) × GroupedTuples → Prop
  | first {first : Tuple} {begun : GroupedTuples} : begun.Owes order items → begun.Fresh →
      begun.ahead = input.ahead → NextKey order items input (.ok (some first), begun)
  | fault {cause : Error} {last : GroupedTuples} : Fault order items cause →
      NextKey order items input (.error cause, last)

theorem nextKey_owes (owes : input.Owes order items) :
    NextKey order items input (outcome nextKey input) := by
  cases inside : input.inGroup with
  | true =>
      rw [outcome_nextKey_inside inside]
      exact .fault .notDrained
  | false =>
      obtain ⟨item, rest, ahead⟩ := List.exists_cons_of_length_pos owes.length_pos
      cases item with
      | error cause =>
          rw [nextKey, outcome_bind_of_ok (outcome_get input)]
          simp only [inside, Bool.false_eq_true, if_false]
          rw [outcome_bind_of_error (outcome_fill_error ahead)]
          exact .fault (.item (owes.inside _ (by simp [ahead])))
      | ok first =>
          rw [outcome_nextKey_ahead ahead inside, owes.ordered]
          cases checked : checkSorted order input.key first with
          | error cause => exact .fault (fault_of_checkSorted checked)
          | ok => exact .first (owes.keep rfl ahead.symm) ⟨rfl, first, rfl, rfl⟩ ahead.symm

inductive NextValue (order : GroupOrder) (items : List (Except Error Tuple)) (input : GroupedTuples) :
    Except Error (Option Tuple) × GroupedTuples → Prop
  | value {tuple : Tuple} {next : GroupedTuples} : next.Owes order items →
      input.ahead = .ok tuple :: next.ahead → NextValue order items input (.ok (some tuple), next)
  | ended {next : GroupedTuples} : next.Owes order items → next.ahead = input.ahead →
      (input.Fresh → Stalls order items) → NextValue order items input (.ok none, next)
  | fault {cause : Error} {next : GroupedTuples} : Fault order items cause → next.inGroup = true →
      NextValue order items input (.error cause, next)

theorem belongs_eq_ok_false {first : Tuple} (apart : belongs order (some first) (some first) = .ok false) :
    ∃ ordering, order.compare first first = .ok ordering ∧ ordering ≠ .eq := by
  rw [belongs] at apart
  cases compared : order.compare first first with
  | error cause => simp [compared, Except.map] at apart
  | ok ordering => exact ⟨ordering, rfl, by simpa [compared, Except.map] using apart⟩

/-- A group that its own first tuple does not belong to. -/
theorem stalls_of_fresh (owes : input.Owes order items) (fresh : input.Fresh) {first : Tuple}
    {rest : List (Except Error Tuple)} (ahead : input.ahead = .ok first :: rest)
    (apart : belongs order input.key (some first) = .ok false) : Stalls order items := by
  obtain ⟨same, key, pending⟩ := fresh.first
  have opens : input.ahead = .ok same :: input.rest := by simp [GroupedTuples.ahead, pending]
  rw [ahead, List.cons.injEq, Except.ok.injEq] at opens
  obtain ⟨rfl, rfl⟩ := opens
  rw [key] at apart
  obtain ⟨ordering, compared, differ⟩ := belongs_eq_ok_false apart
  exact ⟨first, ordering, owes.inside _ (by simp [ahead]), compared, differ⟩

theorem fault_of_belongs {key next : Option Tuple} {cause : Error}
    (failed : belongs order key next = .error cause) : Fault order items cause := by
  cases key with
  | none => cases failed
  | some key =>
      cases next with
      | none => cases failed
      | some next =>
          rw [belongs] at failed
          cases compared : order.compare key next with
          | error other =>
              simp only [compared, Except.map, Except.error.injEq] at failed
              exact failed ▸ .compared compared
          | ok ordering => simp [compared, Except.map] at failed

theorem nextValue_owes (owes : input.Owes order items) :
    NextValue order items input (outcome nextValue input) := by
  cases inside : input.inGroup with
  | false =>
      rw [outcome_nextValue_outside inside]
      refine .ended owes rfl fun fresh => ?_
      rw [fresh.inGroup] at inside
      cases inside
  | true =>
      obtain ⟨item, rest, ahead⟩ := List.exists_cons_of_length_pos owes.length_pos
      cases item with
      | error cause =>
          rw [nextValue, outcome_bind_of_ok (outcome_get input)]
          simp only [inside, Bool.not_true, Bool.false_eq_true, if_false]
          rw [outcome_bind_of_error (outcome_fill_error ahead)]
          exact .fault (.item (owes.inside _ (by simp [ahead]))) inside
      | ok first =>
          rw [outcome_nextValue_ahead ahead inside, owes.ordered]
          cases belonging : belongs order input.key (some first) with
          | error cause => exact .fault (fault_of_belongs belonging) inside
          | ok within =>
              cases within with
              | true => exact .value (owes.pass rfl ahead) ahead
              | false =>
                  refine .ended (owes.keep rfl ahead.symm) ahead.symm fun fresh => ?_
                  exact stalls_of_fresh owes fresh ahead belonging

/-- Input that will not give `limit` groups more before a failure: one is left, or the group that was begun
last will not end. -/
inductive Doomed (order : GroupOrder) (items : List (Except Error Tuple)) (limit : Nat)
    (input : GroupedTuples) : Prop
  | owing : input.Owes order items → Stalls order items ∨ input.ahead.length < limit →
      Doomed order items limit input
  | stuck : input.inGroup = true → Stalls order items ∨ 0 < limit → Doomed order items limit input

end GroupedTuples

namespace Elements

variable {order : GroupOrder} {items : List (Except Error Tuple)} {limit : Nat}
variable {elements : Elements GroupedTuples}

inductive Owing (order : GroupOrder) (items : List (Except Error Tuple)) (limit : Nat)
    (elements : Elements GroupedTuples) : Prop
  | fresh : elements.finished = false → elements.input.Owes order items → elements.input.Fresh →
      GroupedTuples.Stalls order items ∨ elements.input.ahead.length ≤ limit →
      Owing order items limit elements
  | going : elements.input.Owes order items →
      GroupedTuples.Stalls order items ∨ elements.input.ahead.length < limit →
      Owing order items limit elements
  | stuck : elements.finished = true → elements.input.inGroup = true →
      GroupedTuples.Stalls order items ∨ 0 < limit → Owing order items limit elements

inductive Next (order : GroupOrder) (items : List (Except Error Tuple)) (limit : Nat)
    (elements : Elements GroupedTuples) : Option (Except Error Tuple) × Elements GroupedTuples → Prop
  | value {tuple : Tuple} {next : Elements GroupedTuples} : next.Owing order items limit →
      next.input.ahead.length < elements.input.ahead.length →
      Next order items limit elements (some (.ok tuple), next)
  | ended {next : Elements GroupedTuples} : next.Owing order items limit → next.finished = true →
      Next order items limit elements (none, next)
  | fault {cause : Error} {next : Elements GroupedTuples} : GroupedTuples.Fault order items cause →
      next.Owing order items limit → Next order items limit elements (some (.error cause), next)

theorem next_error {cause : Error} {last : GroupedTuples} (going : elements.finished = false)
    (asked : outcome GroupedTuples.nextValue elements.input = (.error cause, last)) :
    elements.next = (some (.error cause), { elements with input := last, finished := true }) := by
  have pulled : (SortedGroups.nextValue (σ := GroupedTuples)).run elements.input = (.error cause, last) :=
    asked
  simp [next, going, pulled]

theorem Owing.next (owing : elements.Owing order items limit) :
    Next order items limit elements elements.next := by
  cases finished : elements.finished with
  | true =>
      rw [next_finished finished]
      exact .ended owing finished
  | false =>
      obtain ⟨owes, enough⟩ : elements.input.Owes order items ∧
          (GroupedTuples.Stalls order items ∨ elements.input.ahead.length < limit ∨
            elements.input.Fresh ∧ elements.input.ahead.length ≤ limit) := by
        cases owing with
        | fresh _ owes fresh enough => exact ⟨owes, enough.imp_right fun short => .inr ⟨fresh, short⟩⟩
        | going owes enough => exact ⟨owes, enough.imp_right .inl⟩
        | stuck ended => simp [finished] at ended
      have more := owes.length_pos
      have step := GroupedTuples.nextValue_owes owes
      generalize asked : outcome GroupedTuples.nextValue elements.input = result at step
      cases step with
      | @value tuple last owes ahead =>
          rw [next_value finished asked]
          rw [ahead, List.length_cons] at enough more
          refine .value (.going owes (enough.imp_right ?_)) ?_
          · simp only
            omega
          · simp [ahead]
      | @ended last owes ahead stalls =>
          rw [next_end finished asked]
          refine .ended (.going owes ?_) rfl
          rcases enough with stalled | short | ⟨fresh, _⟩
          · exact .inl stalled
          · exact .inr (by rw [ahead]; exact short)
          · exact .inl (stalls fresh)
      | @fault cause last fault inGroup =>
          rw [next_error finished asked]
          refine .fault fault (.stuck rfl inGroup (enough.imp_right ?_))
          omega

theorem Owing.doomed (owing : elements.Owing order items limit) (finished : elements.finished = true) :
    elements.input.Doomed order items limit := by
  cases owing with
  | fresh going => simp [finished] at going
  | going owes enough => exact .owing owes enough
  | stuck _ inGroup enough => exact .stuck inGroup enough

/-- Passing over the tuples of a group does not reach beyond a failure. -/
theorem Owing.drain (owing : elements.Owing order items limit) {count : Nat}
    (enough : elements.input.ahead.length < count) : match elements.drain count with
      | (.ok _, last) => last.input.Doomed order items limit
      | (.error stop, _) => ∃ cause, stop = .failed cause ∧ GroupedTuples.Fault order items cause := by
  induction count generalizing elements with
  | zero => omega
  | succ count ih =>
      have step := owing.next
      rw [Elements.drain]
      generalize elements.next = asked at step
      cases step with
      | ended owing finished => exact owing.doomed finished
      | @fault cause _ fault => exact ⟨cause, rfl, fault⟩
      | @value tuple next owing fewer =>
          have later := ih owing (by omega)
          simp only
          generalize next.drain count = done at later
          obtain ⟨result, last⟩ := done
          cases result with
          | ok drained => exact later
          | error cause => exact later

end Elements

theorem Handler.read_owing {σ ε : Type} (handler : Handler σ ε) {order : GroupOrder}
    {items : List (Except Error Tuple)} {limit : Nat} {elements : Elements GroupedTuples}
    (owing : elements.Owing order items limit) (count : Nat) (state : σ) :
    (handler.read count elements state).1.Owing order items limit := by
  induction count generalizing elements state with
  | zero => exact owing
  | succ count ih =>
      rw [read]
      split
      · have step := owing.next
        generalize elements.next = asked at step
        cases step with
        | value owing => exact ih owing _
        | ended owing => exact ih owing _
        | fault _ owing => exact ih owing _
      · exact owing

namespace GroupedTuples

structure Begun (order : GroupOrder) (items : List (Except Error Tuple)) (limit : Nat)
    (input : GroupedTuples) : Prop where
  owes : input.Owes order items
  fresh : input.Fresh
  enough : Stalls order items ∨ input.ahead.length ≤ limit

end GroupedTuples

namespace Rollup

open GroupedTuples (Begun Doomed Stalls)

inductive Fault {ε : Type} (groups order : GroupOrder) (items : List (Except Error Tuple)) :
    Failure ε → Prop
  | handler (cause : ε) : Fault groups order items (.handler cause)
  | input {cause : Error} : GroupedTuples.Fault order items cause → Fault groups order items (.input cause)
  | key {tuple : Tuple} {cause : Error} : GroupKey.ofTuple groups.plan tuple = .error cause →
      Fault groups order items (.input cause)
  | mismatch {previous key : GroupKey} {cause : Error} :
      (Engine.ofOrder groups).mismatch previous key = .error cause →
      Fault groups order items (.input cause)

/-- A walk fails, or its groups come again and again. -/
inductive Halts {ε : Type} (groups order : GroupOrder) (items : List (Except Error Tuple)) :
    Stop (Failure ε) → Prop
  | failed {failure : Failure ε} : Fault groups order items failure → Halts groups order items (.failed failure)
  | overrun : Stalls order items → Halts groups order items .overrun

variable {σ ε α : Type} {groups order : GroupOrder} {items : List (Except Error Tuple)} {limit : Nat}
variable {kind : GroupedTuples → Prop}

structure Walk.Over (groups : GroupOrder) (kind : GroupedTuples → Prop) (walk : Walk GroupedTuples σ) :
    Prop where
  order : walk.engine.order = groups
  tells : walk.engine.mismatch = (Engine.ofOrder groups).mismatch
  input : kind walk.input

theorem Walk.Over.keep {walk : Walk GroupedTuples σ} (stands : walk.Over groups kind) (phase : Phase)
    (previous : Option GroupKey) (stats : Stats) {input : GroupedTuples} (state : σ)
    {other : GroupedTuples → Prop} (holds : other input) :
    Walk.Over groups other ⟨{ walk.engine with phase, previous, stats }, input, state⟩ where
  order := stands.order
  tells := (Engine.mismatch_with walk.engine phase previous stats).trans stands.tells
  input := holds

namespace Walking

theorem ensures_callback (call : ExceptT ε (StateM σ) α) :
    Ensures (Walk.Over groups kind) (callback call : Walking GroupedTuples σ ε α)
      (fun _ => Walk.Over groups kind) (Halts groups order items) := by
  intro walk stands
  rw [callback, outcome_bind_of_ok (outcome_get walk)]
  simp only
  generalize call.run walk.state = done
  obtain ⟨result, state⟩ := done
  cases result with
  | ok value => exact stands.keep _ _ _ _ stands.input
  | error cause => exact .failed (.handler cause)

theorem ensures_check {result : Except Error α} {before : Walk GroupedTuples σ → Prop}
    (faults : ∀ cause, result = .error cause → Fault groups order items (.input cause : Failure ε)) :
    Ensures before (check result : Walking GroupedTuples σ ε α)
      (fun value walk => result = .ok value ∧ before walk) (Halts groups order items) := by
  intro walk held
  cases result with
  | ok value => exact ⟨rfl, held⟩
  | error cause => exact .failed (faults cause rfl)

theorem ensures_count (change : Stats → Stats) {fault : Stop (Failure ε) → Prop} :
    Ensures (Walk.Over groups kind) (count change : Walking GroupedTuples σ ε Unit)
      (fun _ => Walk.Over groups kind) fault :=
  Ensures.modify fun _ stands => stands.keep _ _ _ _ stands.input

theorem ensures_takePrevious {fault : Stop (Failure ε) → Prop} :
    Ensures (Walk.Over groups kind) (takePrevious : Walking GroupedTuples σ ε (Option GroupKey))
      (fun _ => Walk.Over groups kind) fault := by
  intro walk stands
  exact stands.keep _ _ _ _ stands.input

variable (handler : Handler σ ε) (key : GroupKey)

theorem ensures_openGroup (depth : Nat) :
    Ensures (Walk.Over groups kind) (openGroup handler key depth : Walking GroupedTuples σ ε Unit)
      (fun _ => Walk.Over groups kind) (Halts groups order items) :=
  Ensures.get_bind fun _ _ => (ensures_callback _).bind fun _ => ensures_count _

theorem ensures_closeGroup (depth : Nat) :
    Ensures (Walk.Over groups kind) (closeGroup handler key depth : Walking GroupedTuples σ ε Unit)
      (fun _ => Walk.Over groups kind) (Halts groups order items) :=
  Ensures.get_bind fun _ _ => (ensures_callback _).bind fun _ => ensures_count _

theorem ensures_closeMismatch :
    Ensures (Walk.Over groups kind) (closeMismatch handler key : Walking GroupedTuples σ ε Nat)
      (fun _ => Walk.Over groups kind) (Halts groups order items) := by
  refine ensures_takePrevious.bind fun previous => Ensures.get_bind fun seen stands => ?_
  simp only
  split
  · rename_i previous _
    have closes : ∀ first, Ensures (Walk.Over groups kind)
        ((seen.engine.depthsFrom first).reverse.forM (closeGroup handler previous) :
          Walking GroupedTuples σ ε PUnit)
        (fun _ => Walk.Over groups kind) (Halts groups order items) :=
      fun first => Ensures.forM fun depth => ensures_closeGroup handler previous depth
    refine (ensures_check fun cause failed => ?_).bind fun first => ?_
    · rw [stands.tells] at failed
      exact .mismatch failed
    · exact ((closes first).bind fun _ => Ensures.pure first fun _ held => held).of_and
  · intro walk stands
    exact stands.keep _ _ _ _ stands.input

theorem ensures_leaf :
    Ensures (Walk.Over groups (Begun order items limit))
      (leaf handler key : Walking GroupedTuples σ ε Unit)
      (fun _ => Walk.Over groups (Doomed order items limit)) (Halts groups order items) := by
  refine Ensures.get_bind fun seen stands => ?_
  obtain ⟨owes, fresh, enough⟩ := stands.input
  have begun : (Elements.ofInput seen.input).Owing order items limit := .fresh rfl owes fresh enough
  have read := handler.read_owing begun ((Elements.ofInput seen.input).bound + handler.patience)
    (handler.enter key seen.state)
  simp only
  generalize handler.read ((Elements.ofInput seen.input).bound + handler.patience)
    (Elements.ofInput seen.input) (handler.enter key seen.state) = left at read
  obtain ⟨elements, state⟩ := left
  have short : elements.input.ahead.length < elements.bound + 1 := by
    have bounded := GroupedTuples.length_ahead_le elements.input
    rw [Elements.bound]
    omega
  have drained := read.drain short
  generalize elements.drain (elements.bound + 1) = done at drained
  obtain ⟨result, last⟩ := done
  have stored : Ensures (Walk.Over groups (Begun order items limit))
      (set { seen with input := elements.input, state } : Walking GroupedTuples σ ε PUnit)
      (fun _ => Walk.Over groups fun _ => True) (Halts groups order items) :=
    Ensures.set (stands.keep _ _ _ _ trivial)
  have left : Ensures (Walk.Over groups fun _ => True)
      (modify fun walk => { walk with input := last.input } : Walking GroupedTuples σ ε PUnit)
      (fun _ => Walk.Over groups (· = last.input)) (Halts groups order items) :=
    Ensures.modify fun walk stands => stands.keep _ _ _ _ rfl
  refine stored.bind fun _ => (ensures_callback _).bind fun _ => left.bind fun _ => ?_
  cases result with
  | error stop =>
      obtain ⟨cause, rfl, fault⟩ := drained
      exact fun walk stands => .failed (.input fault)
  | ok count => exact fun walk stands => stands.keep _ _ _ _ (stands.input ▸ drained)

theorem ensures_onKey :
    Ensures (Walk.Over groups (Begun order items limit))
      (onKey handler key : Walking GroupedTuples σ ε Unit)
      (fun _ => Walk.Over groups (Doomed order items limit)) (Halts groups order items) := by
  have opens : ∀ depths : List Nat, Ensures (Walk.Over groups (Begun order items limit))
      (depths.forM (openGroup handler key) : Walking GroupedTuples σ ε PUnit)
      (fun _ => Walk.Over groups (Begun order items limit)) (Halts groups order items) :=
    fun _ => Ensures.forM fun depth => ensures_openGroup handler key depth
  refine (ensures_closeMismatch handler key).bind fun first => Ensures.get_bind fun seen _ => ?_
  refine (opens _).bind fun _ => (ensures_leaf handler key).bind fun _ => ?_
  exact Ensures.modify fun walk stands => stands.keep _ _ _ _ stands.input

theorem ensures_nextKey :
    Ensures (Walk.Over groups (Doomed order items (limit + 1)))
      (nextKey : Walking GroupedTuples σ ε (Option Tuple))
      (fun first walk => first.isSome ∧ walk.Over groups (Begun order items limit))
      (Halts groups order items) := by
  intro walk stands
  rw [nextKey, outcome_bind_of_ok (outcome_get walk)]
  have pulled : GroupedTuples.nextKey.run walk.input = outcome GroupedTuples.nextKey walk.input := rfl
  have asked : (SortedGroups.nextKey (σ := GroupedTuples)).run walk.input = _ := pulled
  simp only [asked]
  cases stands.input with
  | stuck inGroup =>
      rw [GroupedTuples.outcome_nextKey_inside inGroup]
      exact .failed (.input .notDrained)
  | owing owes enough =>
      have step := GroupedTuples.nextKey_owes owes
      generalize outcome GroupedTuples.nextKey walk.input = result at step
      cases step with
      | fault fault => exact .failed (.input fault)
      | first begun fresh ahead =>
          refine ⟨rfl, stands.keep _ _ _ _ ⟨begun, fresh, ?_⟩⟩
          rw [ahead]
          exact enough.imp_right Nat.le_of_lt_succ

theorem ensures_groups (limit : Nat) :
    Ensures (Walk.Over groups (Doomed order items limit))
      (Walking.groups handler limit : Walking GroupedTuples σ ε Unit)
      (fun _ _ => False) (Halts groups order items) := by
  induction limit with
  | zero =>
      intro walk stands
      cases stands.input with
      | owing _ enough => exact .overrun (enough.resolve_right (Nat.not_lt_zero _))
      | stuck _ enough => exact .overrun (enough.resolve_right (Nat.not_lt_zero _))
  | succ limit ih =>
      refine ensures_nextKey.bind fun first => ?_
      cases first with
      | none => exact fun walk facts => by cases facts.1
      | some tuple =>
          refine Ensures.of_and (Ensures.get_bind fun seen stands => ?_)
          refine (ensures_check fun cause failed => ?_).bind fun key => Ensures.of_and ?_
          · rw [stands.order] at failed
            exact .key failed
          · exact (ensures_onKey handler key).bind fun _ => ih

def visits {ι : Type} [SortedGroups ι] (handler : Handler σ ε) (context : Context) :
    Walking ι σ ε Unit := do
  callback (handler.setup context)
  Walking.groups handler (SortedGroups.bound (← get).input + 1)

theorem ensures_visits (groups order : GroupOrder) (context : Context) {cause : Error} (failing : .error cause ∈ items) :
    Ensures (Walk.Over groups (· = .ofList order items))
      (visits handler context : Walking GroupedTuples σ ε Unit)
      (fun _ _ => False) (Halts groups order items) := by
  refine (ensures_callback _).bind fun _ => Ensures.get_bind fun seen listed => ?_
  intro walk stands
  have owes : walk.input.Owes order items := by
    rw [stands.input]
    exact ⟨rfl, fun _ member => member, cause, failing⟩
  have short : walk.input.ahead.length < SortedGroups.bound seen.input + 1 := by
    rw [listed.input, stands.input]
    exact Nat.lt_succ_of_le (GroupedTuples.length_ahead_le _)
  exact ensures_groups handler _ walk ⟨stands.order, stands.tells, .owing owes (.inr short)⟩

end Walking

end Rollup

section Cleanup

variable {ι σ ε : Type} [SortedGroups ι] (handler : Handler σ ε)
  (cleanup : Context → ExceptT ε (StateM σ) Unit)

theorem Handler.read_with_cleanup (count : Nat) (elements : Elements ι) (state : σ) :
    Handler.read { handler with cleanup } count elements state = handler.read count elements state := by
  induction count generalizing elements state with
  | zero => rfl
  | succ count ih =>
      rw [read, read]
      split
      · exact ih _ _
      · rfl

theorem Rollup.Walking.onKey_with_cleanup (key : GroupKey) :
    (onKey { handler with cleanup } key : Walking ι σ ε Unit) = onKey handler key := by
  have leaves : (leaf { handler with cleanup } key : Walking ι σ ε Unit) = leaf handler key := by
    unfold leaf
    simp only [Handler.read_with_cleanup]
  rw [onKey, leaves]
  rfl

theorem Rollup.Walking.groups_with_cleanup (limit : Nat) :
    (groups { handler with cleanup } limit : Walking ι σ ε Unit) = groups handler limit := by
  induction limit with
  | zero => rfl
  | succ limit ih => simp only [groups, ih, onKey_with_cleanup]

theorem Rollup.Walking.run_of_visits_error {walk last : Walk ι σ} {stop : Stop (Failure ε)}
    {context : Context} (awaits : walk.engine.phase ≠ .done)
    (stopped : outcome (visits handler context) walk = (.error stop, last)) :
    outcome (run { handler with cleanup } context) walk = (.error stop, last) := by
  have whole : outcome (visits handler context >>= fun _ => do
      finish { handler with cleanup }
      callback (cleanup context)
      return (← get).engine.stats) walk = (.error stop, last) := outcome_bind_of_error stopped
  simp only [visits, bind_assoc] at whole
  rw [run, outcome_bind_of_ok (outcome_get _)]
  simp only [groups_with_cleanup, if_neg awaits]
  exact whole

end Cleanup

/-- Tuples are held equal to themselves if the registered comparators are total. -/
theorem RecordOrder.not_stalls {comparators : Comparators} {order : RecordOrder}
    (sound : order.Sound comparators) (total : comparators.Total) (items : List (Except Error Tuple)) :
    ¬GroupedTuples.Stalls order.groups items := by
  rintro ⟨tuple, ordering, _, compared, apart⟩
  exact apart (groups_compare_self sound total compared)

/-- Where the input of a new walk has a failure among its tuples, the walk comes to no result: with total
comparators it fails, and with others it may also overrun. It does so whatever the handler does in the end,
for it does not come to that. -/
theorem Rollup.Walking.run_fails {σ ε : Type} {job : Job} {plan : Plan} {codec : FieldCodec}
    {comparators : Comparators} {order : RecordOrder} (built : Plan.build job = .ok plan)
    (made : RecordOrder.ofPlan plan codec comparators = .ok order) (groups : GroupOrder)
    (before after : List (Except Error Tuple)) (cause : Error) (handler : Handler σ ε) (context : Context)
    (state : σ) :
    ∃ stop last, Halts groups order.groups (before ++ .error cause :: after) stop ∧
      (comparators.Total → ∃ failure, stop = .failed failure) ∧
      ∀ cleanup, outcome (run { handler with cleanup } context)
        ⟨.ofOrder groups, GroupedTuples.ofList order.groups (before ++ .error cause :: after), state⟩ =
      (.error stop, last) := by
  obtain ⟨planSound, rfl⟩ := Plan.build_sound built
  obtain ⟨sound, rfl, -⟩ := RecordOrder.ofPlan_sound planSound made
  have failing : .error cause ∈ before ++ .error cause :: after := by simp
  have halts := ensures_visits handler groups order.groups context failing
  obtain ⟨stop, last, stopped, halts⟩ := halts.exists_error (fun _ _ => id)
    ⟨.ofOrder groups, .ofList order.groups (before ++ .error cause :: after), state⟩ ⟨rfl, rfl, rfl⟩
  have awaits : (Engine.ofOrder groups).phase ≠ .done := by simp [Engine.ofOrder]
  refine ⟨stop, last, halts, fun total => ?_, fun cleanup => run_of_visits_error handler cleanup awaits stopped⟩
  cases halts with
  | failed => exact ⟨_, rfl⟩
  | overrun stalls => exact absurd stalls (RecordOrder.not_stalls sound total _)

namespace Alike

/-- The visits by date alone: all pages are held equal. -/
def job : Job :=
  { Visits.job with orderBy := ⟨[.field "url" .ascending (some "alike"), .field "date" .ascending none]⟩ }

def comparators : Comparators := Comparators.empty.register "alike" fun _ _ => .eq

def plan : Plan := valueOf (Plan.build job) (by decide +kernel)

def fields : FieldCodec := valueOf (FieldCodec.ofPlan plan .standard 64) (by decide +kernel)

def order : RecordOrder := valueOf (RecordOrder.ofPlan plan fields comparators) (by decide +kernel)

theorem total : comparators.Total := by
  intro name comparator found type
  obtain ⟨-, rfl⟩ := Prod.mk.inj (List.mem_singleton.mp (Dictionary.find?_eq_some.mp found))
  exact { eq_swap := rfl, isLE_trans := fun _ _ => rfl }

def items : List (Except Error Tuple) :=
  [.ok (Visits.visit "b" 1 0), .ok (Visits.visit "a" 1 1), .error (.codec (.varintMissing 0)),
    .ok (Visits.visit "a" 2 0)]

/-- Asks on when a tuple cannot be had, and takes that for an end. -/
def heedless : Handler (Bool × List String) Unit :=
  { Visits.lister with receive := fun _ state => state, patience := 3 }

end Alike

theorem Rollup.Walking.run_fails_alike :
    ∃ failure last, ∀ cleanup, outcome (run { Alike.heedless with cleanup } ⟨Alike.plan, ⟨0⟩⟩)
      ⟨.ofOrder Alike.order.groups, GroupedTuples.ofList Alike.order.groups Alike.items, (false, [])⟩ =
      (.error (.failed failure), last) := by
  obtain ⟨stop, last, -, fails, runs⟩ := run_fails (eq_valueOf _) (eq_valueOf _) Alike.order.groups
    [.ok (Visits.visit "b" 1 0), .ok (Visits.visit "a" 1 1)] [.ok (Visits.visit "a" 2 0)]
    (.codec (.varintMissing 0)) Alike.heedless ⟨Alike.plan, ⟨0⟩⟩ (false, [])
  obtain ⟨failure, rfl⟩ := fails Alike.total
  exact ⟨failure, last, runs⟩

end Cogrouping
