import Cogrouping.Proofs.Rollup.Nested
import Cogrouping.Proofs.Rollup.Recorded

/-!
Handlers that read as much as they like. What a walk comes to follows from its input alone, and so do the
calls it makes. A handler that never fails decides only how many of the tuples of a group it takes.
-/

namespace Cogrouping

open Rollup

namespace Rollup

def Call.Takes : Call → Call → Prop
  | .elements key given, .elements other tuples => key = other ∧ given <+: tuples
  | made, offered => made = offered

def elementCount (calls : List Call) : Nat := ((leaves calls).map fun leaf => leaf.2.length).sum

theorem elementCount_append (calls others : List Call) :
    elementCount (calls ++ others) = elementCount calls + elementCount others := by
  rw [elementCount, leaves_append, List.map_append, List.sum_append]
  rfl

structure Stats.Counts (stats last : Stats) (calls : List Call) : Prop where
  groups : last.groups = stats.groups + (leaves calls).length
  elements : last.elements = stats.elements + elementCount calls
  drained : last.drained = stats.drained

theorem Stats.counts_foldl (calls : List Call) (stats : Stats) :
    stats.Counts (calls.foldl Stats.after stats) calls := by
  induction calls generalizing stats with
  | nil => exact ⟨rfl, rfl, rfl⟩
  | cons call calls ih =>
      obtain ⟨groups, elements, drained⟩ := ih (stats.after call)
      have split := elementCount_append [call] calls
      have first : leaves (call :: calls) = leaves [call] ++ leaves calls := leaves_append [call] calls
      rw [List.singleton_append] at split
      constructor
      · rw [List.foldl_cons, groups, first, List.length_append, ← Nat.add_assoc]
        cases call <;> rfl
      · rw [List.foldl_cons, elements, split, ← Nat.add_assoc]
        cases call <;> rfl
      · rw [List.foldl_cons, drained]
        cases call <;> rfl

end Rollup

theorem Recorded.run_perform {σ ε : Type} (call : List Tuple → Call) (action : ExceptT ε (StateM σ) Unit)
    (seen : Recorded σ) :
    ((perform (fun _ => none) call action).run seen).1 = (action.run seen.state).1 ∧
      ((perform (fun _ => none) call action).run seen).2.calls = seen.calls ++ [call seen.given] := by
  have run : (perform (fun _ => none) call action).run seen = outcome (perform (fun _ => none) call action) seen :=
    rfl
  rw [run, outcome_perform]
  exact ⟨rfl, rfl⟩

namespace Handler

variable {σ ε : Type} {handler : Handler σ ε}

theorem settled_recorded (limit : Nat) (seen : Recorded σ) :
    handler.recorded.settled limit seen = { seen with state := handler.settled limit seen.state } := by
  induction limit generalizing seen with
  | zero => rfl
  | succ limit ih =>
      rw [settled, settled, ih]
      have same : handler.recorded.wants seen = handler.wants seen.state := rfl
      rw [same]
      split <;> rfl

theorem browse_recorded (tuples : List Tuple) (seen : Recorded σ) :
    handler.recorded.browse tuples seen =
      ((handler.browse tuples seen.state).1,
        { seen with
          state := (handler.browse tuples seen.state).2
          given := seen.given ++ tuples.take (handler.browse tuples seen.state).1 }) := by
  induction tuples generalizing seen with
  | nil =>
      rw [browse, settled_recorded, List.take_nil, List.append_nil]
      rfl
  | cons tuple tuples ih =>
      have same : handler.recorded.wants seen = handler.wants seen.state := rfl
      rw [browse, browse, same]
      by_cases wants : handler.wants seen.state = true
      · rw [if_pos wants, if_pos wants, ih]
        have given : (handler.recorded.receive (some (.ok tuple)) seen).given = seen.given ++ [tuple] := rfl
        simp only [given, List.take_succ_cons, List.append_assoc, List.singleton_append]
        rfl
      · rw [if_neg wants, if_neg wants, List.take_zero, List.append_nil]

theorem Unfailing.recorded (unfailing : handler.Unfailing) : handler.recorded.Unfailing where
  setup context seen :=
    (Recorded.run_perform (fun _ => .setup context) _ seen).1.trans (unfailing.setup context seen.state)
  openGroup depth field key seen :=
    (Recorded.run_perform (fun _ => .openGroup depth field key) _ seen).1.trans
      (unfailing.openGroup depth field key seen.state)
  closeGroup depth field key seen :=
    (Recorded.run_perform (fun _ => .closeGroup depth field key) _ seen).1.trans
      (unfailing.closeGroup depth field key seen.state)
  leave key count seen :=
    (Recorded.run_perform (.elements key) _ seen).1.trans (unfailing.leave key count seen.state)
  cleanup context seen :=
    (Recorded.run_perform (fun _ => .cleanup context) _ seen).1.trans (unfailing.cleanup context seen.state)
  ends key tuples seen := by
    rw [browse_recorded]
    exact unfailing.ends key tuples seen.state

theorem respond_recorded (call : Call) (seen : Recorded σ) :
    ∃ made, made.Takes call ∧ (handler.recorded.respond seen call).calls = seen.calls ++ [made] ∧
      elementCount [made] + handler.recorded.unread seen call = elementCount [call] := by
  cases call with
  | setup context =>
      exact ⟨.setup context, rfl, (Recorded.run_perform (fun _ => .setup context) _ seen).2, rfl⟩
  | openGroup depth field key =>
      exact ⟨.openGroup depth field key, rfl,
        (Recorded.run_perform (fun _ => .openGroup depth field key) _ seen).2, rfl⟩
  | closeGroup depth field key =>
      exact ⟨.closeGroup depth field key, rfl,
        (Recorded.run_perform (fun _ => .closeGroup depth field key) _ seen).2, rfl⟩
  | cleanup context =>
      exact ⟨.cleanup context, rfl, (Recorded.run_perform (fun _ => .cleanup context) _ seen).2, rfl⟩
  | elements key tuples =>
      have whole := handler.browse_le tuples (handler.enter key seen.state)
      refine ⟨.elements key (tuples.take (handler.browse tuples (handler.enter key seen.state)).1),
        ⟨rfl, List.take_prefix _ _⟩, ?_, ?_⟩
      · rw [respond, browse_recorded]
        exact (Recorded.run_perform (.elements key) _ _).2
      · have count : (tuples.take (handler.browse tuples (handler.enter key seen.state)).1).length =
            (handler.browse tuples (handler.enter key seen.state)).1 := List.length_take_of_le whole
        rw [unread, browse_recorded]
        simp only [elementCount, leaves, Call.leaf?, List.filterMap_cons, List.filterMap_nil, List.map_cons,
          List.map_nil, List.sum_cons, List.sum_nil, count]
        exact Nat.add_sub_cancel' whole

theorem foldl_recorded (calls : List Call) (seen : Recorded σ) :
    ∃ made, List.Forall₂ Call.Takes made calls ∧
      (calls.foldl handler.recorded.respond seen).calls = seen.calls ++ made ∧
      elementCount made + handler.recorded.unreadAll seen calls = elementCount calls := by
  induction calls generalizing seen with
  | nil => exact ⟨[], .nil, (List.append_nil _).symm, rfl⟩
  | cons call calls ih =>
      obtain ⟨first, takes, written, count⟩ := respond_recorded call seen
      obtain ⟨made, others, later, rest⟩ := ih (handler.recorded.respond seen call)
      refine ⟨first :: made, .cons takes others, ?_, ?_⟩
      · rw [List.foldl_cons, later, written, List.append_assoc, List.singleton_append]
      · have here := elementCount_append [first] made
        have there := elementCount_append [call] calls
        rw [List.singleton_append] at here there
        rw [unreadAll]
        omega

end Handler

namespace GroupKey

variable (compare : GroupKey → GroupKey → Except Error Nat)

def checkTurn (previous : Option GroupKey) (key : GroupKey) : Except Error Unit :=
  match previous with
  | none => .ok ()
  | some before => (compare before key).map fun _ => ()

def checkAll (plan : Plan) : Option GroupKey → List Tuple → Except Error Unit
  | _, [] => .ok ()
  | previous, first :: firsts => do
      let key ← ofTuple plan first
      checkTurn compare previous key
      checkAll plan (some key) firsts

variable {compare} {previous : Option GroupKey} {key : GroupKey}

theorem exists_of_checkTurn_ok (checked : checkTurn compare previous key = .ok ()) :
    ∃ depth, ∀ before ∈ previous, compare before key = .ok depth := by
  cases previous with
  | none => exact ⟨0, by simp⟩
  | some before =>
      obtain ⟨depth, compared, -⟩ := map_eq_ok.mp checked
      exact ⟨depth, by simp [compared]⟩

theorem exists_of_checkTurn_error {cause : Error} (failed : checkTurn compare previous key = .error cause) :
    ∃ before, previous = some before ∧ compare before key = .error cause := by
  cases previous with
  | none => cases failed
  | some before => exact ⟨before, rfl, map_eq_error.mp failed⟩

end GroupKey

def GroupOrder.checkKeys (order : GroupOrder) (groups : List (Tuple × List Tuple)) : Except Error Unit :=
  GroupKey.checkAll (Rollup.Engine.ofOrder order).mismatch order.plan none (groups.map Prod.fst)

namespace Rollup

variable {ι : Type}

structure Course (ι : Type) where
  result : Except Error Unit
  calls : List Call
  engine : Engine
  input : ι

variable [SortedGroups ι]

def Walking.rest {σ ε : Type} (handler : Handler σ ε) (limit : Nat) : Walking ι σ ε Unit := do
  groups handler limit
  finish handler

def Course.Of (course : Course ι) (limit : Nat) (engine : Engine) (input : ι) : Prop :=
  ∀ {σ ε : Type} {handler : Handler σ ε}, handler.Unfailing → ∀ (stats : Stats) (state : σ),
    outcome (Walking.rest handler limit) ⟨{ engine with stats }, input, state⟩ =
      (course.result.mapError fun cause => .failed (.input cause),
        Walk.perform handler course.calls ⟨{ course.engine with stats }, course.input, state⟩)

namespace Walking

variable {input begun behind last : ι} {engine : Engine} {limit : Nat} {first : Tuple} {key : GroupKey}
  {cause : Error}

theorem course_end (asked : outcome (SortedGroups.nextKey (σ := ι)) input = (.ok none, last)) :
    Course.Of ⟨.ok (), engine.calls (fun _ _ => 0) engine.previous [],
      { engine with previous := none, phase := .done }, last⟩ (limit + 1) engine input := by
  intro σ ε handler unfailing stats state
  have stopped : outcome (groups handler (limit + 1)) ⟨{ engine with stats }, input, state⟩ =
      (.ok (), ⟨{ engine with stats }, last, state⟩) := by
    rw [groups, outcome_bind_of_ok (outcome_nextKey asked)]
    rfl
  rw [rest, outcome_bind_of_ok stopped]
  exact @outcome_finish _ _ _ _ unfailing _ fun _ _ => 0

section Group

variable (asked : outcome (SortedGroups.nextKey (σ := ι)) input = (.ok (some first), begun))

include asked

theorem outcome_groups_some {σ ε : Type} (handler : Handler σ ε) (stats : Stats) (state : σ) :
    outcome (rest handler (limit + 1)) ⟨{ engine with stats }, input, state⟩ =
      outcome (do
        let key ← check (GroupKey.ofTuple engine.order.plan first)
        onKey handler key
        rest handler limit : Walking ι σ ε Unit) ⟨{ engine with stats }, begun, state⟩ := by
  rw [rest, groups, bind_assoc, outcome_bind_of_ok (outcome_nextKey asked)]
  simp only [bind_assoc]
  rw [outcome_bind_of_ok (outcome_get _)]
  rfl

theorem course_unkeyed (failed : GroupKey.ofTuple engine.order.plan first = .error cause) :
    Course.Of ⟨.error cause, [], engine, begun⟩ (limit + 1) engine input := by
  intro σ ε handler unfailing stats state
  rw [outcome_groups_some asked, failed]
  rfl

variable (made : GroupKey.ofTuple engine.order.plan first = .ok key)

include made

theorem course_apart {before : GroupKey} (inGroup : engine.phase = .inGroup)
    (previous : engine.previous = some before) (failed : engine.mismatch before key = .error cause) :
    Course.Of ⟨.error cause, [], { engine with previous := none }, begun⟩ (limit + 1) engine input := by
  intro σ ε handler unfailing stats state
  have broken : outcome (closeMismatch handler key) ⟨{ engine with stats }, begun, state⟩ =
      (.error (.failed (.input cause)), ⟨{ engine with previous := none, stats }, begun, state⟩) := by
    have took : outcome (takePrevious : Walking ι σ ε _) ⟨{ engine with stats }, begun, state⟩ =
        (.ok engine.previous, ⟨{ engine with previous := none, stats }, begun, state⟩) := rfl
    have same := congrFun₂ (engine.mismatch_with engine.phase none stats) before key
    rw [closeMismatch, outcome_bind_of_ok took, outcome_bind_of_ok (outcome_get _)]
    simp only [inGroup, previous] at same ⊢
    rw [same, failed]
    rfl
  rw [outcome_groups_some asked, made, outcome_bind_of_ok (outcome_check _ _), onKey, bind_assoc,
    outcome_bind_of_error broken]
  rfl

theorem course_group [BoundedGroups ι] {tuples : List Tuple} {course : Course ι} {depth : Nat}
    (inGroup : engine.previous.isSome → engine.phase = .inGroup)
    (differs : ∀ before ∈ engine.previous, engine.mismatch before key = .ok depth)
    (yields : Yields begun tuples behind)
    (later : course.Of limit { engine with previous := some key, phase := .inGroup } behind) :
    Course.Of { course with
        calls := engine.turns (fun _ _ => depth) key engine.previous ++ [.elements key tuples] ++
          course.calls }
      (limit + 1) engine input := by
  intro σ ε handler unfailing stats state
  let opened : Walk ι σ := ⟨{ engine with stats }, begun, state⟩
  have differs : ∀ before ∈ opened.engine.previous, opened.engine.mismatch before key = .ok depth := by
    intro before known
    rw [← differs before known]
    exact congrFun₂ (engine.mismatch_with _ _ _) before key
  have reads : Yields opened.input tuples behind := yields
  have here : outcome (onKey handler key) opened = (.ok (), Walk.perform handler
      (opened.engine.turns (fun _ _ => depth) key opened.engine.previous ++ [.elements key tuples])
      { opened with engine.previous := some key, engine.phase := .inGroup, input := behind }) :=
    outcome_onKey unfailing inGroup differs reads
  rw [outcome_groups_some asked, made, outcome_bind_of_ok (outcome_check _ _), outcome_bind_of_ok here]
  refine (later unfailing _ _).trans (congrArg (Prod.mk _) ?_)
  exact Walk.perform_append (engine.turns (fun _ _ => depth) key engine.previous ++ [.elements key tuples])
    course.calls ⟨{ course.engine with stats }, course.input, state⟩

end Group

theorem leaves_group (differ : GroupKey → GroupKey → Nat) (tuples : List Tuple) (calls : List Call) :
    leaves (engine.turns differ key engine.previous ++ [.elements key tuples] ++ calls) =
      (key, tuples) :: leaves calls := by
  rw [leaves_append, leaves_append, Engine.leaves_turns]
  rfl

theorem exists_course [BoundedGroups ι] {delivered : List (Tuple × List Tuple)}
    (delivers : Delivers input delivered)
    (inGroup : engine.previous.isSome → engine.phase = .inGroup) (enough : delivered.length < limit) :
    ∃ course : Course ι, course.Of limit engine input ∧
      course.result = GroupKey.checkAll engine.mismatch engine.order.plan engine.previous
        (delivered.map Prod.fst) ∧
      (course.result = .ok () → Keyed engine.order.plan delivered (leaves course.calls)) := by
  induction delivers generalizing engine limit with
  | done asked =>
      obtain ⟨limit, rfl⟩ : ∃ rest, limit = rest + 1 := ⟨limit - 1, by omega⟩
      refine ⟨_, course_end asked, rfl, fun _ => ?_⟩
      rw [Engine.leaves_calls]
      exact .nil
  | @group input begun behind first tuples delivered asked yields delivers ih =>
      rw [List.length_cons] at enough
      obtain ⟨limit, rfl⟩ : ∃ rest, limit = rest + 1 := ⟨limit - 1, by omega⟩
      rw [List.map_cons, GroupKey.checkAll]
      cases made : GroupKey.ofTuple engine.order.plan first with
      | error cause => exact ⟨_, course_unkeyed asked made, rfl, by simp⟩
      | ok key =>
          rw [ok_bind]
          cases checked : GroupKey.checkTurn engine.mismatch engine.previous key with
          | error cause =>
              obtain ⟨before, previous, failed⟩ := GroupKey.exists_of_checkTurn_error checked
              have entered : engine.phase = .inGroup := inGroup (by simp [previous])
              exact ⟨_, course_apart asked made entered previous failed, rfl, by simp⟩
          | ok =>
              obtain ⟨depth, differs⟩ := GroupKey.exists_of_checkTurn_ok checked
              let turned : Engine := { engine with previous := some key, phase := .inGroup }
              have within : turned.previous.isSome → turned.phase = .inGroup := fun _ => rfl
              obtain ⟨course, follows, result, keyed⟩ := ih within (Nat.lt_of_succ_lt_succ enough)
              have same : turned.mismatch = engine.mismatch := engine.mismatch_with _ _ engine.stats
              rw [same] at result
              refine ⟨_, course_group asked made inGroup differs yields follows, result, fun done => ?_⟩
              rw [leaves_group]
              exact .cons ⟨made, rfl⟩ (keyed done)

variable (context : Context)

theorem outcome_run_rest {σ ε : Type} {handler : Handler σ ε} (unfailing : handler.Unfailing)
    {walk : Walk ι σ} (awaits : walk.engine.phase ≠ .done) :
    outcome (run handler context) walk =
      outcome (do
        rest handler (SortedGroups.bound walk.input + 1)
        callback (handler.cleanup context)
        return (← get).engine.stats : Walking ι σ ε Stats) (walk.perform handler [.setup context]) := by
  have setup : outcome (callback (handler.setup context) : Walking ι σ ε Unit) walk =
      (.ok (), walk.perform handler [.setup context]) := outcome_callback (unfailing.setup context _)
  rw [run, outcome_bind_of_ok (outcome_get _), if_neg awaits, outcome_bind_of_ok setup,
    outcome_bind_of_ok (outcome_get _)]
  simp only [rest, bind_assoc]
  rfl

theorem exists_whole [BoundedGroups ι] (order : GroupOrder) {delivered : List (Tuple × List Tuple)}
    (delivers : Delivers input delivered) :
    ∃ whole : List Call,
      (order.checkKeys delivered = .ok () → Keyed order.plan delivered (leaves whole)) ∧
      ∀ {σ ε : Type} {handler : Handler σ ε}, handler.Unfailing → ∀ state, ∃ last,
        outcome (run handler context) ⟨.ofOrder order, input, state⟩ =
          (((order.checkKeys delivered).map fun _ =>
            (whole.foldl Stats.after {}).skip (handler.unreadAll state whole)).mapError fun cause => .failed (.input cause), last) ∧
        last.state = whole.foldl handler.respond state := by
  have enough := Nat.lt_succ_of_le (BoundedGroups.groups_le delivers)
  have begins : (Engine.ofOrder order).previous.isSome → (Engine.ofOrder order).phase = .inGroup := by
    simp [Engine.ofOrder]
  have awaits : (Engine.ofOrder order).phase ≠ .done := by simp [Engine.ofOrder]
  obtain ⟨course, follows, result, keyed⟩ := exists_course delivers begins enough
  have walked : ∀ {σ ε : Type} {handler : Handler σ ε}, handler.Unfailing → ∀ state : σ,
      outcome (rest handler (SortedGroups.bound input + 1))
        (Walk.perform handler [.setup context] ⟨.ofOrder order, input, state⟩) =
      (course.result.mapError fun cause => .failed (.input cause), Walk.perform handler (.setup context :: course.calls)
        ⟨{ course.engine with stats := {} }, course.input, state⟩) := by
    intro σ ε handler unfailing state
    refine (follows unfailing {} _).trans (congrArg (Prod.mk _) ?_)
    exact Walk.perform_append [.setup context] course.calls
      ⟨{ course.engine with stats := {} }, course.input, state⟩
  have checked : course.result = order.checkKeys delivered := result
  rw [← checked]
  cases ended : course.result with
  | error cause =>
      refine ⟨.setup context :: course.calls, by simp, fun {σ ε handler} unfailing state => ?_⟩
      have broken := walked unfailing state
      rw [ended] at broken
      rw [outcome_run_rest context unfailing awaits]
      exact ⟨_, outcome_bind_of_error broken, rfl⟩
  | ok =>
      refine ⟨.setup context :: course.calls ++ [.cleanup context], fun _ => ?_,
        fun {σ ε handler} unfailing state => ?_⟩
      · rw [leaves_append]
        exact (List.append_nil _).symm ▸ keyed ended
      · have done := walked unfailing state
        rw [ended] at done
        let last : Walk ι σ := ⟨{ course.engine with stats := {} }, course.input, state⟩
        have cleanup : outcome (callback (handler.cleanup context))
            (last.perform handler (.setup context :: course.calls)) =
            (.ok (), (last.perform handler (.setup context :: course.calls)).perform handler
              [.cleanup context]) := outcome_callback (unfailing.cleanup context _)
        rw [Walk.perform_append] at cleanup
        rw [outcome_run_rest context unfailing awaits, outcome_bind_of_ok done, outcome_bind_of_ok cleanup]
        exact ⟨_, rfl, rfl⟩

theorem Keyed.lengths {plan : Plan} {delivered : List (Tuple × List Tuple)}
    {keyed : List (GroupKey × List Tuple)} (keys : Keyed plan delivered keyed) :
    keyed.length = delivered.length ∧
      (keyed.map fun group => group.2.length).sum = (delivered.flatMap Prod.snd).length := by
  induction keys with
  | nil => exact ⟨rfl, rfl⟩
  | cons first _ ih =>
      obtain ⟨count, total⟩ := ih
      rw [List.length_cons, List.length_cons, List.map_cons, List.sum_cons, List.flatMap_cons,
        List.length_append, count, total, first.2]
      exact ⟨rfl, rfl⟩

/-- What a walk with a handler comes to, beside all calls with all tuples of their keys, and the counts of
these: the handler gets these calls with as many tuples of each key as it takes, and the others are drained. -/
structure Reads (checked : Except Error Unit) (whole : List Call) (counts : Stats) {ε : Type}
    (made : List Call) (result : Except (Stop (Failure ε)) Stats) : Prop where
  calls : List.Forall₂ Call.Takes made whole
  result : result = (checked.map fun _ =>
    { counts with drained := counts.elements - elementCount made }).mapError fun cause => .failed (.input cause)

theorem reads_of_recorded {σ ε : Type} {handler : Handler σ ε} {checked : Except Error Unit}
    {whole : List Call} {walk : Walk ι σ} {last : Walk ι (Recorded σ)}
    (walked : outcome (run handler.recorded context) walk.watched =
      ((checked.map fun _ => (whole.foldl Stats.after {}).skip
        (handler.recorded.unreadAll walk.watched.state whole)).mapError fun cause => .failed (.input cause), last))
    (left : last.state = whole.foldl handler.recorded.respond walk.watched.state) :
    Reads checked whole (whole.foldl Stats.after {}) (callsOf handler context walk)
      (outcome (run handler context) walk).1 := by
  obtain ⟨made, takes, written, count⟩ := @Handler.foldl_recorded _ _ handler whole walk.watched.state
  have elements : (whole.foldl Stats.after {}).elements = elementCount whole :=
    (Stats.counts_foldl whole {}).elements.trans (Nat.zero_add _)
  have drained : (whole.foldl Stats.after {}).drained = 0 := (Stats.counts_foldl whole {}).drained
  have calls : callsOf handler context walk = made := by
    rw [callsOf, walked, left, written]
    exact List.nil_append _
  have stats : (whole.foldl Stats.after {}).skip
      (handler.recorded.unreadAll walk.watched.state whole) =
      { whole.foldl Stats.after {} with
        drained := (whole.foldl Stats.after {}).elements - elementCount made } := by
    rw [Stats.skip]
    congr 1
    omega
  rw [outcome_run_recorded, walked, stats, calls]
  exact ⟨takes, rfl⟩

/-- How much handlers read decides nothing else of a walk. For an input that delivers groups there is one
list of calls that each handler gets, if it never fails, but for the tuples it leaves; these are drained.
If all keys can be made and compared, then the walk comes to a result, the calls are made for all groups,
and all their tuples are counted. A list of tuples delivers all that it has. -/
theorem run_reading (order : GroupOrder) (context : Context) :
    (∀ {ι : Type} [SortedGroups ι] [BoundedGroups ι] {input : ι} {delivered : List (Tuple × List Tuple)},
      Delivers input delivered → ∃ (whole : List Call) (counts : Stats),
        (order.checkKeys delivered = .ok () → Keyed order.plan delivered (leaves whole) ∧
          counts.groups = delivered.length ∧ counts.elements = (delivered.flatMap Prod.snd).length) ∧
        ∀ {σ ε : Type} {handler : Handler σ ε}, handler.Unfailing → ∀ state : σ,
          Reads (order.checkKeys delivered) whole counts
            (callsOf handler context ⟨.ofOrder order, input, state⟩)
            (outcome (run handler context) ⟨.ofOrder order, input, state⟩).1) ∧
      ∀ (groups : GroupOrder) (items : List (Except Error Tuple)) (delivered : List (Tuple × List Tuple)),
        Delivers (GroupedTuples.ofList groups items) delivered →
          items = (delivered.flatMap Prod.snd).map .ok := by
  constructor
  · intro ι _ _ input delivered delivers
    obtain ⟨whole, keyed, walks⟩ := exists_whole context order delivers
    have counts := Stats.counts_foldl whole {}
    refine ⟨whole, whole.foldl Stats.after {}, fun checked => ?_, fun {σ ε handler} unfailing state => ?_⟩
    · obtain ⟨count, total⟩ := (keyed checked).lengths
      refine ⟨keyed checked, ?_, ?_⟩
      · rw [counts.groups, count, Nat.zero_add]
      · rw [counts.elements, Nat.zero_add]
        exact total
    · obtain ⟨last, walked, left⟩ := walks unfailing.recorded (Recorded.fresh state)
      exact reads_of_recorded context walked left
  · intro groups items delivered delivers
    exact GroupedTuples.ahead_of_delivers delivers

end Walking

end Rollup

theorem RecordOrder.exists_delivers {job : Job} {plan : Plan} {codec : FieldCodec}
    {comparators : Comparators} {order : RecordOrder} (built : Plan.build job = .ok plan)
    (made : ofPlan plan codec comparators = .ok order) (total : comparators.Total) {tuples : List Tuple}
    (keyed : ∀ tuple ∈ tuples, job.HasKey tuple)
    (ascending : tuples.IsChain fun left right => order.groups.compare left right ≠ .ok .gt) :
    ∃ delivered, Delivers (GroupedTuples.ofList order.groups (tuples.map .ok)) delivered := by
  obtain ⟨planSound, rfl⟩ := Plan.build_sound built
  obtain ⟨sound, rfl, -⟩ := ofPlan_sound planSound made
  obtain ⟨rows, rfl⟩ := planSound.exists_keyRows keyed
  have delivers := delivers_rows sound total (pairwise_of_ascending sound total ascending)
  rw [List.map_map]
  exact ⟨_, delivers⟩

namespace Visits

def idler : Handler Unit Unit where
  wants _ := false
  receive _ state := state

theorem idler_unfailing : idler.Unfailing where
  setup _ _ := rfl
  openGroup _ _ _ _ := rfl
  closeGroup _ _ _ _ := rfl
  leave _ _ _ := rfl
  cleanup _ _ := rfl
  ends _ tuples _ := by cases tuples <;> rfl

theorem groups_checked : order.groups.checkKeys groups = .ok () := by decide +kernel

theorem lister_takes : elementCount (Walking.callsOf lister ⟨plan, ⟨0⟩⟩
    ⟨.ofOrder order.groups, input, (false, [])⟩) = 3 := by decide +kernel

theorem idler_takes : elementCount (Walking.callsOf idler ⟨plan, ⟨0⟩⟩
    ⟨.ofOrder order.groups, input, ()⟩) = 0 := by decide +kernel

end Visits

open Rollup in
theorem Rollup.Walking.run_reading_visits :
    (∃ (whole : List Call) (counts : Stats),
      Keyed Visits.order.groups.plan Visits.groups (leaves whole) ∧ counts.elements = 4 ∧
      (outcome (run Visits.lister ⟨Visits.plan, ⟨0⟩⟩)
        ⟨.ofOrder Visits.order.groups, Visits.input, (false, [])⟩).1 = .ok { counts with drained := 1 } ∧
      (outcome (run Visits.idler ⟨Visits.plan, ⟨0⟩⟩)
        ⟨.ofOrder Visits.order.groups, Visits.input, ()⟩).1 = .ok { counts with drained := 4 }) ∧
    ∃ delivered, Delivers Visits.sortedInput delivered ∧
      Visits.sorted.map .ok = (delivered.flatMap Prod.snd).map (.ok : Tuple → Except Error Tuple) := by
  obtain ⟨reading, -⟩ := run_reading Visits.order.groups ⟨Visits.plan, ⟨0⟩⟩
  obtain ⟨-, lists⟩ := run_reading Visits.order.groups ⟨Visits.plan, ⟨0⟩⟩
  constructor
  · have delivers : Delivers Visits.input Visits.groups := ListedGroups.ofList_delivers _
    obtain ⟨whole, counts, known, walks⟩ := reading delivers
    obtain ⟨keyed, -, elements⟩ := known Visits.groups_checked
    have total : counts.elements = 4 := elements
    refine ⟨whole, counts, keyed, total, ?_, ?_⟩
    · rw [(walks Visits.lister_unfailing (false, [])).result, Visits.groups_checked, Visits.lister_takes,
        total]
      rfl
    · rw [(walks Visits.idler_unfailing ()).result, Visits.groups_checked, Visits.idler_takes, total]
      rfl
  · have keyed : ∀ tuple ∈ Visits.sorted, Visits.job.HasKey tuple := by
      simp [Visits.sorted, Visits.hasKey]
    obtain ⟨delivered, delivers⟩ := RecordOrder.exists_delivers (eq_valueOf _) (eq_valueOf _) Visits.total
      keyed Visits.sorted_ascending
    exact ⟨delivered, delivers, lists _ _ _ delivers⟩

end Cogrouping
