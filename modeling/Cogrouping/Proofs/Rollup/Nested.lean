import Cogrouping.Proofs.Rollup.Brackets
import Mathlib.Algebra.BigOperators.Group.List.Basic

/-!
A walk over sorted tuples as nested grouping. The tuples are cut into runs that are equal in the fields
down to the least rollup depth, each of these into the runs of the next depth, and so on, and the calls
for a run at a depth stand between those that open and close it.
-/

namespace Cogrouping

namespace Rollup.Engine

variable (engine : Engine) (differ : GroupKey → GroupKey → Nat)

def beginning (depth : Nat) : Engine := { engine with minDepth := depth }

theorem depthsFrom_of_le {depth : Nat} (inside : depth ≤ engine.maxDepth) :
    engine.depthsFrom depth = depth :: engine.depthsFrom (depth + 1) := by
  have deeper : engine.maxDepth + 1 - depth = engine.maxDepth + 1 - (depth + 1) + 1 := by omega
  rw [depthsFrom, depthsFrom, deeper, List.range'_succ]

theorem opens_of_le (key : GroupKey) {depth : Nat} (inside : depth ≤ engine.maxDepth) :
    engine.opens key depth =
      .openGroup depth (engine.order.fieldName depth) key :: engine.opens key (depth + 1) := by
  rw [opens, engine.depthsFrom_of_le inside]
  rfl

theorem closes_of_le (key : GroupKey) {depth : Nat} (inside : depth ≤ engine.maxDepth) :
    engine.closes key depth =
      engine.closes key (depth + 1) ++ [.closeGroup depth (engine.order.fieldName depth) key] := by
  rw [closes, engine.depthsFrom_of_le inside, List.reverse_cons, List.map_append]
  rfl

theorem depthsFrom_of_gt {depth : Nat} (outside : engine.maxDepth < depth) :
    engine.depthsFrom depth = [] := by
  rw [depthsFrom, Nat.sub_eq_zero_of_le outside]
  rfl

theorem calls_append {groups behind : List (GroupKey × List Tuple)} {previous : Option GroupKey}
    (before : ∀ key ∈ previous, ∀ group ∈ behind, differ key group.1 = engine.minDepth)
    (apart : ∀ left ∈ groups, ∀ right ∈ behind, differ left.1 right.1 = engine.minDepth) :
    engine.calls differ previous (groups ++ behind) =
      engine.calls differ previous groups ++ engine.calls differ none behind := by
  induction groups generalizing previous with
  | nil =>
      cases previous with
      | none => rfl
      | some key =>
          cases behind with
          | nil => exact (List.append_nil _).symm
          | cons group behind =>
              have first := before key rfl group List.mem_cons_self
              simp only [List.nil_append, calls, turns, firstDepth, first, Option.map_some,
                Option.map_none, Option.getD_some, Option.getD_none, List.append_assoc]
  | cons group groups ih =>
      obtain ⟨key, tuples⟩ := group
      rw [List.forall_mem_cons] at apart
      have later : engine.calls differ (some key) (groups ++ behind) = _ :=
        ih (fun _ held => Option.some.inj held ▸ apart.1) apart.2
      rw [List.cons_append, calls, calls, later, List.append_assoc]
      rfl

theorem calls_leaf (deep : engine.maxDepth < engine.minDepth) (key : GroupKey) (tuples : List Tuple) :
    engine.calls differ none [(key, tuples)] = [.elements key tuples] := by
  rw [calls, turns, firstDepth, calls, Option.map_some, opens, closes, engine.depthsFrom_of_gt deep]
  rfl

theorem calls_beginning_some {depth : Nat} (inside : depth ≤ engine.maxDepth) {key : GroupKey}
    {tuples : List Tuple} {groups : List (GroupKey × List Tuple)} {last : GroupKey × List Tuple}
    (ends : ((key, tuples) :: groups).getLast? = some last) :
    (engine.beginning depth).calls differ (some key) groups =
      (engine.beginning (depth + 1)).calls differ (some key) groups ++
        [.closeGroup depth (engine.order.fieldName depth) last.1] := by
  induction groups generalizing key tuples with
  | nil =>
      cases ends
      exact engine.closes_of_le key inside
  | cons group groups ih =>
      obtain ⟨next, nextTuples⟩ := group
      rw [List.getLast?_cons_cons] at ends
      rw [calls, calls, ih ends, List.append_assoc]
      rfl

theorem calls_beginning {depth : Nat} (inside : depth ≤ engine.maxDepth)
    {groups : List (GroupKey × List Tuple)} {first last : GroupKey × List Tuple}
    (begins : groups.head? = some first) (ends : groups.getLast? = some last) :
    (engine.beginning depth).calls differ none groups =
      .openGroup depth (engine.order.fieldName depth) first.1 ::
        (engine.beginning (depth + 1)).calls differ none groups ++
        [.closeGroup depth (engine.order.fieldName depth) last.1] := by
  cases groups with
  | nil => cases begins
  | cons group groups =>
      cases begins
      obtain ⟨key, tuples⟩ := first
      have turn : (engine.beginning depth).turns differ key none = _ := engine.opens_of_le key inside
      rw [calls, calls, engine.calls_beginning_some differ inside ends, turn, List.cons_append,
        List.cons_append, List.append_assoc]
      rfl

end Rollup.Engine

namespace RecordOrder

open Rollup

def alikeThrough (order : RecordOrder) (depth : Nat) : Tuple → Tuple → Bool :=
  Sort.alike (order.compareBy (order.common.take (depth + 1)) false)

def runsAt (order : RecordOrder) (depth : Nat) : List Tuple → List (Sort.Run Tuple) :=
  Sort.runs (order.alikeThrough depth)

def lastFirst (order : RecordOrder) (run : Sort.Run Tuple) : Tuple :=
  ((order.runsAt order.plan.maxDepth run.items).getLast?.map Sort.Run.first).getD run.first

def keyOf (order : RecordOrder) (tuple : Tuple) : GroupKey :=
  (GroupKey.ofTuple order.plan tuple).toOption.getD ⟨tuple, [], order.plan.groupBy⟩

/-- The calls for tuples that are cut into runs at some depths, one within the other. -/
def nested (order : RecordOrder) : List Nat → List Tuple → List Call
  | [], tuples =>
      (order.runsAt order.plan.maxDepth tuples).map fun run =>
        .elements (order.keyOf run.first) run.items
  | depth :: depths, tuples =>
      (order.runsAt depth tuples).flatMap fun run =>
        .openGroup depth (order.groups.fieldName depth) (order.keyOf run.first) ::
          nested order depths run.items ++
          [.closeGroup depth (order.groups.fieldName depth) (order.keyOf (order.lastFirst run))]

def rollupDepths (order : RecordOrder) : List Nat :=
  List.range' order.plan.minDepth (order.plan.maxDepth + 1 - order.plan.minDepth)

def nestedTrace (order : RecordOrder) (context : Context) (tuples : List Tuple) : List Call :=
  .setup context :: order.nested order.rollupDepths tuples ++ [.cleanup context]

def nestedStats (order : RecordOrder) (tuples : List Tuple) : Stats where
  groups := (order.runsAt order.plan.maxDepth tuples).length
  elements := tuples.length
  opened := (order.rollupDepths.map fun depth => (order.runsAt depth tuples).length).sum
  closed := (order.rollupDepths.map fun depth => (order.runsAt depth tuples).length).sum

variable {comparators : Comparators} {order : RecordOrder} {depth : Nat}

def rowRuns (order : RecordOrder) (depth : Nat) :
    List (KeyRow order.plan) → List (Sort.Run (KeyRow order.plan)) :=
  Sort.runs fun left right => order.compareKeys (depth + 1) left right == .eq

def rowGroups (order : RecordOrder) (rows : List (KeyRow order.plan)) : List (GroupKey × List Tuple) :=
  (order.rowRuns order.plan.maxDepth rows).map fun run => (run.first.key, run.items.map KeyRow.tuple)

def rowCount (order : RecordOrder) (depths : List Nat) (rows : List (KeyRow order.plan)) : Nat :=
  (depths.map fun depth => (order.rowRuns depth rows).length).sum

theorem keyOf_row (sound : order.Sound comparators) (row : KeyRow order.plan) :
    order.keyOf row.tuple = row.key := by
  rw [keyOf, row.ofTuple_tuple sound.plan]
  rfl

theorem runsAt_rows (sound : order.Sound comparators) (inside : depth ≤ order.plan.maxDepth)
    (rows : List (KeyRow order.plan)) :
    order.runsAt depth (rows.map KeyRow.tuple) =
      (order.rowRuns depth rows).map (Sort.Run.map KeyRow.tuple) := by
  have size : order.plan.groupBy.length = order.plan.maxDepth + 1 := sound.plan.groupBy_length_eq
  have agrees : Sort.Agrees (order.compareBy (order.common.take (depth + 1)) false) KeyRow.tuple
      (order.compareKeys (depth + 1)) := compareBy_keys sound (by omega)
  rw [runsAt, Sort.runs_map, rowRuns]
  have same : (fun left right : KeyRow order.plan => order.alikeThrough depth left.tuple right.tuple) =
      fun left right => order.compareKeys (depth + 1) left right == .eq := by
    funext left right
    exact agrees.alike_eq left right
  rw [same]

theorem cuts_rowRuns (sound : order.Sound comparators) (total : comparators.Total)
    (inside : depth ≤ order.plan.maxDepth) {rows : List (KeyRow order.plan)}
    (ascending : rows.Pairwise fun left right => (order.compareKeys order.groups.size left right).isLE) :
    Sort.Cuts (order.compareKeys (depth + 1)) rows (order.rowRuns depth rows) := by
  have size : order.groups.size = order.plan.maxDepth + 1 := sound.plan.groupBy_length_eq
  have within : depth + 1 ≤ order.groups.size := by omega
  have := transCmp_compareKeys sound total within
  exact Sort.cuts_runs (ascending.imp fun below => SortKey.isLE_compareAll_of_le within below)

theorem mem_rowGroups {rows : List (KeyRow order.plan)} {group : GroupKey × List Tuple}
    (member : group ∈ order.rowGroups rows) : ∃ row ∈ rows, group.1 = row.key := by
  obtain ⟨run, inside, rfl⟩ := List.mem_map.mp member
  refine ⟨run.first, ?_, rfl⟩
  have held : run.first ∈ (order.rowRuns order.plan.maxDepth rows).flatMap Sort.Run.items :=
    List.mem_flatMap.mpr ⟨run, inside, List.mem_cons_self⟩
  rw [rowRuns, Sort.runs_joined] at held
  exact held

theorem rowRuns_refine {other : Nat} (below : depth ≤ other) (rows : List (KeyRow order.plan)) :
    order.rowRuns other rows = (order.rowRuns depth rows).flatMap fun run =>
      order.rowRuns other run.items := by
  refine Sort.runs_refine (fun left right equal => ?_) rows
  rw [beq_iff_eq] at equal ⊢
  exact SortKey.compareAll_eq_of_le (by omega) equal

theorem rowGroups_refine (inside : depth ≤ order.plan.maxDepth) (rows : List (KeyRow order.plan)) :
    order.rowGroups rows = (order.rowRuns depth rows).flatMap fun run => order.rowGroups run.items := by
  rw [rowGroups, rowRuns_refine inside, List.map_flatMap]
  rfl

theorem rowCount_refine (deeper : List Nat) (below : ∀ other ∈ deeper, depth ≤ other)
    (rows : List (KeyRow order.plan)) :
    order.rowCount deeper rows =
      ((order.rowRuns depth rows).map fun run => order.rowCount deeper run.items).sum := by
  induction deeper with
  | nil => simp [rowCount]
  | cons other deeper ih =>
      rw [List.forall_mem_cons] at below
      have later := ih below.2
      simp only [rowCount, List.map_cons, List.sum_cons] at later ⊢
      rw [later, rowRuns_refine below.1, List.length_flatMap, ← List.sum_map_add]

theorem keyed_rowGroups (sound : order.Sound comparators) (rows : List (KeyRow order.plan)) :
    Walking.Keyed order.plan
      ((order.rowRuns order.plan.maxDepth rows).map fun run =>
        (run.first.tuple, run.items.map KeyRow.tuple))
      (order.rowGroups rows) := by
  rw [Walking.Keyed, rowGroups, List.forall₂_map_left_iff, List.forall₂_map_right_iff, List.forall₂_same]
  intro run _
  exact ⟨run.first.ofTuple_tuple sound.plan, rfl⟩

theorem countP_nested (sound : order.Sound comparators) {count : Nat}
    (whole : depth + count = order.plan.maxDepth + 1) (rows : List (KeyRow order.plan)) :
    (order.nested (List.range' depth count) (rows.map KeyRow.tuple)).countP Call.isOpen =
      order.rowCount (List.range' depth count) rows := by
  induction count generalizing depth rows with
  | zero =>
      rw [List.range'_zero, nested, List.countP_map]
      exact List.countP_eq_zero.mpr fun run _ => by simp [Call.isOpen]
  | succ count ih =>
      have inside : depth ≤ order.plan.maxDepth := by omega
      have inner : ∀ run : Sort.Run (KeyRow order.plan),
          (order.nested (List.range' (depth + 1) count) (run.map KeyRow.tuple).items).countP Call.isOpen =
            order.rowCount (List.range' (depth + 1) count) run.items := fun run => ih (by omega) run.items
      have deeper : ∀ other ∈ List.range' (depth + 1) count, depth ≤ other := by
        intro other member
        have bounds := List.mem_range'_1.mp member
        omega
      have each : ∀ run : Sort.Run (KeyRow order.plan), List.countP Call.isOpen
          (.openGroup depth (order.groups.fieldName depth) (order.keyOf (run.map KeyRow.tuple).first) ::
            order.nested (List.range' (depth + 1) count) (run.map KeyRow.tuple).items ++
            [.closeGroup depth (order.groups.fieldName depth)
              (order.keyOf (order.lastFirst (run.map KeyRow.tuple)))]) =
          1 + order.rowCount (List.range' (depth + 1) count) run.items := by
        intro run
        have opened : ∀ field key, [Call.openGroup depth field key].countP Call.isOpen = 1 :=
          fun _ _ => rfl
        have closed : ∀ field key, [Call.closeGroup depth field key].countP Call.isOpen = 0 :=
          fun _ _ => rfl
        rw [List.countP_append, ← List.singleton_append, List.countP_append, opened, inner, closed]
        rfl
      rw [List.range'_succ, nested, runsAt_rows sound inside, List.flatMap_map, List.countP_flatMap]
      simp only [Function.comp_def, each]
      rw [List.sum_map_add, List.map_const', List.sum_replicate_nat, Nat.mul_one,
        ← rowCount_refine _ deeper rows]
      rfl

theorem opened_nestedTrace (sound : order.Sound comparators) (context : Context)
    (rows : List (KeyRow order.plan)) :
    ((order.nestedTrace context (rows.map KeyRow.tuple)).foldl Stats.after {}).opened =
      (order.nestedStats (rows.map KeyRow.tuple)).opened := by
  have whole := Nat.add_sub_cancel' (Nat.le_succ_of_le sound.plan.common.shallowest)
  have counted : (order.nested order.rollupDepths (rows.map KeyRow.tuple)).countP Call.isOpen = _ :=
    countP_nested sound whole rows
  have lengths : (order.nestedStats (rows.map KeyRow.tuple)).opened =
      order.rowCount order.rollupDepths rows := by
    refine congrArg List.sum (List.map_congr_left fun depth member => ?_)
    have bounds := List.mem_range'_1.mp member
    rw [runsAt_rows sound (by omega), List.length_map]
  rw [lengths, Stats.foldl_opened, nestedTrace, List.countP_append, List.countP_cons, counted]
  exact Nat.zero_add _

theorem exists_ends (sound : order.Sound comparators) (run : Sort.Run (KeyRow order.plan)) :
    ∃ first last, (order.rowGroups run.items).head? = some first ∧
      (order.rowGroups run.items).getLast? = some last ∧ first.1 = run.first.key ∧
      last.1 = order.keyOf (order.lastFirst (run.map KeyRow.tuple)) := by
  obtain ⟨rest, behind, begins⟩ := Sort.exists_runs_cons
    (fun left right => order.compareKeys (order.plan.maxDepth + 1) left right == .eq) run.first run.rest
  have groups : order.rowRuns order.plan.maxDepth run.items = ⟨run.first, rest⟩ :: behind := begins
  obtain ⟨last, ends⟩ : ∃ last, (order.rowRuns order.plan.maxDepth run.items).getLast? = some last := by
    rw [groups, List.getLast?_cons]
    exact ⟨_, rfl⟩
  have cut : order.runsAt order.plan.maxDepth (run.map KeyRow.tuple).items = _ :=
    runsAt_rows sound (Nat.le_refl _) run.items
  refine ⟨(run.first.key, (⟨run.first, rest⟩ : Sort.Run _).items.map KeyRow.tuple),
    (last.first.key, last.items.map KeyRow.tuple), ?_, ?_, rfl, ?_⟩
  · rw [rowGroups, groups]
    rfl
  · rw [rowGroups, List.getLast?_map, ends]
    rfl
  · rw [lastFirst, cut, List.getLast?_map, ends]
    exact (keyOf_row sound last.first).symm

theorem calls_runs (sound : order.Sound comparators) (inside : depth ≤ order.plan.maxDepth)
    {within : List Tuple → List Call} {runs : List (Sort.Run (KeyRow order.plan))}
    (inner : ∀ run ∈ runs, ((Engine.ofOrder order.groups).beginning (depth + 1)).calls
      order.groups.differAt none (order.rowGroups run.items) = within (run.items.map KeyRow.tuple))
    (apart : runs.Pairwise fun before behind => ∀ left ∈ before.items, ∀ right ∈ behind.items,
      order.groups.differAt left.key right.key = depth) :
    ((Engine.ofOrder order.groups).beginning depth).calls order.groups.differAt none
        (runs.flatMap fun run => order.rowGroups run.items) =
      (runs.map (Sort.Run.map KeyRow.tuple)).flatMap fun run =>
        .openGroup depth (order.groups.fieldName depth) (order.keyOf run.first) :: within run.items ++
          [.closeGroup depth (order.groups.fieldName depth) (order.keyOf (order.lastFirst run))] := by
  induction runs with
  | nil => rfl
  | cons run runs ih =>
      rw [List.forall_mem_cons] at inner
      rw [List.pairwise_cons] at apart
      have differ : ∀ left ∈ order.rowGroups run.items,
          ∀ right ∈ runs.flatMap fun run => order.rowGroups run.items,
          order.groups.differAt left.1 right.1 = depth := by
        intro left leftMember right rightMember
        obtain ⟨other, here, rightMember⟩ := List.mem_flatMap.mp rightMember
        obtain ⟨leftRow, leftHeld, leftKey⟩ := mem_rowGroups leftMember
        obtain ⟨rightRow, rightHeld, rightKey⟩ := mem_rowGroups rightMember
        rw [leftKey, rightKey]
        exact apart.1 other here leftRow leftHeld rightRow rightHeld
      obtain ⟨first, last, begins, ends, firstKey, lastKey⟩ := exists_ends sound run
      have here : ((Engine.ofOrder order.groups).beginning depth).calls order.groups.differAt none
          (order.rowGroups run.items) = _ := Engine.calls_beginning _ _ inside begins ends
      have opened : order.keyOf (run.map KeyRow.tuple).first = run.first.key := keyOf_row sound run.first
      rw [List.flatMap_cons, Engine.calls_append _ _ (by simp) differ, here, ih inner.2 apart.2, inner.1,
        List.map_cons, List.flatMap_cons, firstKey, lastKey, opened]
      rfl

theorem calls_alike (sound : order.Sound comparators) (total : comparators.Total)
    (deep : order.plan.maxDepth < depth) {rows : List (KeyRow order.plan)}
    (ascending : rows.Pairwise fun left right => (order.compareKeys order.groups.size left right).isLE)
    (together : ∀ left ∈ rows, ∀ right ∈ rows, depth ≤ order.groups.differAt left.key right.key) :
    ((Engine.ofOrder order.groups).beginning depth).calls order.groups.differAt none
        (order.rowGroups rows) =
      order.nested [] (rows.map KeyRow.tuple) := by
  have cuts := cuts_rowRuns sound total (Nat.le_refl _) ascending
  rw [nested, runsAt_rows sound (Nat.le_refl _), rowGroups]
  cases runs : order.rowRuns order.plan.maxDepth rows with
  | nil => rfl
  | cons run behind =>
      rw [runs] at cuts
      cases behind with
      | nil =>
          have leaf := ((Engine.ofOrder order.groups).beginning depth).calls_leaf order.groups.differAt
            deep run.first.key (run.items.map KeyRow.tuple)
          have key : order.keyOf (run.map KeyRow.tuple).first = run.first.key :=
            keyOf_row sound run.first
          rw [List.map_singleton, List.map_singleton, List.map_singleton, leaf, key]
          rfl
      | cons next behind =>
          exfalso
          have less := List.rel_of_pairwise_cons cuts.ascending List.mem_cons_self
          have apart := (differAt_le_iff_compareKeys sound run.first next.first
            sound.plan.common.shallowest (Nat.le_refl _)).mpr (by simp [less])
          have reached := together run.first (cuts.first_mem (by simp)) next.first
            (cuts.first_mem (by simp))
          omega

/-- The groups of rows that agree before a depth get the calls of nested grouping from that depth on. -/
theorem calls_nested (sound : order.Sound comparators) (total : comparators.Total) {count : Nat}
    (shallow : order.plan.minDepth ≤ depth) (whole : depth + count = order.plan.maxDepth + 1)
    {rows : List (KeyRow order.plan)}
    (ascending : rows.Pairwise fun left right => (order.compareKeys order.groups.size left right).isLE)
    (together : ∀ left ∈ rows, ∀ right ∈ rows, depth ≤ order.groups.differAt left.key right.key) :
    ((Engine.ofOrder order.groups).beginning depth).calls order.groups.differAt none
        (order.rowGroups rows) =
      order.nested (List.range' depth count) (rows.map KeyRow.tuple) := by
  induction count generalizing depth rows with
  | zero => exact calls_alike sound total (by omega) ascending together
  | succ count ih =>
      have inside : depth ≤ order.plan.maxDepth := by omega
      have cuts := cuts_rowRuns sound total inside ascending
      have within : depth + 1 ≤ order.groups.size := by
        have size : order.groups.size = order.plan.maxDepth + 1 := sound.plan.groupBy_length_eq
        omega
      have := transCmp_compareKeys sound total within
      rw [List.range'_succ, nested, runsAt_rows sound inside, rowGroups_refine inside]
      refine calls_runs sound inside (fun run member => ?_) ?_
      · refine ih (by omega) (by omega) ?_ ?_
        · rw [← cuts.joined, List.pairwise_flatMap] at ascending
          exact ascending.1 run member
        · intro left leftHeld right rightHeld
          have equal := cuts.equal member leftHeld rightHeld
          by_contra early
          have reached := (differAt_le_iff_compareKeys sound left right shallow inside).mp (by omega)
          exact reached equal
      · refine cuts.apart.imp_of_mem fun {before behind} beforeMember behindMember less => ?_
        intro left leftHeld right rightHeld
        have apart := (differAt_le_iff_compareKeys sound left right shallow inside).mpr (by
          simp [less left leftHeld right rightHeld])
        have reached := together left (cuts.mem_of_run beforeMember leftHeld) right
          (cuts.mem_of_run behindMember rightHeld)
        omega

theorem trace_eq_nestedTrace (sound : order.Sound comparators) (total : comparators.Total)
    (context : Context) {rows : List (KeyRow order.plan)}
    (ascending : rows.Pairwise fun left right => (order.compareKeys order.groups.size left right).isLE) :
    (Engine.ofOrder order.groups).trace order.groups.differAt context (order.rowGroups rows) =
      order.nestedTrace context (rows.map KeyRow.tuple) := by
  have deepest : order.plan.minDepth ≤ order.plan.maxDepth := sound.plan.common.shallowest
  have calls : (Engine.ofOrder order.groups).calls order.groups.differAt none (order.rowGroups rows) =
      order.nested order.rollupDepths (rows.map KeyRow.tuple) := by
    refine calls_nested sound total (Nat.le_refl _) ?_ ascending fun left _ right _ => ?_
    · exact Nat.add_sub_cancel' (Nat.le_succ_of_le deepest)
    · exact GroupOrder.minDepth_le_differAt deepest
  rw [Engine.trace, calls, nestedTrace]

theorem foldl_nestedTrace (sound : order.Sound comparators) (total : comparators.Total)
    (context : Context) {rows : List (KeyRow order.plan)}
    (ascending : rows.Pairwise fun left right => (order.compareKeys order.groups.size left right).isLE) :
    (order.nestedTrace context (rows.map KeyRow.tuple)).foldl Stats.after {} =
      order.nestedStats (rows.map KeyRow.tuple) := by
  have opened := opened_nestedTrace sound context rows
  obtain ⟨groups, elements, drained, balanced⟩ :=
    (Engine.ofOrder order.groups).trace_accounts order.groups.differAt context (order.rowGroups rows) {}
  rw [trace_eq_nestedTrace sound total context ascending] at groups elements drained balanced
  generalize (order.nestedTrace context (rows.map KeyRow.tuple)).foldl Stats.after {} = stats
    at opened groups elements drained balanced ⊢
  have cuts := cuts_rowRuns sound total (Nat.le_refl _) ascending
  have counted : stats.groups = (order.nestedStats (rows.map KeyRow.tuple)).groups := by
    rw [groups, Nat.zero_add, rowGroups, List.length_map, nestedStats, runsAt_rows sound (Nat.le_refl _),
      List.length_map]
  have taken : stats.elements = (order.nestedStats (rows.map KeyRow.tuple)).elements := by
    rw [elements, Nat.zero_add, rowGroups, List.map_map, nestedStats, List.length_map, ← cuts.length_eq]
    simp only [Function.comp_def, List.length_map]
  have closed : stats.closed = (order.nestedStats (rows.map KeyRow.tuple)).closed :=
    balanced.trans opened
  obtain ⟨_, _, _, _, _⟩ := stats
  cases counted
  cases taken
  cases drained
  cases opened
  cases closed
  rfl

theorem pairwise_of_ascending (sound : order.Sound comparators) (total : comparators.Total)
    {rows : List (KeyRow order.plan)} (ascending : (rows.map KeyRow.tuple).IsChain fun left right =>
      order.groups.compare left right ≠ .ok .gt) :
    rows.Pairwise fun left right => (order.compareKeys order.groups.size left right).isLE := by
  have := transCmp_compareKeys sound total (Nat.le_refl order.groups.size)
  have agrees : Sort.Agrees order.groups.compare KeyRow.tuple (order.compareKeys order.groups.size) :=
    compareBy_keys sound (Nat.le_refl _)
  exact agrees.pairwise ascending

theorem delivers_rows (sound : order.Sound comparators) (total : comparators.Total)
    {rows : List (KeyRow order.plan)}
    (ascending : rows.Pairwise fun left right => (order.compareKeys order.groups.size left right).isLE) :
    Delivers (GroupedTuples.ofList order.groups (rows.map fun row => .ok row.tuple))
      ((order.rowRuns order.plan.maxDepth rows).map fun run =>
        (run.first.tuple, run.items.map KeyRow.tuple)) := by
  have size : order.groups.size = order.plan.maxDepth + 1 := sound.plan.groupBy_length_eq
  have cuts := cuts_rowRuns sound total (Nat.le_refl _) ascending
  rw [← size] at cuts
  have agrees : Sort.Agrees order.groups.compare KeyRow.tuple (order.compareKeys order.groups.size) :=
    compareBy_keys sound (Nat.le_refl _)
  exact GroupedTuples.ofList_delivers agrees cuts

/-- A walk over tuples in group order makes exactly the calls of nested grouping, and counts them. -/
theorem run_nested {job : Job} {plan : Plan} {codec : FieldCodec} (built : Plan.build job = .ok plan)
    (made : ofPlan plan codec comparators = .ok order) (total : comparators.Total) {tuples : List Tuple}
    (keyed : ∀ tuple ∈ tuples, job.HasKey tuple)
    (ascending : tuples.IsChain fun left right => order.groups.compare left right ≠ .ok .gt) :
    (∀ tuple ∈ tuples, GroupKey.ofTuple plan tuple = .ok (order.keyOf tuple)) ∧
      ∀ (σ ε : Type) (handler : Handler σ ε), handler.Unfailing → ∀ context state, ∃ last,
        outcome (Walking.run handler context)
            ⟨.ofOrder order.groups, GroupedTuples.ofList order.groups (tuples.map .ok), state⟩ =
          (.ok ((order.nestedStats tuples).skip
            (handler.unreadAll state (order.nestedTrace context tuples))), last) ∧
        last.state = (order.nestedTrace context tuples).foldl handler.respond state := by
  obtain ⟨planSound, rfl⟩ := Plan.build_sound built
  obtain ⟨sound, rfl, -⟩ := ofPlan_sound planSound made
  obtain ⟨rows, rfl⟩ := planSound.exists_keyRows keyed
  have sorted := pairwise_of_ascending sound total ascending
  constructor
  · intro tuple member
    obtain ⟨row, _, rfl⟩ := List.mem_map.mp member
    rw [keyOf_row sound]
    exact row.ofTuple_tuple planSound
  · intro σ ε handler unfailing context state
    have fit : ∀ group ∈ order.rowGroups rows, group.1.Fits order.plan := by
      intro group member
      obtain ⟨row, _, key⟩ := mem_rowGroups member
      rw [key]
      exact row.key_fits planSound
    obtain ⟨last, walked, left⟩ := outcome_walk sound unfailing (delivers_rows sound total sorted)
      (keyed_rowGroups sound rows) fit context state
    rw [trace_eq_nestedTrace sound total context sorted] at walked left
    rw [foldl_nestedTrace sound total context sorted] at walked
    rw [List.map_map]
    exact ⟨last, walked, left⟩

end RecordOrder

namespace Visits

def sorted : List Tuple := [visit "a" 1 0, visit "a" 1 1, visit "a" 2 2, visit "b" 2 3]

def sortedInput : GroupedTuples := .ofList order.groups (sorted.map .ok)

theorem sorted_ascending :
    sorted.IsChain fun left right => order.groups.compare left right ≠ .ok .gt := by
  have first : order.groups.compare (visit "a" 1 0) (visit "a" 1 1) = .ok .eq := by decide +kernel
  have second : order.groups.compare (visit "a" 1 1) (visit "a" 2 2) = .ok .lt := by decide +kernel
  have third : order.groups.compare (visit "a" 2 2) (visit "b" 2 3) = .ok .lt := by decide +kernel
  simp [sorted, first, second, third]

end Visits

theorem RecordOrder.run_nested_visits :
    (∀ tuple ∈ Visits.sorted, GroupKey.ofTuple Visits.plan tuple = .ok (Visits.order.keyOf tuple)) ∧
    (∃ last, outcome (Rollup.Walking.run Visits.lister ⟨Visits.plan, ⟨0⟩⟩)
          ⟨.ofOrder Visits.order.groups, Visits.sortedInput, (false, [])⟩ =
        (.ok ((Visits.order.nestedStats Visits.sorted).skip (Visits.lister.unreadAll (false, [])
          (Visits.order.nestedTrace ⟨Visits.plan, ⟨0⟩⟩ Visits.sorted))), last) ∧
      last.state = (Visits.order.nestedTrace ⟨Visits.plan, ⟨0⟩⟩ Visits.sorted).foldl
        Visits.lister.respond (false, [])) ∧
    Visits.order.nestedStats Visits.sorted =
      { groups := 3, elements := 4, opened := 5, closed := 5 } := by
  have keyed : ∀ tuple ∈ Visits.sorted, Visits.job.HasKey tuple := by
    simp [Visits.sorted, Visits.hasKey]
  obtain ⟨keys, runs⟩ := RecordOrder.run_nested (eq_valueOf _) (eq_valueOf _) Visits.total keyed
    Visits.sorted_ascending
  obtain ⟨last, run⟩ := runs _ _ Visits.lister Visits.lister_unfailing ⟨Visits.plan, ⟨0⟩⟩ (false, [])
  exact ⟨keys, ⟨last, run⟩, by decide +kernel⟩

end Cogrouping
