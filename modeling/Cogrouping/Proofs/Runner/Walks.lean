import Cogrouping.Proofs.Order.Classes
import Cogrouping.Proofs.Rollup.Rows
import Cogrouping.Proofs.Runner.Entries

/-!
What the walks of a run come to with handlers that never fail and read everything. A partition is sorted
and cut into runs of entries, and these alone tell which calls its handler gets.
-/

namespace Cogrouping

open Rollup

namespace Runner

open Run

variable {σ ε : Type} {comparators : Comparators} {order : RecordOrder} {count : UInt64}
  {seed : Option UInt64}

section Walk

variable (runner : Runner)

def context (partition : PartitionId) : Context := { plan := runner.plan, partition }

def start (sorted : List Bytes) (state : σ) : Walk GroupedTuples σ where
  engine := .ofOrder runner.order.groups
  input := .ofList runner.order.groups (sorted.map runner.records.decode)
  state

variable {runner} {partition : PartitionId} {records sorted : List Bytes} (handler : Handler σ ε)
  {state : σ}

theorem outcome_walk_unsorted {stop : Stop Error}
    (stopped : Sort.stable .four runner.order.compareBytes records = .error stop) :
    outcome (runner.walk partition records handler) state = (.error (stop.map .engine), state) := by
  rw [walk, outcome_bind_of_error (outcome_raise_of_error stopped state)]

theorem outcome_walk_sorted (ordered : Sort.stable .four runner.order.compareBytes records = .ok sorted)
    {result : Except (Stop (Rollup.Failure ε)) Stats} {last : Walk GroupedTuples σ}
    (ran : outcome (Walking.run handler (runner.context partition)) (runner.start sorted state) =
      (result, last)) :
    outcome (runner.walk partition records handler) state =
      ((result.map fun rollup =>
        { partition, records := records.length, bytes := records.flatten.length, rollup }).mapError
          (.map (.rollup partition)), last.state) := by
  have walked : (ExceptT.run (Walking.run handler { plan := runner.plan, partition })).run
      { engine := .ofOrder runner.order.groups
        input := .ofList runner.order.groups (sorted.map runner.records.decode)
        state } = (result, last) := ran
  rw [walk, outcome_bind_of_ok (outcome_raise_of_ok ordered state), outcome_bind_of_ok (outcome_get _)]
  simp only [walked]
  rw [outcome_bind_of_ok (outcome_set _ _)]
  cases result <;> rfl

theorem outcome_runWith_of_distribute {tuples : List Tuple} {parts : List (PartitionId × List Bytes)}
    (distributed : runner.distribute tuples = .ok parts)
    (make : PartitionId → Running σ ε (Handler σ ε)) (state : σ) :
    outcome (runner.runWith make tuples) state =
      outcome ((Summary.mk runner.plan.fingerprint tuples.length ·) <$> runner.walkAll make parts)
        state := by
  have done : (runner.distribute tuples).mapError Stop.failed = .ok parts := by
    rw [distributed]
    rfl
  rw [runWith, outcome_bind_of_ok (outcome_raise_of_ok done state)]
  rfl

end Walk

def groupOf (run : Sort.Run (Entry order)) : GroupKey × List Tuple :=
  (run.first.row.key, run.items.map Entry.stored)

def callsOf (partition : PartitionId) (runs : List (Sort.Run (Entry order))) : List Call :=
  (Engine.ofOrder order.groups).trace order.groups.differAt { plan := order.plan, partition }
    (runs.map groupOf)

def summaryOf (partition : PartitionId) (entries : List (Entry order))
    (runs : List (Sort.Run (Entry order))) : PartitionSummary where
  partition
  records := entries.length
  bytes := (entries.map Entry.record).flatten.length
  rollup := (callsOf partition runs).foldl Stats.after {}

theorem keyed_runs (sound : order.plan.Sound) (runs : List (Sort.Run (Entry order))) :
    Walking.Keyed order.plan (runs.map fun run => (run.first.stored, run.items.map Entry.stored))
      (runs.map groupOf) := by
  rw [Walking.Keyed, List.forall₂_map_left_iff, List.forall₂_map_right_iff, List.forall₂_same]
  intro run _
  exact ⟨run.first.row.ofTuple_stored sound, rfl⟩

theorem outcome_walk (sound : Sound comparators order count) (total : comparators.Total)
    {handler : Handler σ ε} (thorough : handler.Thorough) (partition : PartitionId)
    {entries sorted : List (Entry order)} {runs : List (Sort.Run (Entry order))}
    (sorts : Sort.StablySorts Entry.compare entries sorted)
    (cuts : Sort.Cuts (Entry.comparePrefix order.groups.size) sorted runs) (state : σ) :
    outcome ((ofOrder order count seed).walk partition (entries.map Entry.record) handler) state =
      (.ok (summaryOf partition entries runs), (callsOf partition runs).foldl handler.after state) := by
  have := Entry.transCmp_compare sound.ordered total
  obtain ⟨others, done, sortsToo⟩ :=
    Sort.stable_sorts (Entry.agrees_records sound.ordered) .four entries
  obtain rfl := sortsToo.unique sorts
  have decoded : (others.map Entry.record).map (ofOrder order count seed).records.decode =
      others.map fun entry => .ok entry.stored := by
    rw [List.map_map]
    refine List.map_congr_left fun entry _ => ?_
    exact entry.decode_record sound.ordered.plan
  have delivers : Delivers (.ofList order.groups (others.map fun entry => .ok entry.stored) : GroupedTuples)
      (runs.map fun run => (run.first.stored, run.items.map Entry.stored)) :=
    GroupedTuples.ofList_delivers (Entry.agrees_stored sound.ordered) cuts
  have fit : ∀ group ∈ runs.map groupOf, group.1.Fits order.plan := by
    intro group member
    obtain ⟨run, _, rfl⟩ := List.mem_map.mp member
    exact run.first.row.key_fits sound.ordered.plan
  obtain ⟨last, walked, left⟩ := RecordOrder.outcome_walk sound.ordered thorough.unfailing delivers
    (keyed_runs sound.ordered.plan runs) fit { plan := order.plan, partition } state
  rw [thorough.unreadAll_eq] at walked
  rw [thorough.respond_eq] at left
  have ran : outcome (Walking.run handler ((ofOrder order count seed).context partition))
      ((ofOrder order count seed).start (others.map Entry.record) state) =
        (.ok ((callsOf partition runs).foldl Stats.after {}), last) := by
    rw [start, decoded]
    exact walked
  have ordered : Sort.stable .four (ofOrder order count seed).order.compareBytes
      (entries.map Entry.record) = .ok (others.map Entry.record) := done
  rw [outcome_walk_sorted handler ordered ran, left, List.length_map]
  rfl

def performAll (make : PartitionId → Running σ ε (Handler σ ε)) :
    List (PartitionId × List Call) → σ → σ
  | [], state => state
  | (partition, calls) :: rest, state =>
      match (make partition).run state with
      | (.ok handler, made) => performAll make rest (calls.foldl handler.after made)
      | (.error _, made) => made

def Makes (make : PartitionId → Running σ ε (Handler σ ε)) : Prop :=
  ∀ partition state, ∃ handler made,
    (make partition).run state = (.ok handler, made) ∧ handler.Thorough

def traces (count : UInt64) (seed : Option UInt64) (runs : List (Sort.Run (Entry order)))
    (numbers : List Nat) : List (PartitionId × List Call) :=
  numbers.map fun number => (⟨UInt32.ofNat number⟩,
    callsOf ⟨UInt32.ofNat number⟩ (runs.filter (Entry.place count seed ·.first == number)))

def summaries (count : UInt64) (seed : Option UInt64) (entries : List (Entry order))
    (runs : List (Sort.Run (Entry order))) (numbers : List Nat) : List PartitionSummary :=
  numbers.map fun number => summaryOf ⟨UInt32.ofNat number⟩
    (entries.filter (Entry.place count seed · == number))
    (runs.filter (Entry.place count seed ·.first == number))

theorem place_eq_of_groups (sound : Sound comparators order count) {left right : Entry order}
    (equal : Entry.comparePrefix order.groups.size left right = .eq) :
    left.place count seed = right.place count seed := by
  refine place_eq sound ?_ equal
  have inside : order.groups.size = order.plan.maxDepth + 1 := sound.ordered.plan.groupBy_length_eq
  rw [inside]
  exact Nat.lt_succ_of_le sound.ordered.plan.common.shallowest

theorem cuts_part (sound : Sound comparators order count) {sorted : List (Entry order)}
    {runs : List (Sort.Run (Entry order))}
    (cuts : Sort.Cuts (Entry.comparePrefix order.groups.size) sorted runs) (number : Nat) :
    Sort.Cuts (Entry.comparePrefix order.groups.size)
      (sorted.filter (Entry.place count seed · == number))
      (runs.filter (Entry.place count seed ·.first == number)) := by
  refine cuts.filter fun left right equal => ?_
  rw [place_eq_of_groups sound equal]

theorem outcome_walkAll (sound : Sound comparators order count) (total : comparators.Total)
    {make : PartitionId → Running σ ε (Handler σ ε)} (makes : Makes make)
    {entries sorted : List (Entry order)} {runs : List (Sort.Run (Entry order))}
    (sorts : Sort.StablySorts Entry.compare entries sorted)
    (cuts : Sort.Cuts (Entry.comparePrefix order.groups.size) sorted runs) (numbers : List Nat)
    (state : σ) :
    outcome ((ofOrder order count seed).walkAll make (numbers.map fun number => (⟨UInt32.ofNat number⟩,
        (entries.filter (Entry.place count seed · == number)).map Entry.record))) state =
      (.ok (summaries count seed entries runs numbers),
        performAll make (traces count seed runs numbers) state) := by
  induction numbers generalizing state with
  | nil => rfl
  | cons number numbers ih =>
      obtain ⟨handler, made, makesHere, thorough⟩ := makes ⟨UInt32.ofNat number⟩ state
      have walked : outcome ((ofOrder order count seed).walk _ _ handler) made = _ :=
        outcome_walk sound total thorough ⟨UInt32.ofNat number⟩
          (sorts.filter (Entry.place count seed · == number)) (cuts_part sound cuts number) made
      have performed : performAll make (traces count seed runs (number :: numbers)) state =
          performAll make (traces count seed runs numbers)
            ((callsOf ⟨UInt32.ofNat number⟩
              (runs.filter (Entry.place count seed ·.first == number))).foldl handler.after made) := by
        rw [traces, List.map_cons, performAll, makesHere]
        rfl
      rw [performed, List.map_cons, walkAll, outcome_bind_of_ok makesHere, outcome_bind_of_ok walked,
        outcome_bind_of_ok (ih _), outcome_pure]
      rfl

theorem outcome_runWith (sound : Sound comparators order count) (total : comparators.Total)
    {make : PartitionId → Running σ ε (Handler σ ε)} (makes : Makes make)
    {entries sorted : List (Entry order)} {runs : List (Sort.Run (Entry order))}
    (sorts : Sort.StablySorts Entry.compare entries sorted)
    (cuts : Sort.Cuts (Entry.comparePrefix order.groups.size) sorted runs) (state : σ) :
    outcome ((ofOrder order count seed).runWith make (entries.map Entry.tuple)) state =
      (.ok { fingerprint := order.plan.fingerprint
             records := entries.length
             partitions := summaries count seed entries runs (List.range count.toNat) },
        performAll make (traces count seed runs (List.range count.toNat)) state) := by
  rw [outcome_runWith_of_distribute (distribute_entries sound entries), outcome_map,
    outcome_walkAll sound total makes sorts cuts, List.length_map]
  rfl

end Runner

end Cogrouping
