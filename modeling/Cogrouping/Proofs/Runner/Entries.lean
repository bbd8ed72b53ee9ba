import Cogrouping.Proofs.Order.Records
import Cogrouping.Proofs.Order.Sort
import Cogrouping.Proofs.Partition
import Cogrouping.Runner

/-!
What a runner makes of its input. Tuples that it accepts are rows with their records; each is dealt to a
partition, and the records are in the order of the rows.
-/

namespace Cogrouping

/-- A tuple has a record that its values can be read back from. -/
structure RecordCodec.Accepts (records : RecordCodec) (tuple : Tuple) : Prop where
  kept : records.Keeps tuple
  written : ∃ record, records.encode tuple = .ok record ∧ record.length < 0x8000000000000000

/-- What is read back for a tuple has its values, and the schema that its source was declared with. -/
structure Plan.Restores (plan : Plan) (tuple read : Tuple) : Prop where
  values : read.values = tuple.values
  schema : ∃ source, plan.sourceNamed tuple.schema.name = .ok source ∧ read.schema = source.schema

theorem Row.restores {plan : Plan} (row : Row plan) (sound : plan.Sound) :
    plan.Restores row.tuple row.stored :=
  ⟨rfl, row.source, row.sourceNamed sound, rfl⟩

def Runner.ofOrder (order : RecordOrder) (count : UInt64) (seed : Option UInt64) : Runner where
  plan := order.plan
  records := { plan := order.plan, fields := order.codec }
  order
  partitioner := { plan := order.plan, codec := order.codec, count, seed }

structure Entry (order : RecordOrder) where
  row : Row order.plan
  record : Bytes
  encoding : RecordCodec.Encoding order.codec row record
  readable : encoding.Readable

namespace Entry

variable {order : RecordOrder} {comparators : Comparators}

def tuple (entry : Entry order) : Tuple := entry.row.tuple

def stored (entry : Entry order) : Tuple := entry.row.stored

def compare (left right : Entry order) : Ordering := order.compareRows left.row right.row

def comparePrefix (depth : Nat) (left right : Entry order) : Ordering :=
  order.comparePrefix depth left.row right.row

def place (count : UInt64) (seed : Option UInt64) (entry : Entry order) : Nat :=
  ((Runner.ofOrder order count seed).partitioner.place entry.encoding.hashed).number.toNat

theorem transCmp_compare (sound : order.Sound comparators) (total : comparators.Total) :
    Std.TransCmp (@compare order) :=
  transCmp_preimage (RecordOrder.transCmp_compareRows sound total) row

theorem transCmp_comparePrefix (sound : order.Sound comparators) (total : comparators.Total)
    (depth : Nat) : Std.TransCmp (@comparePrefix order depth) :=
  transCmp_preimage (RecordOrder.transCmp_comparePrefix sound total depth) row

theorem agrees_tuples (sound : order.Sound comparators) :
    Sort.Agrees order.compare (@tuple order) compare := by
  intro left right
  exact RecordOrder.compare_rows sound left.row right.row

theorem agrees_records (sound : order.Sound comparators) :
    Sort.Agrees order.compareBytes (@record order) compare := by
  intro left right
  exact RecordOrder.compareBytes_rows sound left.encoding right.encoding left.readable right.readable

theorem agrees_prefix (sound : order.Sound comparators) (depth : Nat) :
    Sort.Agrees (order.compareBy (order.common.take depth) false) (@tuple order)
      (comparePrefix depth) := by
  intro left right
  exact RecordOrder.compareBy_take sound depth left.row right.row

theorem agrees_stored (sound : order.Sound comparators) :
    Sort.Agrees order.groups.compare (@stored order) (comparePrefix order.groups.size) := by
  intro left right
  exact RecordOrder.groups_compare_rows sound left.row.asStored right.row.asStored

theorem decode_record (sound : order.plan.Sound) (entry : Entry order) :
    (RecordCodec.mk order.plan order.codec).decode entry.record = .ok entry.stored :=
  RecordCodec.Encoding.decode sound entry.encoding entry.readable

theorem exists_entry (sound : order.plan.Sound)
    (knows : (RecordCodec.mk order.plan order.codec).Knows) {tuple : Tuple}
    (accepted : (RecordCodec.mk order.plan order.codec).Accepts tuple) :
    ∃ entry : Entry order, entry.tuple = tuple := by
  obtain ⟨kept, record, encoded, fits⟩ := accepted
  have recordsSound : (RecordCodec.mk order.plan order.codec).plan.Sound := sound
  obtain ⟨row, rfl, ⟨encoding⟩⟩ := (RecordCodec.encode_eq_ok recordsSound).mp encoded
  exact ⟨⟨row, record, encoding, encoding.readable recordsSound knows kept fits⟩, rfl⟩

theorem exists_entries (sound : order.plan.Sound)
    (knows : (RecordCodec.mk order.plan order.codec).Knows) {tuples : List Tuple}
    (accepted : ∀ tuple ∈ tuples, (RecordCodec.mk order.plan order.codec).Accepts tuple) :
    ∃ entries : List (Entry order), entries.map Entry.tuple = tuples := by
  induction tuples with
  | nil => exact ⟨[], rfl⟩
  | cons tuple tuples ih =>
      rw [List.forall_mem_cons] at accepted
      obtain ⟨entry, same⟩ := exists_entry sound knows accepted.1
      obtain ⟨entries, rest⟩ := ih accepted.2
      exact ⟨entry :: entries, by rw [List.map_cons, same, rest]⟩

end Entry

namespace Runner

open Run

variable {σ ε : Type}

theorem check_eq_ok {α : Type} {result : Except Error α} {value : α} :
    (check result : Except (Failure ε) α) = .ok value ↔ result = .ok value := by
  cases result <;> simp [check, Except.mapError]

section Raise

variable {α : Type} {result : Except (Stop Error) α}

theorem outcome_raise_of_ok {value : α} (done : result = .ok value) (state : σ) :
    outcome (raise result : Running σ ε α) state = (.ok value, state) := by
  rw [done]
  exact outcome_ofExcept _ state

theorem outcome_raise_of_error {stop : Stop Error} (stopped : result = .error stop) (state : σ) :
    outcome (raise result : Running σ ε α) state = (.error (stop.map .engine), state) := by
  rw [stopped]
  exact outcome_ofExcept _ state

end Raise

def orderOf (job : Job) (limit : Nat) (comparators : Comparators) (objects : ObjectCodecs) :
    Except Error RecordOrder := do
  let plan ← Plan.build job
  let codec ← FieldCodec.ofPlan plan objects limit
  RecordOrder.ofPlan plan codec comparators

structure Sound (comparators : Comparators) (order : RecordOrder) (count : UInt64) : Prop where
  ordered : order.Sound comparators
  knows : (RecordCodec.mk order.plan order.codec).Knows
  positive : 0 < count
  plain : 1 < count → ∀ criterion ∈ Partitioner.hashed order.plan, criterion.comparator = none

theorem ofJob_sound {job : Job} {settings : Settings} {comparators : Comparators}
    {objects : ObjectCodecs} {handlers : Handlers σ ε} {runner : Runner}
    (made : ofJob job settings comparators objects handlers = .ok runner) :
    ∃ order, orderOf job settings.maxFieldBytes.toNat comparators objects = .ok order ∧
      runner = ofOrder order (max settings.partitions 1) settings.seed ∧
      Sound comparators order (max settings.partitions 1) := by
  obtain ⟨plan, built, later⟩ := bind_eq_ok.mp made
  obtain ⟨planSound, rfl⟩ := Plan.build_sound (check_eq_ok.mp built)
  have rest : (check (FieldCodec.ofPlan plan objects settings.maxFieldBytes.toNat) >>= fun codec =>
      check (RecordOrder.ofPlan plan codec comparators) >>= fun order =>
      check (Partitioner.ofPlan plan codec settings.partitions settings.seed) >>= fun partitioner =>
      .ok ⟨plan, ⟨plan, codec⟩, order, partitioner⟩ : Except (Failure ε) Runner) = .ok runner := by
    cases named : plan.job.handler with
    | none => simpa [named] using later
    | some name =>
        by_cases known : handlers.contains name = true
        · simpa [named, known] using later
        · simp [named, known] at later
  obtain ⟨codec, codecMade, rest⟩ := bind_eq_ok.mp rest
  obtain ⟨order, orderMade, rest⟩ := bind_eq_ok.mp rest
  obtain ⟨partitioner, partitionerMade, rest⟩ := bind_eq_ok.mp rest
  rw [check_eq_ok] at codecMade orderMade partitionerMade
  obtain ⟨sound, rfl, rfl⟩ := RecordOrder.ofPlan_sound planSound orderMade
  obtain ⟨rfl, plain⟩ := Partitioner.ofPlan_sound partitionerMade
  cases rest
  refine ⟨order, ?_, rfl, ?_⟩
  · rw [orderOf, check_eq_ok.mp built, ok_bind, codecMade, ok_bind, orderMade]
  · exact ⟨sound, FieldCodec.ofPlan_knows planSound codecMade,
      Partitioner.max_positive settings.partitions, plain⟩

variable {comparators : Comparators} {order : RecordOrder} {count : UInt64} {seed : Option UInt64}

theorem place_lt (sound : Sound comparators order count) (entry : Entry order) :
    entry.place count seed < count.toNat :=
  @Partitioner.place_lt (ofOrder order count seed).partitioner sound.positive _

theorem place_eq (sound : Sound comparators order count) {depth : Nat}
    (shallow : order.plan.minDepth < depth) {left right : Entry order}
    (equal : Entry.comparePrefix depth left right = .eq) :
    left.place count seed = right.place count seed := by
  have hashed := RecordOrder.comparePrefix_eq_of_le (Nat.succ_le_of_lt shallow) equal
  have together : (ofOrder order count seed).partitioner.place left.encoding.hashed =
      (ofOrder order count seed).partitioner.place right.encoding.hashed :=
    Partitioner.colocated sound.ordered sound.plain sound.positive left.encoding right.encoding hashed
  rw [Entry.place, Entry.place, together]

structure Places (runner : Runner) (tuple : Tuple) (placed : PartitionId × Bytes) : Prop where
  assigned : (outcome (runner.partitioner.assign tuple) ⟨[], []⟩).1 = .ok placed.1
  encoded : runner.records.encode tuple = .ok placed.2

theorem assign_eq (runner : Runner) (tuple : Tuple) :
    runner.assign tuple = (outcome (runner.partitioner.assign tuple) ⟨[], []⟩).1 >>= fun id =>
      (runner.records.encode tuple).map fun record => (id, record) := by
  have run : (runner.partitioner.assign tuple).run ⟨[], []⟩ =
      outcome (runner.partitioner.assign tuple) ⟨[], []⟩ := rfl
  rw [assign, run]
  generalize outcome (runner.partitioner.assign tuple) ⟨[], []⟩ = assigned
  obtain ⟨result, after⟩ := assigned
  rfl

theorem assign_eq_ok {runner : Runner} {tuple : Tuple} {placed : PartitionId × Bytes} :
    runner.assign tuple = .ok placed ↔ runner.Places tuple placed := by
  rw [assign_eq, bind_eq_ok]
  constructor
  · rintro ⟨id, assigned, written⟩
    obtain ⟨record, encoded, rfl⟩ := map_eq_ok.mp written
    exact ⟨assigned, encoded⟩
  · rintro ⟨assigned, encoded⟩
    exact ⟨placed.1, assigned, map_eq_ok.mpr ⟨placed.2, encoded, rfl⟩⟩

theorem assign_entry (sound : Sound comparators order count) (entry : Entry order) :
    (ofOrder order count seed).assign entry.tuple =
      .ok ((ofOrder order count seed).partitioner.place entry.encoding.hashed, entry.record) := by
  have planSound : (ofOrder order count seed).partitioner.plan.Sound := sound.ordered.plan
  have recordsSound : (ofOrder order count seed).records.plan.Sound := sound.ordered.plan
  obtain ⟨after, assigned⟩ := Partitioner.outcome_assign planSound entry.encoding ⟨[], []⟩
  refine assign_eq_ok.mpr ⟨congrArg Prod.fst assigned, ?_⟩
  exact (RecordCodec.encode_eq_ok recordsSound).mpr ⟨entry.row, rfl, ⟨entry.encoding⟩⟩

theorem distribute_entries (sound : Sound comparators order count) (entries : List (Entry order)) :
    (ofOrder order count seed).distribute (entries.map Entry.tuple) =
      .ok ((List.range count.toNat).map fun number => (⟨UInt32.ofNat number⟩,
        (entries.filter (Entry.place count seed · == number)).map Entry.record)) := by
  have assigned : (entries.map Entry.tuple).mapM (ofOrder order count seed).assign =
      .ok (entries.map fun entry =>
        ((ofOrder order count seed).partitioner.place entry.encoding.hashed, entry.record)) := by
    rw [mapM_eq_ok, List.forall₂_map_left_iff, List.forall₂_map_right_iff, List.forall₂_same]
    intro entry _
    exact assign_entry sound entry
  rw [distribute, assigned, ok_bind]
  refine congrArg Except.ok (List.map_congr_left fun number _ => ?_)
  rw [recordsOf, List.filter_map, List.map_map]
  rfl

end Runner

end Cogrouping
