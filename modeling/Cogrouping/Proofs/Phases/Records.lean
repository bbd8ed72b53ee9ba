import Cogrouping.Proofs.Order.Visits
import Cogrouping.Proofs.Partition

/-!
What goes wrong with single tuples and records once everything has been put together. Whatever is written,
read, compared or assigned, no error is one of configuration, except that of a tuple with another number
of values than its source has fields, which is reported as a schema that cannot be used.
-/

namespace Cogrouping

def Error.Arises (cause : Error) : Prop := cause.isConfig = false

def ObjectCodecs.Arise (objects : ObjectCodecs) : Prop :=
  ∀ name object, objects.find name = .ok object →
    (∀ json, Raises Error.Arises (object.encode json).2) ∧ ∀ bytes, Raises Error.Arises (object.decode bytes)

theorem Error.Plain.arises {cause : Error} (plain : cause.Plain) : cause.Arises := by
  cases cause with
  | fieldTypeMismatch => rfl
  | nullNotAllowed => rfl
  | unknownSource => rfl
  | codec => rfl
  | _ => cases plain

theorem Error.Outward.arises {reported : Error → Prop} {cause : Error} (outward : cause.Outward reported)
    (own : reported cause → cause.Arises) : cause.Arises :=
  outward.elim Error.Plain.arises own

namespace FieldCodec

variable {codec : FieldCodec} {type : DataType} {cause : Error}

theorem Unwritten.arises {value : Value} (arise : codec.objects.Arise)
    (unwritten : codec.Unwritten type value cause) : cause.Arises := by
  cases unwritten with
  | object found failed => exact (arise _ _ found).1 _ cause failed

theorem Unread.arises {buffer : Bytes} {offset : Nat} (arise : codec.objects.Arise)
    (unread : codec.Unread buffer offset type cause) : cause.Arises := by
  cases unread with
  | object found _ _ failed => exact (arise _ _ found).2 _ cause failed

end FieldCodec

theorem Tuple.require_raises (tuple : Tuple) (position : Nat) :
    Raises Error.Arises (tuple.require position) := by
  rw [require]
  split
  · exact .ok _
  · exact .error rfl

namespace RecordCodec

variable {codec : FieldCodec} {plan : Plan} {declared : Source} {source : SourcePlan}

theorem encodeSlots_raises (arise : codec.objects.Arise) (serves : codec.ServesAll plan.job)
    (planned : plan.Planned declared source) {fields : List Field} {slots : List Slot}
    (feeds : List.Forall₂ (Slot.Feeds source.schema) fields slots) (tuple : Tuple) (id : SourceId)
    (buffers : Buffers) :
    Raises Error.Arises (outcome (encodeSlots codec tuple id fields slots) buffers).1 := by
  rw [result_encodeSlots]
  refine (Raises.mapM ?_).map
  rintro ⟨field, slot⟩ member
  have fed := List.forall₂_zip feeds member
  cases slot with
  | sourceId => exact .ok _
  | field position =>
      exact (tuple.require_raises position).bind fun value _ =>
        (FieldCodec.bytesOf_outward (planned.serves_of_feeds serves fed) value).imp fun _ outward =>
          outward.arises (FieldCodec.Unwritten.arises arise)

variable (records : RecordCodec)

def Missized (job : Job) (tuple : Tuple) (cause : Error) : Prop :=
  ∃ source ∈ job.sources, source.schema.name = tuple.schema.name ∧ tuple.size ≠ source.schema.size ∧
    cause = .schema (.tupleSize tuple.size source.schema.name source.schema.size)

theorem sourceNamed_raises (plan : Plan) (name : String) :
    Raises Error.Arises (plan.sourceNamed name) := by
  rw [Plan.sourceNamed]
  split
  · exact .ok _
  · exact .error rfl

theorem write_raises (sound : records.plan.Sound) (arise : records.fields.objects.Arise)
    (serves : records.fields.ServesAll records.plan.job) (tuple : Tuple) (buffers : Buffers) :
    Raises (fun cause => cause.Arises ∨ Missized records.plan.job tuple cause)
      (outcome (records.write tuple) buffers).1 := by
  cases known : records.plan.sourceNamed tuple.schema.name with
  | error cause =>
      have arises := sourceNamed_raises records.plan tuple.schema.name cause known
      rw [write, known, outcome_bind_of_error (outcome_ofExcept _ _)]
      exact .error (.inl arises)
  | ok source =>
      obtain ⟨declared, planned, named⟩ := (Plan.sourceNamed_eq_ok sound).mp known
      by_cases sized : tuple.size = source.schema.size
      · rw [outcome_write sound known sized]
        refine Raises.imp ?_ fun _ => .inl
        rw [← encodeSlots_append _ _ planned.sound.feedsCommon.length_eq]
        exact encodeSlots_raises arise serves planned planned.feeds _ _ _
      · rw [write, known, outcome_bind_of_ok (outcome_ofExcept _ _)]
        simp only [ne_eq, sized, not_false_eq_true, if_true]
        refine .error (.inr ⟨declared, planned.inJob, named, ?_, ?_⟩)
        · rw [← planned.sound.schema]
          exact sized
        · rw [SourcePlan.name, planned.sound.schema]

theorem Unread.arises {records : RecordCodec} (arise : records.fields.objects.Arise) {record : Bytes}
    {cause : Error} (unread : records.Unread record cause) : cause.Arises := by
  obtain ⟨_, _, _, _, _, _, _, unread⟩ := unread
  exact FieldCodec.Unread.arises arise unread

theorem readInto_raises (sound : records.plan.Sound) (arise : records.fields.objects.Arise)
    (serves : records.fields.ServesAll records.plan.job) (record : Bytes) (used : Tuple) :
    Raises Error.Arises (outcome (records.readInto record) used).1 :=
  (readInto_outward sound serves record used).imp fun _ outward => outward.arises (Unread.arises arise)

theorem decode_raises (sound : records.plan.Sound) (arise : records.fields.objects.Arise)
    (serves : records.fields.ServesAll records.plan.job) (record : Bytes) :
    Raises Error.Arises (records.decode record) :=
  (decode_outward sound serves record).imp fun _ outward => outward.arises (Unread.arises arise)

end RecordCodec

namespace RecordOrder

variable {order : RecordOrder}

theorem compareCommon_raises {codec : FieldCodec} {keys : List SortKey}
    (ready : ∀ key ∈ keys, key.Ready codec) (left right : Tuple) (leftId rightId : SourceId)
    (position : Nat) (leftSlots rightSlots : List Slot) :
    Raises Error.Arises (compareCommon left right leftId rightId position keys leftSlots rightSlots) := by
  induction keys generalizing position leftSlots rightSlots with
  | nil => exact .ok _
  | cons key keys ih =>
      rw [List.forall_mem_cons] at ready
      cases leftSlots with
      | nil => exact .ok _
      | cons leftSlot leftSlots =>
          cases rightSlots with
          | nil => exact .ok _
          | cons rightSlot rightSlots =>
              rw [compareCommon_cons]
              refine Raises.bind ?_ fun _ _ => ?_
              · rw [compareSlots.eq_def]
                split
                · exact .ok _
                · exact (left.require_raises _).bind fun _ _ => (right.require_raises _).bind fun _ _ =>
                    (SortKey.compareValues_plain ready.1.usable _ _).imp fun _ =>
                      Error.Plain.arises
                · exact .error rfl
              · split
                · exact ih ready.2 _ _ _
                · exact .ok _

theorem compareSecondary_raises {codec : FieldCodec} {keys : List SortKey}
    (ready : ∀ key ∈ keys, key.Ready codec) (source : SourcePlan) (left right : Tuple) :
    Raises Error.Arises (compareSecondary source left right keys) := by
  induction keys with
  | nil => exact .ok _
  | cons key keys ih =>
      rw [List.forall_mem_cons] at ready
      have place : Raises Error.Arises (specificPosition source key) := by
        rw [specificPosition]
        split
        · exact .ok _
        · exact .error rfl
      rw [compareSecondary]
      refine place.bind fun _ _ => (left.require_raises _).bind fun _ _ => ?_
      refine (right.require_raises _).bind fun _ _ => ?_
      refine ((SortKey.compareValues_plain ready.1.usable _ _).imp fun _ => Error.Plain.arises).bind ?_
      intro _ _
      split
      · exact ih ready.2
      · exact .ok _

theorem compareBy_raises {codec : FieldCodec} {keys : List SortKey} (ready : ∀ key ∈ keys, key.Ready codec)
    (secondary : ∀ id, ∀ key ∈ order.secondaryOf id, key.Ready codec) (withSecondary : Bool)
    (left right : Tuple) : Raises Error.Arises (order.compareBy keys withSecondary left right) := by
  refine (RecordCodec.sourceNamed_raises _ _).bind fun leftSource _ => ?_
  refine (RecordCodec.sourceNamed_raises _ _).bind fun rightSource _ => ?_
  refine (compareCommon_raises ready _ _ _ _ _ _ _).bind fun _ _ => ?_
  split
  · exact compareSecondary_raises (secondary _) _ _ _
  · exact .ok _

/-- A comparison of records comes to a field whose codec fails on the bytes in one of them. -/
def Unread (order : RecordOrder) (keys : List SortKey) (withSecondary : Bool) (left right : Bytes)
    (cause : Error) : Prop :=
  ∃ progress key, order.Visits keys withSecondary left right progress key ∧
    ∃ side : Side, order.codec.Unread (side.of left right) (side.offset progress) key.type cause

theorem compareEncoded_outward {key : SortKey} (ready : key.Ready order.codec) (left right : Bytes)
    (progress : Progress) :
    Raises (Error.Outward fun cause => ∃ side : Side,
        order.codec.Unread (side.of left right) (side.offset progress) key.type cause)
      (key.compareEncoded order.codec left progress.left right progress.right) := by
  have decoded (side : Side) : Raises (Error.Outward fun cause => ∃ side : Side,
        order.codec.Unread (side.of left right) (side.offset progress) key.type cause)
      (order.codec.decode (side.of left right) (side.offset progress) key.type) :=
    (FieldCodec.decode_outward ready.serves _ _).imp fun _ outward => outward.imp fun unread => ⟨side, unread⟩
  rw [SortKey.compareEncoded.eq_def]
  split
  · exact (decoded .left).bind fun _ _ => (decoded .right).bind fun _ _ => .ok _
  · rename_i plain
    split
    · exact (FieldCodec.textBytes_plain _ _).outward.bind fun _ _ =>
        (FieldCodec.textBytes_plain _ _).outward.bind fun _ _ => .ok _
    · rename_i typed
      rcases ready.usable with some | orderable
      · simp [plain] at some
      · simp [typed, DataType.isOrderable] at orderable
    · exact (FieldCodec.skip_plain _ _ _).outward.bind fun _ _ =>
        (FieldCodec.skip_plain _ _ _).outward.bind fun _ _ => .ok _

theorem compareField_outward {key : SortKey} (ready : key.Ready order.codec) (left right : Bytes)
    (progress : Progress) :
    Raises (Error.Outward fun cause => ∃ side : Side,
        order.codec.Unread (side.of left right) (side.offset progress) key.type cause)
      (order.compareField left right progress key) := by
  rw [compareField]
  split
  · exact (Varint.readSourceId_plain _ _).outward.bind fun _ _ =>
      (Varint.readSourceId_plain _ _).outward.bind fun _ _ => .ok _
  · exact (compareEncoded_outward ready left right progress).bind fun _ _ => .ok _

theorem compareBytesBy_outward {plan : Plan} {codec : FieldCodec} {comparators : Comparators}
    (sound : plan.Sound) (made : ofPlan plan codec comparators = .ok order) {keys : List SortKey}
    (ready : ∀ key ∈ keys, key.Ready order.codec)
    (secondary : ∀ id, ∀ key ∈ order.secondaryOf id, key.Ready order.codec) (withSecondary : Bool)
    (left right : Bytes) :
    Raises (Error.Outward (order.Unread keys withSecondary left right))
      (order.compareBytesBy keys withSecondary left right) := by
  intro cause failed
  obtain ⟨progress, key, visits, failed⟩ := (compareBytesBy_eq_error sound made).mp failed
  have usable : key.Ready order.codec := by
    cases visits with
    | common split => exact ready key (by simp [split])
    | secondary _ _ _ split _ => exact secondary _ key (by rw [split]; simp)
  exact (compareField_outward usable left right progress cause failed).imp fun unread =>
    ⟨progress, key, visits, unread⟩

theorem Unread.arises (arise : order.codec.objects.Arise) {keys : List SortKey} {withSecondary : Bool}
    {left right : Bytes} {cause : Error} (unread : order.Unread keys withSecondary left right cause) :
    cause.Arises := by
  obtain ⟨_, _, _, _, unread⟩ := unread
  exact FieldCodec.Unread.arises arise unread

end RecordOrder

namespace Partitioner

variable {partitioner : Partitioner} {tuple : Tuple}

theorem assign_of_encodeSlots (sound : partitioner.plan.Sound) {source : SourcePlan}
    (known : partitioner.plan.sourceNamed tuple.schema.name = .ok source) {kind : Error → Prop}
    {buffers : Buffers}
    (keyed : partitioner.count ≠ 1 → Raises kind (outcome (RecordCodec.encodeSlots partitioner.codec
      tuple source.id (partitioner.plan.common.fields.take (partitioner.plan.minDepth + 1))
      (source.commonSlots.take (partitioner.plan.minDepth + 1))) { buffers with out := [] }).1) :
    Raises kind (outcome (partitioner.assign tuple) buffers).1 := by
  by_cases single : partitioner.count = 1
  · rw [assign, if_pos single]
    exact .ok _
  have written := keyed single
  rw [assign_named sound single known]
  cases done : outcome (RecordCodec.encodeSlots partitioner.codec tuple source.id
      (partitioner.plan.common.fields.take (partitioner.plan.minDepth + 1))
      (source.commonSlots.take (partitioner.plan.minDepth + 1))) { buffers with out := [] } with
  | mk result after =>
      rw [done] at written
      cases result with
      | error cause =>
          rw [outcome_bind_of_error done]
          exact .error (written cause rfl)
      | ok =>
          rw [outcome_bind_of_ok done]
          exact .ok _

theorem assign_raises (partitioner : Partitioner) (sound : partitioner.plan.Sound)
    (arise : partitioner.codec.objects.Arise) (serves : partitioner.codec.ServesAll partitioner.plan.job)
    (tuple : Tuple) (buffers : Buffers) :
    Raises Error.Arises (outcome (partitioner.assign tuple) buffers).1 := by
  cases known : partitioner.plan.sourceNamed tuple.schema.name with
  | error cause =>
      rw [assign, known]
      split
      · exact .ok _
      · rw [outcome_bind_of_error (outcome_ofExcept _ _)]
        exact .error (RecordCodec.sourceNamed_raises _ _ _ known)
  | ok source =>
      obtain ⟨declared, planned, _⟩ := (Plan.sourceNamed_eq_ok sound).mp known
      refine assign_of_encodeSlots sound known fun _ => ?_
      exact RecordCodec.encodeSlots_raises arise serves planned
        (List.forall₂_take (partitioner.plan.minDepth + 1) planned.sound.feedsCommon) tuple source.id _

end Partitioner

/-- All that is made for a job before it sees records. -/
structure Stack (job : Job) (objects : ObjectCodecs) (limit : Nat) (comparators : Comparators)
    (count : UInt64) (seed : Option UInt64) where
  plan : Plan
  fields : FieldCodec
  order : RecordOrder
  partitioner : Partitioner
  built : Plan.build job = .ok plan
  made : FieldCodec.ofPlan plan objects limit = .ok fields
  ordered : RecordOrder.ofPlan plan fields comparators = .ok order
  partitioned : Partitioner.ofPlan plan fields count seed = .ok partitioner

namespace Stack

variable {job : Job} {objects : ObjectCodecs} {limit : Nat} {comparators : Comparators} {count : UInt64}
  {seed : Option UInt64}

def records (stack : Stack job objects limit comparators count seed) : RecordCodec :=
  ⟨stack.plan, stack.fields⟩

/-- What is made for a job fails with errors of configuration while it is put together, and with other
errors on tuples and records. Two causes stand on the wrong side: a secondary order for an unknown source
is not an error of configuration, and a tuple with too few or too many values is one. -/
theorem raises_apart (job : Job) (objects : ObjectCodecs) (limit : Nat) (comparators : Comparators)
    (count : UInt64) (seed : Option UInt64) :
    Raises (fun cause => cause.isConfig = false ↔ Layout.UnknownSecondary job cause) (Plan.build job) ∧
    (∀ plan, Raises (fun cause => cause.isConfig = true) (FieldCodec.ofPlan plan objects limit)) ∧
    (∀ plan fields, Raises (fun cause => cause.isConfig = true)
      (RecordOrder.ofPlan plan fields comparators)) ∧
    (∀ plan fields, Raises (fun cause => cause.isConfig = true)
      (Partitioner.ofPlan plan fields count seed)) ∧
    (objects.Arise → ∀ stack : Stack job objects limit comparators count seed,
      (∀ tuple buffers, Raises (fun cause => cause.isConfig = true ↔ RecordCodec.Missized job tuple cause)
        (outcome (stack.records.write tuple) buffers).1) ∧
      (∀ record, Raises (fun cause => cause.isConfig = false) (stack.records.decode record)) ∧
      (∀ record tuple, Raises (fun cause => cause.isConfig = false)
        (outcome (stack.records.readInto record) tuple).1) ∧
      (∀ left right, Raises (fun cause => cause.isConfig = false) (stack.order.compare left right) ∧
        Raises (fun cause => cause.isConfig = false) (stack.order.groups.compare left right)) ∧
      (∀ left right, Raises (fun cause => cause.isConfig = false) (stack.order.compareBytes left right) ∧
        Raises (fun cause => cause.isConfig = false) (stack.order.groups.compareBytes left right)) ∧
      ∀ tuple buffers, Raises (fun cause => cause.isConfig = false)
        (outcome (stack.partitioner.assign tuple) buffers).1) := by
  refine ⟨(Plan.build_raises job).imp ?_, fun plan => FieldCodec.ofPlan_raises _ _ _,
    fun plan fields => RecordOrder.ofPlan_raises _ _ _, fun plan fields => Partitioner.ofPlan_raises _ _ _ _, ?_⟩
  · rintro cause (config | unknown)
    · simp only [Error.Configures] at config
      simp only [config, Bool.true_eq_false, false_iff]
      rintro ⟨id, _, _, rfl⟩
      cases config
    · refine iff_of_true ?_ unknown
      obtain ⟨id, _, _, rfl⟩ := unknown
      rfl
  intro arise stack
  obtain ⟨plan, fields, order, partitioner, built, made, ordered, partitioned⟩ := stack
  obtain ⟨sound, rfl⟩ := Plan.build_sound built
  have serves : fields.ServesAll plan.job := FieldCodec.ofPlan_serves sound made
  obtain ⟨rfl, _⟩ := FieldCodec.ofPlan_parts made
  have secondary := RecordOrder.ready_secondary sound ordered serves
  obtain ⟨orderSound, rfl, rfl⟩ := RecordOrder.ofPlan_sound sound ordered
  have common := RecordOrder.ready_common orderSound serves
  have grouping : ∀ key ∈ order.groups.keys, key.Ready order.codec := fun key member =>
    common key (List.mem_of_mem_take member)
  obtain ⟨rfl, _⟩ := Partitioner.ofPlan_sound partitioned
  refine ⟨?_, RecordCodec.decode_raises ⟨order.plan, order.codec⟩ sound arise serves,
    ?_, ?_, ?_, ?_⟩
  · intro tuple buffers
    refine (RecordCodec.write_raises ⟨order.plan, order.codec⟩ sound arise serves tuple
      buffers).imp ?_
    rintro cause (arises | missized)
    · simp only [Error.Arises] at arises
      simp only [arises, Bool.false_eq_true, false_iff]
      rintro ⟨source, _, _, _, rfl⟩
      cases arises
    · refine iff_of_true ?_ missized
      obtain ⟨source, _, _, _, rfl⟩ := missized
      rfl
  · exact RecordCodec.readInto_raises ⟨order.plan, order.codec⟩ sound arise serves
  · intro left right
    exact ⟨RecordOrder.compareBy_raises common secondary _ _ _,
      RecordOrder.compareBy_raises grouping secondary _ _ _⟩
  · intro left right
    exact ⟨(RecordOrder.compareBytesBy_outward sound ordered common secondary true left right).imp
        fun _ outward => outward.arises (RecordOrder.Unread.arises arise),
      (RecordOrder.compareBytesBy_outward sound ordered grouping secondary false left right).imp
        fun _ outward => outward.arises (RecordOrder.Unread.arises arise)⟩
  · exact Partitioner.assign_raises ⟨order.plan, order.codec, max count 1, seed⟩ sound arise
      serves

end Stack

theorem ObjectCodecs.arise_standard : standard.Arise := by
  intro name object found
  constructor
  · intro json cause failed
    rw [find_standard found] at failed
    cases failed
  · intro bytes cause failed
    rw [find_standard found] at failed
    rw [eq_notJson failed]
    rfl

theorem FieldCodec.not_unwritten_standard {codec : FieldCodec} (standard : codec.objects = .standard)
    {type : DataType} {value : Value} {cause : Error} : ¬codec.Unwritten type value cause := by
  rintro ⟨found, failed⟩
  rw [standard] at found
  rw [ObjectCodecs.find_standard found] at failed
  cases failed

theorem FieldCodec.Unread.plain_standard {codec : FieldCodec} (standard : codec.objects = .standard)
    {buffer : Bytes} {offset : Nat} {type : DataType} {cause : Error}
    (unread : codec.Unread buffer offset type cause) : cause.Plain := by
  obtain ⟨found, _, _, failed⟩ := unread
  rw [standard] at found
  rw [ObjectCodecs.find_standard found] at failed
  rw [ObjectCodecs.eq_notJson failed]
  rfl

namespace Crawl

def stack : Stack job .standard 8 .empty 2 none where
  plan := plan
  fields := fields
  order := valueOf (RecordOrder.ofPlan plan fields .empty) (by decide +kernel)
  partitioner := valueOf (Partitioner.ofPlan plan fields 2 none) (by decide +kernel)
  built := built
  made := made
  ordered := eq_valueOf _
  partitioned := eq_valueOf _

def strayed : Job :=
  { job with secondaryOrderBy := Dictionary.ofList [(⟨7⟩, ⟨[.field "size" .descending none]⟩)] }

def stump : Tuple := ⟨⟨"links", [⟨"fetched", .int64, none⟩]⟩, [.int64 7], rfl⟩

end Crawl

/-- A record that ends within the first field. -/
theorem Stack.raises_apart_crawl :
    ∃ cause, Crawl.stack.records.decode [0x82] = .error cause ∧ cause.isConfig = false := by
  obtain ⟨_, _, _, _, apart⟩ := raises_apart Crawl.job .standard 8 .empty 2 none
  obtain ⟨_, reading, _⟩ := apart ObjectCodecs.arise_standard Crawl.stack
  have short : Crawl.stack.records.decode [0x82] = .error (.codec (.varintShort 0 3 1)) := by decide +kernel
  exact ⟨_, short, reading _ _ short⟩

/-- Neither phase keeps to its side. -/
theorem Stack.raises_crossed_crawl :
    (∃ cause, Plan.build Crawl.strayed = .error cause ∧ cause.isConfig = false) ∧
      ∃ cause, (outcome (Crawl.stack.records.write Crawl.stump) ⟨[], []⟩).1 = .error cause ∧
        cause.isConfig = true := by
  constructor
  · exact ⟨.unknownSource (.numbered ⟨7⟩), by decide +kernel, rfl⟩
  · exact ⟨.schema (.tupleSize 1 "links" 3), by decide +kernel, rfl⟩

end Cogrouping
