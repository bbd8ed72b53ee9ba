import Cogrouping.Proofs.Phases.Records
import Cogrouping.Proofs.Rollup.Keys

/-!
The errors that nobody meets. With what has been made for a job, on tuples of the job's sources with any
values and on records with any bytes, only errors occur that tell of values and bytes, or that the codec of
a field's objects reports of that field; none says that an invariant failed, or that a field is unknown or
has no order.
-/

namespace Cogrouping

/-- A tuple has the fields of one of a job's sources, and any values. -/
def Job.Owns (job : Job) (tuple : Tuple) : Prop := ∃ source ∈ job.sources, tuple.schema = source.schema

structure Plan.Owns (plan : Plan) (declared : Source) (source : SourcePlan) (tuple : Tuple) : Prop where
  planned : plan.Planned declared source
  schema : tuple.schema = source.schema

theorem Plan.Sound.exists_owns {plan : Plan} (sound : plan.Sound) {tuple : Tuple}
    (owns : plan.job.Owns tuple) : ∃ declared source, plan.Owns declared source tuple := by
  obtain ⟨declared, member, same⟩ := owns
  obtain ⟨source, planned⟩ := sound.exists_planned member
  exact ⟨declared, source, planned, same.trans planned.sound.schema.symm⟩

namespace Plan.Owns

variable {plan : Plan} {declared : Source} {source : SourcePlan} {tuple : Tuple}

theorem sourceNamed (sound : plan.Sound) (owns : plan.Owns declared source tuple) :
    plan.sourceNamed tuple.schema.name = .ok source :=
  (Plan.sourceNamed_eq_ok sound).mpr
    ⟨declared, owns.planned, by rw [owns.schema, owns.planned.sound.schema]⟩

theorem sized (owns : plan.Owns declared source tuple) : tuple.size = source.schema.size :=
  owns.schema ▸ tuple.complete

theorem exists_value (owns : plan.Owns declared source tuple) {field : Field} {position : Nat}
    (feeds : Slot.Feeds source.schema field (.field position)) :
    ∃ value, tuple.get? position = some value := by
  cases feeds with
  | field _ found =>
      have inside := (List.getElem?_eq_some_iff.mp found).1
      have sized : tuple.values.length = source.schema.fields.length := owns.sized
      exact ⟨_, List.getElem?_eq_getElem (sized ▸ inside)⟩

end Plan.Owns

namespace RecordCodec

variable {plan : Plan} {declared : Source} {source : SourcePlan} {tuple : Tuple}

theorem encodeSlots_of_values {codec : FieldCodec} {kind : Error → Prop}
    (owns : plan.Owns declared source tuple) {fields : List Field} {slots : List Slot}
    (feeds : List.Forall₂ (Slot.Feeds source.schema) fields slots)
    (each : ∀ field ∈ fields, ∀ position value, Slot.Feeds source.schema field (.field position) →
      tuple.get? position = some value → Raises kind (codec.bytesOf field value))
    (id : SourceId) (buffers : Buffers) :
    Raises kind (outcome (encodeSlots codec tuple id fields slots) buffers).1 := by
  rw [result_encodeSlots]
  refine (Raises.mapM ?_).map
  rintro ⟨field, slot⟩ member
  have fed := List.forall₂_zip feeds member
  cases slot with
  | sourceId => exact .ok _
  | field position =>
      obtain ⟨value, held⟩ := owns.exists_value fed
      rw [slotBytes, Tuple.require_eq_ok.mpr held, ok_bind]
      exact each field (List.of_mem_zip member).1 position value fed held

/-- A tuple holds an object that the codec of its field fails on. -/
def Unwritten (records : RecordCodec) (tuple : Tuple) (cause : Error) : Prop :=
  ∃ position field value, tuple.schema.fields[position]? = some field ∧
    tuple.get? position = some value ∧ records.fields.Unwritten field.type value cause

theorem write_outward {records : RecordCodec} (sound : records.plan.Sound)
    (serves : records.fields.ServesAll records.plan.job) (owns : records.plan.Owns declared source tuple)
    (buffers : Buffers) :
    Raises (Error.Outward (records.Unwritten tuple)) (outcome (records.write tuple) buffers).1 := by
  rw [outcome_write sound (owns.sourceNamed sound) owns.sized,
    ← encodeSlots_append _ _ owns.planned.sound.feedsCommon.length_eq]
  refine encodeSlots_of_values owns owns.planned.feeds (fun field _ position value fed held => ?_) _ _
  have written := FieldCodec.bytesOf_outward (owns.planned.serves_of_feeds serves fed) value
  refine written.imp fun cause outward => outward.imp fun unwritten => ?_
  cases fed with
  | field _ found _ typed => exact ⟨position, _, value, owns.schema ▸ found, held, typed ▸ unwritten⟩

end RecordCodec

theorem Partitioner.assign_plain {comparators : Comparators} {order : RecordOrder}
    (sound : order.Sound comparators) {count : UInt64} {seed : Option UInt64} (positive : 0 < count)
    (plain : 1 < count → ∀ criterion ∈ hashed order.plan, criterion.comparator = none)
    {declared : Source} {source : SourcePlan} {tuple : Tuple} (owns : order.plan.Owns declared source tuple)
    (buffers : Buffers) :
    Raises Error.Plain
      (outcome ((Partitioner.mk order.plan order.codec count seed).assign tuple) buffers).1 := by
  have planSound : (Partitioner.mk order.plan order.codec count seed).plan.Sound := sound.plan
  refine assign_of_encodeSlots planSound (owns.sourceNamed sound.plan) fun several => ?_
  have orderable := sound.hashed_orderable (plain ((one_lt_iff positive).mpr several))
  exact RecordCodec.encodeSlots_of_values owns
    (List.forall₂_take (order.plan.minDepth + 1) owns.planned.sound.feedsCommon)
    (fun field member _ value _ _ => FieldCodec.bytesOf_plain (orderable field member) value) _ _

namespace RecordOrder

variable {plan : Plan} {leftDeclared rightDeclared : Source} {leftSource rightSource : SourcePlan}
  {left right : Tuple}

theorem usable_of_sorts {key : SortKey} {field : Field} (sorts : key.SortsBy field) :
    key.comparator.isSome = true ∨ key.type.isOrderable = true :=
  sorts.type ▸ sorts.usable

theorem compareCommon_plain (leftOwns : plan.Owns leftDeclared leftSource left)
    (rightOwns : plan.Owns rightDeclared rightSource right) {keys : List SortKey} {fields : List Field}
    (sorts : List.Forall₂ SortKey.SortsBy keys fields) {leftSlots rightSlots : List Slot}
    (leftFeeds : List.Forall₂ (Slot.Feeds leftSource.schema) fields leftSlots)
    (rightFeeds : List.Forall₂ (Slot.Feeds rightSource.schema) fields rightSlots)
    (leftId rightId : SourceId) (leftRest rightRest : List Slot) (position : Nat) :
    Raises Error.Plain (compareCommon left right leftId rightId position keys (leftSlots ++ leftRest)
      (rightSlots ++ rightRest)) := by
  induction sorts generalizing leftSlots rightSlots position with
  | nil => exact .ok _
  | @cons key field keys fields first _ ih =>
      obtain ⟨leftSlot, leftSlots, leftFed, leftLater, rfl⟩ := List.forall₂_cons_left_iff.mp leftFeeds
      obtain ⟨rightSlot, rightSlots, rightFed, rightLater, rfl⟩ := List.forall₂_cons_left_iff.mp rightFeeds
      have here : Raises Error.Plain
          (compareSlots left right leftId rightId position key leftSlot rightSlot) := by
        cases leftFed with
        | sourceId marked =>
            cases rightFed with
            | sourceId => exact .ok _
            | field unmarked => simp [marked] at unmarked
        | field unmarked found named typed =>
            cases rightFed with
            | sourceId marked => simp [unmarked] at marked
            | field other otherFound otherNamed otherTyped =>
                obtain ⟨leftValue, leftHeld⟩ := leftOwns.exists_value (.field unmarked found named typed)
                obtain ⟨rightValue, rightHeld⟩ :=
                  rightOwns.exists_value (.field other otherFound otherNamed otherTyped)
                rw [compareSlots, Tuple.require_eq_ok.mpr leftHeld, ok_bind,
                  Tuple.require_eq_ok.mpr rightHeld, ok_bind]
                exact SortKey.compareValues_plain (usable_of_sorts first) _ _
      rw [List.cons_append, List.cons_append, compareCommon_cons]
      refine here.bind fun ascending _ => ?_
      split
      · exact ih leftLater rightLater (position + 1)
      · exact .ok _

theorem compareSecondary_plain (leftOwns : plan.Owns leftDeclared leftSource left)
    (rightOwns : plan.Owns rightDeclared leftSource right) {keys : List SortKey} {slots : List Slot}
    (locates : List.Forall₂ (Locates leftSource) keys slots) :
    Raises Error.Plain (compareSecondary leftSource left right keys) := by
  induction locates with
  | nil => exact .ok _
  | cons first _ ih =>
      obtain ⟨⟨position, rfl, located⟩, field, sorts, fed⟩ := first
      obtain ⟨leftValue, leftHeld⟩ := leftOwns.exists_value fed
      obtain ⟨rightValue, rightHeld⟩ := rightOwns.exists_value fed
      rw [compareSecondary, located, ok_bind, Tuple.require_eq_ok.mpr leftHeld, ok_bind,
        Tuple.require_eq_ok.mpr rightHeld, ok_bind]
      refine (SortKey.compareValues_plain (usable_of_sorts sorts) _ _).bind fun ascending _ => ?_
      split
      · exact ih
      · exact .ok _

variable {order : RecordOrder} {comparators : Comparators}

theorem compareBy_plain (sound : order.Sound comparators)
    (leftOwns : order.plan.Owns leftDeclared leftSource left)
    (rightOwns : order.plan.Owns rightDeclared rightSource right) (count : Nat) (withSecondary : Bool) :
    Raises Error.Plain (order.compareBy (order.common.take count) withSecondary left right) := by
  rw [compareBy, leftOwns.sourceNamed sound.plan, rightOwns.sourceNamed sound.plan, ok_bind, ok_bind]
  have common := compareCommon_plain leftOwns rightOwns (List.forall₂_take count sound.common)
    (List.forall₂_take count leftOwns.planned.sound.feedsCommon)
    (List.forall₂_take count rightOwns.planned.sound.feedsCommon) leftSource.id rightSource.id
    (leftSource.commonSlots.drop count) (rightSource.commonSlots.drop count) 0
  rw [List.take_append_drop, List.take_append_drop] at common
  refine common.bind fun ordering _ => ?_
  split
  · rename_i shared
    simp only [Bool.and_eq_true, decide_eq_true_eq] at shared
    obtain rfl := leftOwns.planned.eq_of_id rightOwns.planned shared.2
    obtain ⟨⟨leading, rest, split, sorts⟩, _⟩ := sound.secondary leftDeclared leftSource leftOwns.planned
    exact compareSecondary_plain leftOwns rightOwns (locates_leading leftOwns.planned.sound.distinct
      leftOwns.planned.sound.feedsSpecific split sorts)
  · exact .ok _

variable {leftKey rightKey : GroupKey}

theorem exists_get?_of_owns (sound : plan.Sound) (owns : plan.Owns leftDeclared leftSource left)
    (made : GroupKey.ofTuple plan left = .ok leftKey) {depth : Nat} (inside : depth < plan.groupBy.length) :
    ∃ value, leftKey.get? depth = some value := by
  have within : depth < plan.common.fields.length := Nat.lt_of_lt_of_le inside sound.groupBy_length_le
  obtain ⟨slot, found, feeds⟩ :=
    owns.planned.sound.feedsCommon.getElem?_left (List.getElem?_eq_getElem within)
  obtain ⟨position, rfl, same⟩ := GroupKey.get?_of_ofTuple sound made (owns.sourceNamed sound) inside found
  rw [same]
  exact owns.exists_value feeds

theorem mismatchAmong_plain (sound : order.Sound comparators)
    (leftHas : ∀ depth < order.plan.groupBy.length, ∃ value, leftKey.get? depth = some value)
    (rightHas : ∀ depth < order.plan.groupBy.length, ∃ value, rightKey.get? depth = some value)
    {engine : Rollup.Engine} (ordered : engine.order = order.groups) {depths : List Nat}
    (inside : ∀ depth ∈ depths, depth < order.plan.groupBy.length) :
    Raises Error.Plain (engine.mismatchAmong leftKey rightKey depths) := by
  induction depths with
  | nil => exact .ok _
  | cons depth depths ih =>
      rw [List.forall_mem_cons] at inside
      obtain ⟨leftValue, leftHeld⟩ := leftHas depth inside.1
      obtain ⟨rightValue, rightHeld⟩ := rightHas depth inside.1
      have within : depth < order.plan.common.fields.length :=
        Nat.lt_of_lt_of_le inside.1 sound.plan.groupBy_length_le
      obtain ⟨key, found, sorts⟩ := sound.common.flip.getElem?_left (List.getElem?_eq_getElem within)
      have here : order.groups.records.common[depth]? = some key := found
      have compared : Raises Error.Plain (engine.order.sameField depth leftValue rightValue) := by
        rw [ordered, GroupOrder.sameField, here]
        exact (SortKey.compareValues_plain (usable_of_sorts sorts) _ _).map
      simp only [Rollup.Engine.mismatchAmong, leftHeld, rightHeld]
      refine compared.bind fun same _ => ?_
      split
      · exact ih inside.2
      · exact .ok _

theorem mismatch_plain (sound : order.Sound comparators)
    (leftOwns : order.plan.Owns leftDeclared leftSource left)
    (rightOwns : order.plan.Owns rightDeclared rightSource right)
    (leftMade : GroupKey.ofTuple order.plan left = .ok leftKey)
    (rightMade : GroupKey.ofTuple order.plan right = .ok rightKey) {engine : Rollup.Engine}
    (ordered : engine.order = order.groups) (deepest : engine.maxDepth = order.plan.maxDepth) :
    Raises Error.Plain (engine.mismatch leftKey rightKey) := by
  refine mismatchAmong_plain sound (fun depth => exists_get?_of_owns sound.plan leftOwns leftMade)
    (fun depth => exists_get?_of_owns sound.plan rightOwns rightMade) ordered fun depth member => ?_
  rw [sound.plan.groupBy_length_eq, ← deepest]
  exact List.mem_range.mp member

end RecordOrder

namespace Stack

variable {job : Job} {objects : ObjectCodecs} {limit : Nat} {comparators : Comparators} {count : UInt64}
  {seed : Option UInt64}

/-- What has been made for a job meets no internal error of its own: not on tuples of the job's sources,
with any values, and not on any bytes. What a codec reports of an object that it is given is passed on, and
assigning and comparing tuples give no codec anything. Of a job that has a layout, every source is planned,
and building the plan fails only on enum types that differ. -/
theorem raises_outward (job : Job) (objects : ObjectCodecs) (limit : Nat) (comparators : Comparators)
    (count : UInt64) (seed : Option UInt64) :
    Raises (fun cause => ∀ fault, cause ≠ .invariant fault) (Plan.build job) ∧
    (∀ layout, Layout.ofJob job = .ok layout →
      (∃ sources, job.sources.mapM (Plan.sourcePlan layout) = .ok sources) ∧
      Raises (fun cause => ∃ type, cause = .config (.constantsDiffer type)) (Plan.build job)) ∧
    ∀ stack : Stack job objects limit comparators count seed,
      (∀ tuple, job.Owns tuple →
        (∀ buffers,
          Raises (Error.Outward (stack.records.Unwritten tuple))
            (outcome (stack.records.write tuple) buffers).1 ∧
          Raises Error.Plain (outcome (stack.partitioner.assign tuple) buffers).1) ∧
        ∃ key, GroupKey.ofTuple stack.plan tuple = .ok key) ∧
      (∀ left right, job.Owns left → job.Owns right →
        Raises Error.Plain (stack.order.compare left right) ∧
        Raises Error.Plain (stack.order.groups.compare left right) ∧
        ∀ leftKey rightKey, GroupKey.ofTuple stack.plan left = .ok leftKey →
          GroupKey.ofTuple stack.plan right = .ok rightKey →
          ∀ engine : Rollup.Engine, engine.order = stack.order.groups →
            engine.maxDepth = stack.plan.maxDepth → Raises Error.Plain (engine.mismatch leftKey rightKey)) ∧
      (∀ left right,
        Raises (Error.Outward (stack.order.Unread stack.order.common true left right))
          (stack.order.compareBytes left right) ∧
        Raises (Error.Outward (stack.order.Unread stack.order.groups.keys false left right))
          (stack.order.groups.compareBytes left right)) ∧
      ∀ record,
        Raises (Error.Outward (stack.records.Unread record)) (stack.records.decode record) ∧
        ∀ tuple, Raises (Error.Outward (stack.records.Unread record))
          (outcome (stack.records.readInto record) tuple).1 := by
  refine ⟨(Plan.build_raises job).imp ?_, fun layout laid =>
    ⟨Plan.exists_sourcePlans laid, Plan.build_raises_of_layout laid⟩, ?_⟩
  · rintro cause (config | ⟨id, _, _, rfl⟩) fault same
    · subst same
      cases config
    · cases same
  intro stack
  obtain ⟨plan, fields, order, partitioner, built, made, ordered, partitioned⟩ := stack
  obtain ⟨sound, rfl⟩ := Plan.build_sound built
  have serves : fields.ServesAll plan.job := FieldCodec.ofPlan_serves sound made
  obtain ⟨rfl, _⟩ := FieldCodec.ofPlan_parts made
  have secondary := RecordOrder.ready_secondary sound ordered serves
  obtain ⟨orderSound, rfl, rfl⟩ := RecordOrder.ofPlan_sound sound ordered
  have common := RecordOrder.ready_common orderSound serves
  have grouping : ∀ key ∈ order.groups.keys, key.Ready order.codec := fun key member =>
    common key (List.mem_of_mem_take member)
  obtain ⟨rfl, plain⟩ := Partitioner.ofPlan_sound partitioned
  have recordsSound : (RecordCodec.mk order.plan order.codec).plan.Sound := sound
  refine ⟨?_, ?_, fun left right => ⟨?_, ?_⟩, fun record => ⟨?_, fun tuple => ?_⟩⟩
  · intro tuple own
    obtain ⟨declared, source, owns⟩ := sound.exists_owns own
    refine ⟨fun buffers => ⟨?_, ?_⟩, ?_⟩
    · exact RecordCodec.write_outward recordsSound serves owns buffers
    · exact Partitioner.assign_plain orderSound (Partitioner.max_positive count) plain owns buffers
    · exact ⟨_, GroupKey.ofTuple_planned sound owns.planned (owns.sourceNamed sound)⟩
  · intro left right leftOwn rightOwn
    obtain ⟨leftDeclared, leftSource, leftOwns⟩ := sound.exists_owns leftOwn
    obtain ⟨rightDeclared, rightSource, rightOwns⟩ := sound.exists_owns rightOwn
    refine ⟨?_, ?_, fun leftKey rightKey leftMade rightMade engine here deepest => ?_⟩
    · have whole := RecordOrder.compareBy_plain orderSound leftOwns rightOwns order.common.length true
      rwa [List.take_length] at whole
    · exact RecordOrder.compareBy_plain orderSound leftOwns rightOwns order.groups.size false
    · exact RecordOrder.mismatch_plain orderSound leftOwns rightOwns leftMade rightMade here deepest
  · exact RecordOrder.compareBytesBy_outward sound ordered common secondary true left right
  · exact RecordOrder.compareBytesBy_outward sound ordered grouping secondary false left right
  · exact RecordCodec.decode_outward recordsSound serves record
  · exact RecordCodec.readInto_outward recordsSound serves record tuple

end Stack

namespace Crawl

def unknown : Tuple := .blank pages

theorem owns_unknown : job.Owns unknown := ⟨⟨⟨1⟩, pages⟩, List.mem_cons_self, rfl⟩

def unknownKey : GroupKey := valueOf (GroupKey.ofTuple stack.plan unknown) (by decide +kernel)

end Crawl

/-- A page without any values is refused for the first of them, and so is a record that ends too early. -/
theorem Stack.raises_outward_crawl :
    (∃ sources, Crawl.job.sources.mapM
      (Plan.sourcePlan (valueOf (Layout.ofJob Crawl.job) (by decide +kernel))) = .ok sources) ∧
    (∃ cause, (outcome (Crawl.stack.records.write Crawl.unknown) ⟨[], []⟩).1 = .error cause ∧ cause.Plain) ∧
    (∃ cause, (outcome (Crawl.stack.partitioner.assign Crawl.unknown) ⟨[], []⟩).1 = .error cause ∧
      cause.Plain) ∧
    (∃ cause, (Rollup.Engine.ofOrder Crawl.stack.order.groups).mismatch Crawl.unknownKey
      Crawl.unknownKey = .error cause ∧ cause.Plain) ∧
    ∃ cause, Crawl.stack.records.decode [0x82] = .error cause ∧ cause.Plain := by
  obtain ⟨_, planned, made⟩ := raises_outward Crawl.job .standard 8 .empty 2 none
  obtain ⟨written, compared, _, read⟩ := made Crawl.stack
  obtain ⟨refused, _⟩ := written Crawl.unknown Crawl.owns_unknown
  obtain ⟨_, _, keyed⟩ := compared _ _ Crawl.owns_unknown Crawl.owns_unknown
  have unwritten : (outcome (Crawl.stack.records.write Crawl.unknown) ⟨[], []⟩).1 =
      .error (.nullNotAllowed "url") := by decide +kernel
  have unassigned : (outcome (Crawl.stack.partitioner.assign Crawl.unknown) ⟨[], []⟩).1 =
      .error (.nullNotAllowed "url") := by decide +kernel
  have unlike : (Rollup.Engine.ofOrder Crawl.stack.order.groups).mismatch Crawl.unknownKey
      Crawl.unknownKey = .error (.nullNotAllowed "url") := by decide +kernel
  have short : Crawl.stack.records.decode [0x82] = .error (.codec (.varintShort 0 3 1)) := by decide +kernel
  have standard : Crawl.stack.records.fields.objects = .standard := (FieldCodec.ofPlan_parts Crawl.made).1
  refine ⟨(planned _ (eq_valueOf _)).1, ⟨_, unwritten, ?_⟩,
    ⟨_, unassigned, (refused _).2 _ unassigned⟩,
    ⟨_, unlike, keyed _ _ (eq_valueOf _) (eq_valueOf _) _ rfl rfl _ unlike⟩, ⟨_, short, ?_⟩⟩
  · refine ((refused _).1 _ unwritten).elim id ?_
    rintro ⟨_, _, _, _, _, reported⟩
    exact absurd reported (FieldCodec.not_unwritten_standard standard)
  · refine ((read _).1 _ short).elim id ?_
    rintro ⟨_, _, _, _, _, _, _, reported⟩
    exact reported.plain_standard standard

end Cogrouping
