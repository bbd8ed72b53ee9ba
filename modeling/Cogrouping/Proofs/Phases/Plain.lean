import Cogrouping.Proofs.Order.Records
import Cogrouping.Proofs.Phases.Assembly
import Cogrouping.Proofs.Wire.Checked
import Cogrouping.Proofs.Wire.Parses

/-!
What goes wrong with single values and with bytes. Whatever a field holds, writing and reading it fail with
errors that tell of bytes and values, or with the one that the codec of the field's objects reports of
what it is given.
-/

namespace Cogrouping

namespace Error

def isPlain : Error → Bool
  | .fieldTypeMismatch .. | .nullNotAllowed _ | .unknownSource _ | .codec _ => true
  | _ => false

def Plain (cause : Error) : Prop := cause.isPlain = true

end Error

/-- Errors that tell of bytes and of values, and those that codecs report. -/
def Error.Outward (reported : Error → Prop) (cause : Error) : Prop := cause.Plain ∨ reported cause

theorem Raises.outward {α : Type} {result : Except Error α} {reported : Error → Prop}
    (raises : Raises Error.Plain result) : Raises (Error.Outward reported) result :=
  raises.imp fun _ => .inl

theorem Error.Outward.imp {reported other : Error → Prop} {cause : Error} (outward : cause.Outward reported)
    (implies : reported cause → other cause) : cause.Outward other := Or.imp_right implies outward

namespace FieldCodec

/-- The codec that a type names fails on the object to be written. -/
inductive Unwritten (codec : FieldCodec) : DataType → Value → Error → Prop
  | object {name : String} {json : Json} {object : ObjectCodec} {cause : Error} :
      codec.objects.find name = .ok object → (object.encode json).2 = .error cause →
      Unwritten codec (.object name) (.object json) cause

/-- The codec that a type names fails on the bytes that stand for an object at an offset. -/
inductive Unread (codec : FieldCodec) (buffer : Bytes) (offset : Nat) : DataType → Error → Prop
  | object {name : String} {object : ObjectCodec} {size header : Nat} {blob : Bytes} {cause : Error} :
      codec.objects.find name = .ok object →
      Varint.readSize buffer offset codec.limit = .ok (size, header) →
      take buffer (offset + header) size = .ok blob → object.decode blob = .error cause →
      Unread codec buffer offset (.object name) cause

end FieldCodec

namespace Varint

theorem sizeAt_plain (buffer : Bytes) (offset : Nat) : Raises Error.Plain (sizeAt buffer offset) := by
  rw [sizeAt]
  split
  · exact .error rfl
  · rename_i header _
    have size : Raises Error.Plain (headerSize header) := by
      rw [headerSize]
      split
      · exact .ok _
      · exact .error rfl
    refine size.bind fun _ _ => ?_
    dsimp only
    split
    · exact .throw_bind rfl
    · exact .ok _

theorem read_plain (buffer : Bytes) (offset : Nat) : Raises Error.Plain (read buffer offset) := by
  refine (sizeAt_plain _ _).bind fun _ _ => ?_
  dsimp only
  split
  · exact .ok _
  · exact .error rfl

theorem readInt32_plain (buffer : Bytes) (offset : Nat) :
    Raises Error.Plain (readInt32 buffer offset) := by
  refine (read_plain _ _).bind fun ⟨_, _⟩ _ => ?_
  dsimp only
  split
  · exact .ok _
  · exact .error rfl

theorem readSize_plain (buffer : Bytes) (offset limit : Nat) :
    Raises Error.Plain (readSize buffer offset limit) := by
  refine (read_plain _ _).bind fun ⟨_, _⟩ _ => ?_
  dsimp only
  split
  · exact .ok _
  · exact .error rfl

theorem readSourceId_plain (buffer : Bytes) (offset : Nat) :
    Raises Error.Plain (readSourceId buffer offset) := by
  refine (read_plain _ _).bind fun ⟨_, _⟩ _ => ?_
  dsimp only
  split
  · exact .ok _
  · exact .error rfl

end Varint

theorem Value.check_plain (field : String) (type : DataType) (value : Value) :
    Raises Error.Plain (value.check field type) := by
  rw [check]
  split
  · exact .ok _
  · split
    · exact .error rfl
    · exact .error rfl

namespace FieldCodec

variable {codec : FieldCodec}

theorem take_plain (buffer : Bytes) (offset size : Nat) :
    Raises Error.Plain (take buffer offset size) := by
  rw [take]
  split
  · exact .ok _
  · exact .error rfl

theorem textBytes_plain (buffer : Bytes) (offset : Nat) :
    Raises Error.Plain (codec.textBytes buffer offset) :=
  (Varint.readSize_plain _ _ _).bind fun _ _ => (take_plain _ _ _).bind fun _ _ => .ok _

theorem skip_plain (buffer : Bytes) (offset : Nat) (type : DataType) :
    Raises Error.Plain (codec.skip buffer offset type) := by
  have announced : Raises Error.Plain (codec.announcedSize buffer offset type) := by
    cases type with
    | int32 => exact Varint.sizeAt_plain _ _
    | int64 => exact Varint.sizeAt_plain _ _
    | enumeration type => exact Varint.sizeAt_plain _ _
    | float32 => exact .ok _
    | float64 => exact .ok _
    | boolean => exact .ok _
    | text => exact (textBytes_plain _ _).map
    | object name =>
        refine (Varint.read_plain _ _).bind fun _ _ => ?_
        dsimp only
        split
        · exact .ok _
        · exact (Varint.readSize_plain _ _ _).bind fun _ _ => .ok _
  exact announced.bind fun _ _ => (take_plain _ _ _).bind fun _ _ => .ok _

theorem resolve_plain (constants : EnumConstants) (name : String) (ordinal : Nat) :
    Raises Error.Plain (constants.resolve name ordinal) := by
  rw [EnumConstants.resolve]
  split
  · exact .error rfl
  · split
    · exact .ok _
    · exact .error rfl

theorem decodeObject_outward {name : String} (serves : codec.Serves (.object name)) (buffer : Bytes)
    (offset : Nat) :
    Raises (Error.Outward (codec.Unread buffer offset (.object name)))
      (codec.decodeObject name buffer offset) := by
  obtain ⟨object, found⟩ := serves name rfl
  refine (Varint.read_plain _ _).outward.bind fun _ _ => ?_
  dsimp only
  split
  · exact .ok _
  · refine (Varint.readSize_plain _ _ _).outward.bind fun ⟨size, header⟩ sized => ?_
    refine (take_plain _ _ _).outward.bind fun blob taken => ?_
    rw [found, ok_bind]
    have read : Raises (Error.Outward (codec.Unread buffer offset (.object name))) (object.decode blob) :=
      fun _ failed => .inr (.object found sized taken failed)
    exact read.bind fun _ _ => .ok _

theorem decode_outward {type : DataType} (serves : codec.Serves type) (buffer : Bytes) (offset : Nat) :
    Raises (Error.Outward (codec.Unread buffer offset type)) (codec.decode buffer offset type) := by
  cases type with
  | int32 => exact (Varint.readInt32_plain _ _).outward.bind fun _ _ => .ok _
  | int64 => exact (Varint.read_plain _ _).outward.bind fun _ _ => .ok _
  | float32 => exact (take_plain _ _ _).outward.bind fun _ _ => .ok _
  | float64 => exact (take_plain _ _ _).outward.bind fun _ _ => .ok _
  | boolean =>
      refine (take_plain _ _ _).outward.bind fun _ _ => ?_
      split
      · exact .ok _
      · exact .ok _
      · exact .error (.inl rfl)
  | text =>
      refine (textBytes_plain _ _).outward.bind fun _ _ => ?_
      dsimp only
      split
      · exact .ok _
      · exact .error (.inl rfl)
  | enumeration type =>
      exact (Varint.readSize_plain _ _ _).outward.bind fun _ _ =>
        (resolve_plain _ _ _).outward.bind fun _ _ => .ok _
  | object name => exact decodeObject_outward serves _ _

theorem bytesOf_outward {field : Field} (serves : codec.Serves field.type) (value : Value) :
    Raises (Error.Outward (codec.Unwritten field.type value)) (codec.bytesOf field value) := by
  intro cause failed
  cases (bytesOf_eq_error serves).mp failed with
  | null => exact .inl rfl
  | mismatch => exact .inl rfl
  | long => exact .inl rfl
  | failed typed found failed => exact .inr (typed ▸ .object found failed)

theorem bytesOf_plain {field : Field} (orderable : field.type.isOrderable = true) (value : Value) :
    Raises Error.Plain (codec.bytesOf field value) := by
  have apart : ∀ name, field.type ≠ .object name := by
    intro name typed
    simp [typed, DataType.isOrderable] at orderable
  have serves : codec.Serves field.type := fun name typed => absurd typed (apart name)
  intro cause failed
  rcases bytesOf_outward serves value cause failed with plain | reported
  · exact plain
  · revert apart reported
    generalize field.type = type
    rintro apart ⟨⟩
    exact absurd rfl (apart _)

end FieldCodec

namespace ObjectCodecs

theorem find_standard {name : String} {object : ObjectCodec} (found : standard.find name = .ok object) :
    object = .json := by
  rw [find] at found
  split at found
  · rename_i known
    cases found
    have entry := Dictionary.find?_eq_some.mp known
    have entries : standard.codecs.entries = [("json", .json)] := rfl
    rw [entries, List.mem_singleton, Prod.mk.injEq] at entry
    exact entry.2
  · cases found

theorem eq_notJson {bytes : Bytes} {cause : Error} (failed : ObjectCodec.json.decode bytes = .error cause) :
    cause = .codec .notJson := by
  rw [ObjectCodec.json] at failed
  dsimp only at failed
  split at failed
  · exact (Except.error.inj failed).symm
  · split at failed
    · cases failed
    · exact (Except.error.inj failed).symm

end ObjectCodecs

def FieldCodec.ServesAll (codec : FieldCodec) (job : Job) : Prop :=
  ∀ source ∈ job.sources, ∀ field ∈ source.schema.fields, codec.Serves field.type

namespace Plan.Planned

variable {plan : Plan} {declared : Source} {source : SourcePlan} {codec : FieldCodec}

theorem serves_of_feeds (planned : plan.Planned declared source) (serves : codec.ServesAll plan.job)
    {field : Field} {position : Nat} (feeds : Slot.Feeds source.schema field (.field position)) :
    codec.Serves field.type := by
  cases feeds with
  | field _ found _ typed =>
      rw [planned.sound.schema] at found
      exact typed ▸ serves declared planned.inJob _ (List.mem_of_getElem? found)

end Plan.Planned

namespace RecordCodec

variable {codec : FieldCodec} {plan : Plan} {declared : Source} {source : SourcePlan}

theorem skipFields_plain (buffer : Bytes) (offset : Nat) (fields : List Field) :
    Raises Error.Plain (skipFields codec buffer offset fields) := by
  induction fields generalizing offset with
  | nil => exact .ok _
  | cons field fields ih =>
      rw [skipFields]
      exact (FieldCodec.skip_plain _ _ _).bind fun _ _ => ih _

theorem decodeSlot_outward (serves : codec.ServesAll plan.job) (planned : plan.Planned declared source)
    {field : Field} {slot : Slot} (feeds : Slot.Feeds source.schema field slot) (record : Bytes)
    (offset : Nat) :
    Ensures (fun tuple => tuple.size = source.schema.size) (decodeSlot codec record offset field slot)
      (fun _ tuple => tuple.size = source.schema.size)
      (Error.Outward (codec.Unread record offset field.type)) := by
  intro tuple sized
  cases slot with
  | sourceId =>
      rw [decodeSlot]
      cases read : Varint.readSourceId record offset with
      | error cause =>
          rw [outcome_bind_of_error (outcome_ofExcept _ _)]
          exact .inl (Varint.readSourceId_plain _ _ _ read)
      | ok found => exact sized
  | field position =>
      have inside : position < tuple.size := by
        cases feeds with
        | field _ found => exact sized ▸ (List.getElem?_eq_some_iff.mp found).1
      rw [decodeSlot]
      cases read : codec.decode record offset field.type with
      | error cause =>
          rw [outcome_bind_of_error (outcome_ofExcept _ _)]
          exact FieldCodec.decode_outward (planned.serves_of_feeds serves feeds) _ _ _ read
      | ok found =>
          rw [outcome_bind_of_ok (outcome_ofExcept _ _)]
          dsimp only
          rw [outcome_bind_of_ok (outcome_get _), Tuple.set_eq_ok.mpr ⟨inside, rfl⟩]
          exact List.length_set.trans sized

def UnreadAmong (codec : FieldCodec) (record : Bytes) (offset : Nat) (fields : List Field)
    (slots : List Slot) (tuple : Tuple) (cause : Error) : Prop :=
  ∃ place field reached, fields[place]? = some field ∧
    (outcome (decodeSlots codec record offset (fields.take place) (slots.take place)) tuple).1 =
      .ok reached ∧
    codec.Unread record reached field.type cause

theorem decodeSlots_outward (serves : codec.ServesAll plan.job) (planned : plan.Planned declared source)
    {fields : List Field} {slots : List Slot}
    (feeds : List.Forall₂ (Slot.Feeds source.schema) fields slots) (record : Bytes) (offset : Nat)
    {tuple : Tuple} (sized : tuple.size = source.schema.size) :
    Raises (Error.Outward (UnreadAmong codec record offset fields slots tuple))
      (outcome (decodeSlots codec record offset fields slots) tuple).1 := by
  induction feeds generalizing offset tuple with
  | nil => exact .ok _
  | @cons field slot fields slots first _ ih =>
      rw [decodeSlots]
      have here := decodeSlot_outward serves planned first record offset tuple sized
      cases done : outcome (decodeSlot codec record offset field slot) tuple with
      | mk result next =>
          rw [done] at here
          cases result with
          | error cause =>
              rw [outcome_bind_of_error done]
              exact .error (here.imp fun unread => ⟨0, field, offset, rfl, rfl, unread⟩)
          | ok size =>
              rw [outcome_bind_of_ok done]
              refine (ih (offset + size) here).imp fun cause outward => outward.imp ?_
              rintro ⟨place, later, reached, found, passed, unread⟩
              refine ⟨place + 1, later, reached, found, ?_, unread⟩
              rw [List.take_succ_cons, List.take_succ_cons, decodeSlots, outcome_bind_of_ok done]
              exact passed

variable {records : RecordCodec}

theorem sourceOf_plain (sound : records.plan.Sound) (record : Bytes) :
    Raises Error.Plain (records.sourceOf record) := by
  rw [sourceOf]
  split
  · split
    · exact .ok _
    · rename_i none
      obtain ⟨declared, member⟩ := List.exists_mem_of_ne_nil _ sound.declared.nonempty
      obtain ⟨source, planned⟩ := sound.exists_planned member
      rw [List.head?_eq_none_iff] at none
      exact absurd planned.inPlan (by simp [none])
  · refine (skipFields_plain _ _ _).bind fun _ _ => (Varint.readSourceId_plain _ _).bind fun read _ => ?_
    obtain ⟨id, _⟩ := read
    dsimp only
    split
    · exact .ok _
    · exact .error rfl

/-- Reading a record comes to a field whose codec fails on the bytes there. -/
def Unread (records : RecordCodec) (record : Bytes) (cause : Error) : Prop :=
  ∃ source, records.sourceOf record = .ok source ∧
    UnreadAmong records.fields record 0 (records.plan.recordFields source) source.slots
      (Tuple.blank source.schema) cause

theorem readInto_outward (sound : records.plan.Sound) (serves : records.fields.ServesAll records.plan.job)
    (record : Bytes) (used : Tuple) :
    Raises (Error.Outward (records.Unread record)) (outcome (records.readInto record) used).1 := by
  cases found : records.sourceOf record with
  | error cause =>
      rw [readInto, found, outcome_bind_of_error (outcome_ofExcept _ _)]
      exact .error (.inl (sourceOf_plain sound _ _ found))
  | ok source =>
      obtain ⟨declared, planned⟩ := sourceOf_planned sound found
      have blank : (Tuple.blank source.schema).size = source.schema.size := List.length_replicate
      have slots := decodeSlots_outward serves planned planned.feeds record 0 blank
      rw [outcome_readInto planned found]
      cases done : outcome (decodeSlots records.fields record 0 (records.plan.recordFields source)
          source.slots) (Tuple.blank source.schema) with
      | mk result filled =>
          rw [done] at slots
          cases result with
          | error cause =>
              rw [outcome_bind_of_error done]
              exact .error ((slots cause rfl).imp fun among => ⟨source, found, among⟩)
          | ok stop =>
              rw [outcome_bind_of_ok done]
              split
              · exact .error (.inl rfl)
              · exact .ok _

theorem decode_outward (sound : records.plan.Sound) (serves : records.fields.ServesAll records.plan.job)
    (record : Bytes) : Raises (Error.Outward (records.Unread record)) (records.decode record) := by
  refine (sourceOf_plain sound record).outward.bind fun source _ => ?_
  exact (readInto_outward sound serves record (Tuple.blank source.schema)).map

end RecordCodec

namespace SortKey

variable {codec : FieldCodec}

structure Ready (codec : FieldCodec) (key : SortKey) : Prop where
  usable : key.comparator.isSome = true ∨ key.type.isOrderable = true
  serves : codec.Serves key.type

theorem compareValues_plain {key : SortKey}
    (usable : key.comparator.isSome = true ∨ key.type.isOrderable = true) (left right : Value) :
    Raises Error.Plain (key.compareValues left right) := by
  rw [compareValues]
  refine (Value.check_plain _ _ _).bind fun _ leftChecked => ?_
  refine (Value.check_plain _ _ _).bind fun _ rightChecked => ?_
  split
  · exact .ok _
  · rename_i plain
    have orderable : key.type.isOrderable = true := by
      rcases usable with some | orderable
      · simp [plain] at some
      · exact orderable
    rw [Value.naturalOrder?_eq orderable (Value.check_eq_ok.mp leftChecked)
      (Value.check_eq_ok.mp rightChecked)]
    exact .ok _

end SortKey

namespace RecordOrder

variable {order : RecordOrder}

theorem exists_planned_of_secondary {plan : Plan} (sound : plan.Sound) {codec : FieldCodec}
    {comparators : Comparators} (made : ofPlan plan codec comparators = .ok order) {id : SourceId}
    {key : SortKey} (member : key ∈ order.secondaryOf id) :
    ∃ declared source, plan.Planned declared source ∧ source.id = id := by
  obtain ⟨common, _, made⟩ := bind_eq_ok.mp made
  obtain ⟨secondary, listed, made⟩ := bind_eq_ok.mp made
  cases made
  have ids : List.Forall₂ (fun (source : SourcePlan) (keys : SourceId × List SortKey) =>
      source.id = keys.1) plan.sources.values secondary := by
    refine (mapM_eq_ok.mp listed).imp fun source keys done => ?_
    obtain ⟨found, _, done⟩ := bind_eq_ok.mp done
    cases done
    rfl
  have same : plan.sources.values.map SourcePlan.id = secondary.map Prod.fst := by
    rw [← List.forall₂_eq_eq_eq, List.forall₂_map_left_iff, List.forall₂_map_right_iff]
    exact ids
  rw [secondaryOf] at member
  cases found : (Dictionary.ofList secondary).find? id with
  | none => simp [found] at member
  | some keys =>
      rw [Dictionary.find?_ofList (same ▸ sound.distinct_ids)] at found
      obtain ⟨source, inside, sameId⟩ := ids.exists_left found
      obtain ⟨declared, planned⟩ := sound.exists_declared inside
      exact ⟨declared, source, planned, sameId⟩

theorem ready_of_sorts {plan : Plan} {declared : Source} {source : SourcePlan} {codec : FieldCodec}
    (planned : plan.Planned declared source) (serves : codec.ServesAll plan.job) {field : Field} {slot : Slot}
    {key : SortKey} (sorts : key.SortsBy field) (feeds : Slot.Feeds source.schema field slot)
    (marked : field.isSourceId = true → field.type.isOrderable = true) : key.Ready codec := by
  constructor
  · rw [sorts.type]
    exact sorts.usable
  · rw [sorts.type]
    cases slot with
    | field position => exact planned.serves_of_feeds serves feeds
    | sourceId =>
        cases feeds with
        | sourceId held =>
            intro name typed
            have orderable := marked held
            simp [typed, DataType.isOrderable] at orderable

variable {comparators : Comparators} {codec : FieldCodec}

theorem ready_common (sound : order.Sound comparators) (serves : codec.ServesAll order.plan.job) :
    ∀ key ∈ order.common, key.Ready codec := by
  intro key member
  obtain ⟨declared, inside⟩ := List.exists_mem_of_ne_nil _ sound.plan.declared.nonempty
  obtain ⟨source, planned⟩ := sound.plan.exists_planned inside
  obtain ⟨field, common, sorts⟩ := sound.common.exists_right member
  obtain ⟨slot, _, feeds⟩ := planned.sound.feedsCommon.exists_right common
  refine ready_of_sorts planned serves sorts feeds fun marked => ?_
  obtain ⟨entry, _, stands⟩ := sound.plan.common.stand.exists_left common
  cases stands with
  | sourceId => rfl
  | field _ found =>
      have unmarked := SortEntry.unmarked_of_fieldIn? (sound.plan.declared.valid declared inside)
        (found declared inside)
      simp [marked] at unmarked

theorem ready_secondary {plan : Plan} (sound : plan.Sound) (made : ofPlan plan codec comparators = .ok order)
    (serves : codec.ServesAll plan.job) : ∀ id, ∀ key ∈ order.secondaryOf id, key.Ready codec := by
  intro id key member
  obtain ⟨declared, source, planned, rfl⟩ := exists_planned_of_secondary sound made member
  obtain ⟨orderSound, rfl, rfl⟩ := ofPlan_sound sound made
  obtain ⟨⟨leading, rest, split, sorted⟩, _⟩ := orderSound.secondary declared source planned
  obtain ⟨field, inside, sorts⟩ := sorted.exists_right member
  have specific : field ∈ source.specific.fields := split ▸ List.mem_append_left _ inside
  obtain ⟨slot, placed, feeds⟩ := planned.sound.feedsSpecific.exists_right specific
  refine ready_of_sorts planned serves sorts feeds fun marked => ?_
  obtain ⟨position, _, rfl⟩ := List.mem_map.mp placed
  cases feeds with
  | field unmarked => simp [marked] at unmarked

end RecordOrder

end Cogrouping
