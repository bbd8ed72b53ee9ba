import Cogrouping.Proofs.Wire.Parses

/-!
Where the fields of a record begin. Whoever passes over a value, looks at its text or reads it comes to the
same length, which depends on the bytes of the value alone; so the walks over a record that is accepted
find each of its fields at one offset.
-/

namespace Cogrouping

open Bytes (At)
open Varint (SpellsSize)

namespace FieldCodec

variable {codec : FieldCodec} {buffer bytes : Bytes} {offset size : Nat} {type : DataType} {value : Value}

/-- A value takes up so many bytes of a buffer, which nothing in front of them or behind them changes. -/
structure Measures (codec : FieldCodec) (buffer : Bytes) (offset : Nat) (type : DataType) (value : Value)
    (size : Nat) : Prop where
  positive : 0 < size
  inside : offset + size ≤ buffer.length
  skipped : codec.skip buffer offset type = .ok size
  text : type = .text → ∃ payload, codec.textBytes buffer offset = .ok (payload, size)
  moved : ∀ other place, (other.drop place).take size = (buffer.drop offset).take size →
    codec.decode other place type = .ok (value, size) ∧ codec.skip other place type = .ok size

theorem Spelled.length_pos (spelled : codec.Spelled type value bytes) : 0 < bytes.length := by
  have header {value : Int64} {bytes : Bytes} (spells : Varint.Spells value bytes) : 0 < bytes.length := by
    have sized := (Varint.headerSize_eq_ok.mp spells.sized).2
    omega
  cases spelled with
  | int32 spells => exact header spells
  | int64 spells => exact header spells
  | float32 number =>
      rw [OrderedFloat.length_encode32]
      decide
  | float64 number =>
      rw [OrderedFloat.length_encode64]
      decide
  | boolean truth => exact Nat.one_pos
  | text spells short =>
      have sized := header spells.spells
      rw [List.length_append]
      omega
  | constant spells within resolved => exact header spells.spells
  | absent spells => exact header spells
  | object spells short known read =>
      have sized := header spells.spells
      rw [List.length_append]
      omega

theorem decode_measures (read : codec.decode buffer offset type = .ok (value, size)) :
    codec.Measures buffer offset type value size := by
  obtain ⟨bytes, stands, rfl, spelled⟩ := decode_eq_ok.mp read
  have reads {other : Bytes} {place : Nat} (stands : At other place bytes) :
      codec.decode other place type = .ok (value, bytes.length) :=
    decode_eq_ok.mpr ⟨bytes, stands, rfl, spelled⟩
  constructor
  · exact spelled.length_pos
  · exact stands.reaches
  · exact spelled.skip stands
  · rintro rfl
    cases spelled with
    | text spells short => exact ⟨_, textBytes_eq_ok.mpr ⟨_, stands, rfl, spells, short⟩⟩
  · intro other place same
    rw [stands.take_drop] at same
    have positive := spelled.length_pos
    have sized := congrArg List.length same
    rw [List.length_take, List.length_drop] at sized
    have reaches : place + bytes.length ≤ other.length := by omega
    have moved := Bytes.at_take_drop reaches
    rw [same] at moved
    exact ⟨reads moved, spelled.skip moved⟩

end FieldCodec

inductive Fills (codec : FieldCodec) (field : Field) : Slot → Cell → Bytes → Prop
  | sourceId {id : SourceId} {bytes : Bytes} : SpellsSize id.number.toNat bytes →
      Fills codec field .sourceId (.sourceId id) bytes
  | value {position : Nat} {value : Value} {bytes : Bytes} : codec.Spelled field.type value bytes →
      Fills codec field (.field position) (.value value) bytes

theorem Reads.exists_parts {codec : FieldCodec} {filled last : Tuple} {fields : List Field}
    {slots : List Slot} {cells : List Cell} {bytes : Bytes}
    (reads : Reads codec filled fields slots cells bytes last) :
    ∃ parts : List Bytes, parts.flatten = bytes ∧ parts.length = fields.length ∧
      (∀ place, ∃ between, Reads codec filled (fields.take place) (slots.take place) (cells.take place)
        (parts.take place).flatten between) ∧
      ∀ (place : Nat) (field : Field), fields[place]? = some field → ∃ slot cell part,
        slots[place]? = some slot ∧ cells[place]? = some cell ∧ parts[place]? = some part ∧
        Fills codec field slot cell part := by
  induction reads with
  | nil filled =>
      refine ⟨[], rfl, rfl, fun place => ⟨filled, ?_⟩, fun place field found => ?_⟩
      · simp only [List.take_nil, List.flatten_nil]
        exact .nil filled
      · cases found
  | @sourceId filled last field fields slots cells id bytes rest spells _ ih =>
      obtain ⟨parts, rfl, sized, leading, each⟩ := ih
      refine ⟨bytes :: parts, rfl, congrArg (· + 1) sized, fun place => ?_, fun place other found => ?_⟩
      · cases place with
        | zero => exact ⟨filled, .nil filled⟩
        | succ place =>
            obtain ⟨between, begins⟩ := leading place
            exact ⟨between, .sourceId spells begins⟩
      · cases place with
        | zero =>
            cases found
            exact ⟨_, _, _, rfl, rfl, rfl, .sourceId spells⟩
        | succ place => exact each place other found
  | @value filled next last field fields position slots value cells bytes rest spelled stored _ ih =>
      obtain ⟨parts, rfl, sized, leading, each⟩ := ih
      refine ⟨bytes :: parts, rfl, congrArg (· + 1) sized, fun place => ?_, fun place other found => ?_⟩
      · cases place with
        | zero => exact ⟨filled, .nil filled⟩
        | succ place =>
            obtain ⟨between, begins⟩ := leading place
            exact ⟨between, .value spelled stored begins⟩
      · cases place with
        | zero =>
            cases found
            exact ⟨_, _, _, rfl, rfl, rfl, .value spelled⟩
        | succ place => exact each place other found

theorem Plan.Sound.recordFields_take {plan : Plan} (sound : plan.Sound) {position place : Nat}
    (marks : plan.sourceIdPosition? = some position) (early : place ≤ position) (source : SourcePlan) :
    (plan.recordFields source).take place = plan.common.fields.take place := by
  have inside := sound.sourceIdPosition?_lt marks
  rw [recordFields, List.take_append_of_le_length (by omega)]

namespace RecordCodec

variable {records : RecordCodec} {declared : Source} {source : SourcePlan} {record : Bytes}

/-- The fields of a record of a source begin at the given offsets, one behind the other. -/
structure Begins (records : RecordCodec) (source : SourcePlan) (record : Bytes) (start : Nat → Nat) :
    Prop where
  first : start 0 = 0
  last : start (records.plan.recordFields source).length = record.length
  sourceId : ∀ place field, (records.plan.recordFields source)[place]? = some field →
    field.isSourceId = true → ∃ size, start (place + 1) = start place + size ∧
      Varint.readSourceId record (start place) = .ok (source.id, size)
  value : ∀ place field, (records.plan.recordFields source)[place]? = some field →
    field.isSourceId = false → ∃ value size, start (place + 1) = start place + size ∧
      records.fields.decode record (start place) field.type = .ok (value, size)

/-- Finding the source of a record and reading the record come to each field where it begins. -/
structure Walks (records : RecordCodec) (source : SourcePlan) (record : Bytes) (start : Nat → Nat) :
    Prop where
  skipped : ∀ position, records.plan.sourceIdPosition? = some position → ∀ place ≤ position,
    skipFields records.fields record 0 (records.plan.common.fields.take place) = .ok (start place)
  read : ∀ place ≤ (records.plan.recordFields source).length,
    (outcome (decodeSlots records.fields record 0 ((records.plan.recordFields source).take place)
      (source.slots.take place)) (Tuple.blank source.schema)).1 = .ok (start place)

theorem exists_begins (sound : records.plan.Sound) (planned : records.plan.Planned declared source)
    (found : records.sourceOf record = .ok source) {tuple : Tuple}
    (parses : records.Parses source record tuple) :
    ∃ start, records.Begins source record start ∧ records.Walks source record start := by
  obtain ⟨cells, reads⟩ := parses
  obtain ⟨parts, whole, sized, leading, each⟩ := reads.exists_parts
  have named : records.sourceIn cells = .ok source :=
    (sourceOf_eq_sourceIn sound planned reads (Bytes.at_self record)).symm.trans found
  have stands {place : Nat} {part : Bytes} (here : parts[place]? = some part) :
      At record (parts.take place).flatten.length part := by
    obtain ⟨inside, rfl⟩ := List.getElem?_eq_some_iff.mp here
    refine ⟨(parts.take place).flatten, (parts.drop (place + 1)).flatten, ?_, rfl⟩
    rw [← whole, List.append_assoc, ← List.flatten_cons, ← List.drop_eq_getElem_cons inside,
      ← List.flatten_append, List.take_append_drop]
  have next {place : Nat} {part : Bytes} (here : parts[place]? = some part) :
      (parts.take (place + 1)).flatten.length = (parts.take place).flatten.length + part.length := by
    rw [List.take_add_one, here, Option.toList_some, List.flatten_append, List.flatten_singleton,
      List.length_append]
  have front (place : Nat) : At record 0 (parts.take place).flatten := by
    refine ⟨[], (parts.drop place).flatten, ?_, rfl⟩
    rw [← whole, List.nil_append, ← List.flatten_append, List.take_append_drop]
  have feeds := planned.feeds
  refine ⟨fun place => (parts.take place).flatten.length, ⟨rfl, ?_, ?_, ?_⟩, ⟨?_, ?_⟩⟩
  · rw [← sized, List.take_length, whole]
  · intro place field atPlace marked
    obtain ⟨slot, cell, part, atSlot, atCell, here, fills⟩ := each place field atPlace
    cases fills with
    | @sourceId id _ spells =>
        obtain rfl := id_of_sourceIn sound planned reads named (List.mem_of_getElem? atCell)
        exact ⟨_, next here, Varint.readSourceId_eq_ok.mpr ⟨_, stands here, rfl, spells⟩⟩
    | value spelled =>
        obtain ⟨other, sameSlot, fed⟩ := feeds.getElem?_left atPlace
        obtain rfl := Option.some.inj (atSlot.symm.trans sameSlot)
        cases fed with
        | field unmarked => simp [marked] at unmarked
  · intro place field atPlace unmarked
    obtain ⟨slot, cell, part, atSlot, atCell, here, fills⟩ := each place field atPlace
    cases fills with
    | sourceId spells =>
        obtain ⟨other, sameSlot, fed⟩ := feeds.getElem?_left atPlace
        obtain rfl := Option.some.inj (atSlot.symm.trans sameSlot)
        cases fed with
        | sourceId marked => simp [unmarked] at marked
    | value spelled =>
        exact ⟨_, _, next here, FieldCodec.decode_eq_ok.mpr ⟨_, stands here, rfl, spelled⟩⟩
  · intro position marks place early
    obtain ⟨between, begins⟩ := leading place
    rw [sound.recordFields_take marks early] at begins
    have skipped := begins.skipFields (planned.unmarked_take sound marks early) (front place)
    rwa [Nat.zero_add] at skipped
  · intro place within
    obtain ⟨between, begins⟩ := leading place
    have sameLength : ((records.plan.recordFields source).take place).length =
        (source.slots.take place).length := by
      rw [List.length_take, List.length_take, feeds.length_eq]
    rw [(decodeSlots_eq_ok sameLength (Nat.zero_le _)).mpr
      ⟨_, _, front place, (Nat.zero_add _).symm, begins⟩]

end RecordCodec

end Cogrouping
