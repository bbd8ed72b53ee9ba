import Cogrouping.Order.Record
import Cogrouping.Proofs.Wire.Accepted

/-!
The record that a tuple is written as, among all the records it is read from. Whatever is read without an
object can be written again, in no more bytes, and what is written is read as the same tuple. A record
that took more bytes has an integer with leading zeros or the ordinal of a repeated symbol.
-/

namespace Cogrouping

open Bytes (At)
open Varint (Spells SpellsSize)

def DataType.Distinct : DataType → Prop
  | .enumeration type => type.symbols.Nodup
  | _ => True

/-- What is written for bytes that were read takes no more of them, and under a condition it is the same
unless it takes fewer. -/
structure Shortens (condition : Prop) (written bytes : Bytes) : Prop where
  length_le : written.length ≤ bytes.length
  eq_of_length : condition → written.length = bytes.length → written = bytes

namespace Shortens

variable {condition other : Prop} {written bytes moreWritten more : Bytes}

theorem refl (bytes : Bytes) : Shortens condition bytes bytes := ⟨Nat.le_refl _, fun _ _ => rfl⟩

theorem imp (shortens : Shortens condition written bytes) (implies : other → condition) :
    Shortens other written bytes :=
  ⟨shortens.length_le, fun holds => shortens.eq_of_length (implies holds)⟩

theorem append (first : Shortens condition written bytes)
    (second : Shortens condition moreWritten more) :
    Shortens condition (written ++ moreWritten) (bytes ++ more) := by
  have firstLess := first.length_le
  have secondLess := second.length_le
  constructor
  · rw [List.length_append, List.length_append]
    omega
  · intro holds same
    rw [List.length_append, List.length_append] at same
    rw [first.eq_of_length holds (by omega), second.eq_of_length holds (by omega)]

end Shortens

namespace Varint

theorem magnitude_ofNat {number : Nat} (fits : number < 0x8000000000000000) :
    magnitude (Int64.ofNat number) = number := by
  rw [magnitude, toInt_ofNat fits, if_pos (by omega), Int.toNat_natCast]

theorem Spells.shortens {value : Int64} {bytes : Bytes} (spells : Spells value bytes) :
    Shortens True (encode value) bytes :=
  ⟨spells.length_encode_le, fun _ same => (spells.eq_encode same.symm).symm⟩

theorem SpellsSize.shortens {number : Nat} {bytes : Bytes} (spells : SpellsSize number bytes) :
    Shortens True (encode (Int64.ofNat number)) bytes :=
  spells.spells.shortens

theorem SpellsSize.length_encode_le {number smaller : Nat} {bytes : Bytes}
    (spells : SpellsSize number bytes) (below : smaller ≤ number) :
    (encode (Int64.ofNat smaller)).length ≤ bytes.length := by
  have fits := spells.fits
  refine Nat.le_trans ?_ spells.spells.length_encode_le
  rw [length_encode, length_encode, magnitude_ofNat fits, magnitude_ofNat (by omega)]
  exact Nat.add_le_add_left (Bytes.length_ofNat_mono below) 1

end Varint

namespace FieldCodec

variable {codec : FieldCodec}

theorem resolved_constant {type : EnumType} {ordinal : Nat} {constant : EnumConstant}
    (known : codec.Knows (.enumeration type)) (within : ordinal ≤ 0xFFFFFFFF)
    (resolved : codec.constants.resolve type.name ordinal = .ok constant) :
    constant.typeName = type.name ∧ codec.Keeps (.enumeration type) (.constant constant) ∧
      type.symbols[ordinal]? = some constant.symbol ∧ constant.ordinal.toNat ≤ ordinal := by
  obtain ⟨symbol, placed, rfl⟩ := (EnumConstants.resolve_eq_ok known.held).mp resolved
  have below := EnumType.idxOf_le placed
  have small : (type.constant symbol).ordinal.toNat = type.symbols.idxOf symbol := by
    rw [EnumType.constant, UInt32.toNat_ofNat']
    omega
  refine ⟨rfl, ?_, placed, Nat.le_trans (Nat.le_of_eq small) below⟩
  exact EnumType.ordinalOf?_eq_some.mpr ⟨List.mem_of_getElem? placed, small.symm⟩

theorem Spelled.exists_written {type : DataType} {value : Value} {bytes : Bytes}
    (spelled : codec.Spelled type value bytes) (plain : ∀ name, type ≠ .object name)
    (known : codec.Knows type) : ∃ written, codec.Written type value written ∧
      codec.Spelled type value written ∧ Shortens type.Distinct written bytes := by
  cases spelled with
  | int32 spells =>
      exact ⟨_, .int32 _, .int32 (Varint.encode_spells _), spells.shortens.imp fun _ => trivial⟩
  | int64 spells =>
      exact ⟨_, .int64 _, .int64 (Varint.encode_spells _), spells.shortens.imp fun _ => trivial⟩
  | float32 number => exact ⟨_, .float32 number, .float32 number, .refl _⟩
  | float64 number => exact ⟨_, .float64 number, .float64 number, .refl _⟩
  | boolean truth => exact ⟨_, .boolean truth, .boolean truth, .refl _⟩
  | text spells short =>
      refine ⟨_, .text _ short, .text (Varint.encode_spellsSize spells.fits) short, ?_⟩
      exact (spells.shortens.imp fun _ => trivial).append (.refl _)
  | @constant type ordinal constant bytes spells within resolved =>
      obtain ⟨named, kept, symbol, below⟩ := resolved_constant known within resolved
      have place := kept.place
      have inside := (List.getElem?_eq_some_iff.mp place).1
      have fits := spells.fits
      refine ⟨_, .constant named inside, .constant (Varint.encode_spellsSize (by omega)) (by omega)
        (resolve_constant known named kept), spells.length_encode_le below, ?_⟩
      intro distinct same
      have first : constant.ordinal.toNat = ordinal :=
        (List.getElem?_inj inside distinct).mp (place.trans symbol.symm)
      rw [first] at same ⊢
      exact spells.shortens.eq_of_length trivial same
  | absent spells => exact absurd rfl (plain _)
  | object => exact absurd rfl (plain _)

end FieldCodec

theorem Slot.positions_cons (position : Nat) (slots : List Slot) :
    (Slot.field position :: slots).filterMap position? = position :: slots.filterMap position? := rfl

namespace Reads

variable {codec : FieldCodec} {filled last : Tuple} {fields : List Field} {slots : List Slot}
variable {cells : List Cell} {bytes : Bytes}

theorem schema (reads : Reads codec filled fields slots cells bytes last) :
    last.schema = filled.schema := by
  induction reads with
  | nil => rfl
  | sourceId _ _ ih => exact ih
  | value _ stored _ ih =>
      obtain ⟨_, rfl⟩ := Tuple.set_eq_ok.mp stored
      exact ih

theorem get?_of_not_mem (reads : Reads codec filled fields slots cells bytes last) {position : Nat}
    (apart : position ∉ slots.filterMap Slot.position?) :
    last.get? position = filled.get? position := by
  induction reads with
  | nil => rfl
  | sourceId _ _ ih => exact ih apart
  | @value filled _ _ _ _ place _ value _ _ _ _ stored _ ih =>
      obtain ⟨_, rfl⟩ := Tuple.set_eq_ok.mp stored
      rw [Slot.positions_cons, List.mem_cons, not_or] at apart
      rw [ih apart.2]
      exact List.getElem?_set_ne (Ne.symm apart.1)

variable {schema : Schema} {own : SourceId}

theorem exists_items (reads : Reads codec filled fields slots cells bytes last)
    (feeds : List.Forall₂ (Slot.Feeds schema) fields slots)
    (apart : (slots.filterMap Slot.position?).Nodup) (owned : ∀ id, .sourceId id ∈ cells → id = own)
    (plain : ∀ field ∈ schema.fields, ∀ name, field.type ≠ .object name)
    (known : ∀ field ∈ schema.fields, codec.Knows field.type) :
    ∃ items : List (Item codec),
      RecordCodec.Holds items fields (slots.map (Slot.cell last own)) ∧
      Reads codec filled fields slots cells (Item.join items) last ∧
      Shortens (∀ field ∈ schema.fields, field.type.Distinct) (Item.join items) bytes := by
  induction reads with
  | nil filled => exact ⟨[], ⟨rfl, rfl⟩, .nil filled, .refl _⟩
  | @sourceId filled last field fields slots cells id bytes rest spells reads ih =>
      obtain ⟨fed, feeds⟩ := List.forall₂_cons.mp feeds
      obtain ⟨items, ⟨sameFields, sameCells⟩, again, shortens⟩ :=
        ih feeds apart fun other held => owned other (List.mem_cons_of_mem _ held)
      obtain rfl := owned id List.mem_cons_self
      cases fed with
      | sourceId marked =>
          refine ⟨⟨field, _, _, .sourceId id marked⟩ :: items, ⟨?_, ?_⟩, ?_, ?_⟩
          · rw [List.map_cons, sameFields]
          · rw [List.map_cons, sameCells, List.map_cons, Slot.cell]
          · exact .sourceId (Varint.sourceId_spellsSize id) again
          · exact (spells.shortens.imp fun _ => trivial).append shortens
  | @value filled next last field fields position slots value cells bytes rest spelled stored reads ih =>
      obtain ⟨fed, feeds⟩ := List.forall₂_cons.mp feeds
      rw [Slot.positions_cons, List.nodup_cons] at apart
      obtain ⟨items, ⟨sameFields, sameCells⟩, again, shortens⟩ :=
        ih feeds apart.2 fun other held => owned other (List.mem_cons_of_mem _ held)
      obtain ⟨inside, rfl⟩ := Tuple.set_eq_ok.mp stored
      -- No later slot stores at this position, so the tuple still holds the value in the end.
      have held : last.get? position = some value := by
        rw [reads.get?_of_not_mem apart.1]
        exact List.getElem?_set_self inside
      cases fed with
      | @field _ declared unmarked found _ typed =>
          have member := List.mem_of_getElem? found
          obtain ⟨written, writes, spelledAgain, shorter⟩ := spelled.exists_written
            (typed ▸ plain declared member) (typed ▸ known declared member)
          refine ⟨⟨field, .value value, written, .value unmarked writes⟩ :: items, ⟨?_, ?_⟩, ?_, ?_⟩
          · rw [List.map_cons, sameFields]
          · rw [List.map_cons, sameCells, List.map_cons, Slot.cell, held, Option.getD_some]
          · exact .value spelledAgain stored again
          · exact (shorter.imp fun distinct => typed ▸ distinct declared member).append shortens

end Reads

namespace RecordCodec

theorem Holds.exists_append {codec : FieldCodec} {items : List (Item codec)} {fields others : List Field}
    {cells more : List Cell} (holds : Holds items (fields ++ others) (cells ++ more))
    (same : fields.length = cells.length) :
    ∃ first rest, items = first ++ rest ∧ Holds first fields cells ∧ Holds rest others more := by
  obtain ⟨sameFields, sameCells⟩ := holds
  obtain ⟨first, rest, rfl, rfl, rfl⟩ := List.map_eq_append_iff.mp sameFields
  rw [List.map_append] at sameCells
  rw [List.length_map] at same
  obtain ⟨firstCells, restCells⟩ := List.append_inj sameCells (by rw [List.length_map, same])
  exact ⟨first, rest, rfl, ⟨rfl, firstCells⟩, ⟨rfl, restCells⟩⟩

variable {records : RecordCodec} {record : Bytes} {tuple : Tuple}

theorem plain_of_objectless {plan : Plan} {declared : Source} {source : SourcePlan}
    (planned : plan.Planned declared source) (objectless : FieldCodec.objectCodecNames plan = []) :
    ∀ field ∈ source.schema.fields, ∀ name, field.type ≠ .object name := by
  intro field member name typed
  have named : name ∈ FieldCodec.objectCodecNames plan := by
    refine List.mem_flatMap.mpr ⟨source, planned.inPlan, List.mem_filterMap.mpr ⟨field, member, ?_⟩⟩
    rw [FieldCodec.objectCodecName?, typed]
  rw [objectless] at named
  cases named

theorem distinct_of_enumTypes {plan : Plan} {declared : Source} {source : SourcePlan}
    (sound : plan.Sound) (planned : plan.Planned declared source)
    (distinct : ∀ type ∈ plan.enumTypes.values, type.symbols.Nodup) :
    ∀ field ∈ source.schema.fields, field.type.Distinct := by
  intro field member
  cases typed : field.type with
  | enumeration type =>
      rw [planned.sound.schema] at member
      have found := sound.enums declared planned.inJob field member type typed
      exact distinct type (List.mem_map_of_mem (Dictionary.find?_eq_some.mp found))
  | _ => trivial

theorem exists_encoding (sound : records.plan.Sound) (knows : records.Knows)
    (objectless : FieldCodec.objectCodecNames records.plan = [])
    (read : records.decode record = .ok tuple) :
    ∃ written, records.encode tuple = .ok written ∧ records.decode written = .ok tuple ∧
      Shortens (∀ type ∈ records.plan.enumTypes.values, type.symbols.Nodup) written record := by
  obtain ⟨declared, source, planned, found, cells, reads⟩ := parses_of_decode sound read
  rw [sourceOf_eq_sourceIn sound planned reads (Bytes.at_self record)] at found
  have known : ∀ field ∈ source.schema.fields, records.fields.Knows field.type := by
    rw [planned.sound.schema]
    exact knows declared planned.inJob
  obtain ⟨items, holds, again, shortens⟩ := reads.exists_items planned.feeds
    (planned.distinct_positions sound) (fun id held => id_of_sourceIn sound planned reads found held)
    (plain_of_objectless planned objectless) known
  have schema : tuple.schema = source.schema := reads.schema
  have conforms : List.Forall₂ (fun field value => value.conformsTo field.type = true)
      source.schema.fields tuple.values := by
    have sized : source.schema.fields.length = tuple.values.length := by
      rw [tuple.complete, schema, Schema.size]
    refine List.forall₂_of_length_eq_of_get sized fun position insideFields insideValues => ?_
    exact conforms_of_holds planned.feeds holds (planned.sound.covers position insideFields)
      (List.getElem?_eq_getElem insideFields) (List.getElem?_eq_getElem insideValues)
  let row : Row records.plan := {
    tuple, declared, source, planned, conforms
    named := by rw [schema, planned.sound.schema] }
  rw [Plan.recordFields, SourcePlan.slots, List.map_append] at holds
  obtain ⟨common, specific, rfl, holdsCommon, holdsSpecific⟩ :=
    holds.exists_append (by rw [List.length_map, planned.sound.feedsCommon.length_eq])
  rw [Item.join_append] at again shortens
  have encoded := (encode_eq_ok sound).mpr
    ⟨row, rfl, ⟨⟨common, specific, holdsCommon, holdsSpecific, rfl⟩⟩⟩
  have stands := Bytes.at_self (Item.join common ++ Item.join specific)
  have foundAgain := (sourceOf_eq_sourceIn sound planned again stands).trans found
  refine ⟨_, encoded, ?_, shortens.imp (distinct_of_enumTypes sound planned)⟩
  rw [decode_parses planned foundAgain stands ⟨cells, again⟩, if_pos rfl]

/-- Whatever is read is written again, in a shortest record that is read as the same tuple. -/
theorem exists_shortest_encoding {job : Job} {plan : Plan} {objects : ObjectCodecs} {limit : Nat}
    {fields : FieldCodec} (built : Plan.build job = .ok plan)
    (made : FieldCodec.ofPlan plan objects limit = .ok fields)
    (objectless : FieldCodec.objectCodecNames plan = []) {record : Bytes} {tuple : Tuple}
    (read : (RecordCodec.mk plan fields).decode record = .ok tuple) :
    ∃ written, (RecordCodec.mk plan fields).encode tuple = .ok written ∧
      (RecordCodec.mk plan fields).decode written = .ok tuple ∧ written.length ≤ record.length ∧
      ((∀ type ∈ plan.enumTypes.values, type.symbols.Nodup) →
        (written = record ↔ written.length = record.length)) := by
  obtain ⟨sound, rfl⟩ := Plan.build_sound built
  let records : RecordCodec := ⟨plan, fields⟩
  have recordsSound : records.plan.Sound := sound
  obtain ⟨written, encoded, again, shortens⟩ := exists_encoding recordsSound
    (FieldCodec.ofPlan_knows sound made) objectless read
  refine ⟨written, encoded, again, shortens.length_le, fun distinct => ⟨?_, ?_⟩⟩
  · rintro rfl
    rfl
  · exact shortens.eq_of_length distinct

end RecordCodec

/-! A job that groups numbers. -/

namespace Counts

def counts : Schema := ⟨"counts", [⟨"n", .int64, none⟩]⟩

def job : Job := { sources := [⟨⟨1⟩, counts⟩], groupBy := ["n"] }

def plan : Plan := valueOf (Plan.build job) (by decide)

theorem built : Plan.build job = .ok plan := eq_valueOf _

def fields : FieldCodec := valueOf (FieldCodec.ofPlan plan .standard 100) (by decide)

theorem made : FieldCodec.ofPlan plan .standard 100 = .ok fields := eq_valueOf _

def records : RecordCodec := ⟨plan, fields⟩

def order : RecordOrder := valueOf (RecordOrder.ofPlan plan fields .empty) (by decide)

def count (number : Int64) : Tuple := ⟨counts, [.int64 number], rfl⟩

theorem decode_padded : records.decode [0x82, 0, 1] = .ok (count 1) := by decide +kernel

end Counts

namespace RecordCodec

theorem exists_shortest_encoding_padded :
    ∃ written, Counts.records.encode (Counts.count 1) = .ok written ∧
      Counts.records.decode written = .ok (Counts.count 1) ∧
      written.length ≤ ([0x82, 0, 1] : Bytes).length ∧
      ((∀ type ∈ Counts.plan.enumTypes.values, type.symbols.Nodup) →
        (written = [0x82, 0, 1] ↔ written.length = ([0x82, 0, 1] : Bytes).length)) :=
  exists_shortest_encoding Counts.built Counts.made (by decide) Counts.decode_padded

/-- A number is also read from a payload with a leading zero, which is not what it is written as and has
another place among the bytes of other numbers. -/
theorem encode_decode_padded :
    Plan.build Counts.job = .ok Counts.plan ∧
      FieldCodec.ofPlan Counts.plan .standard 100 = .ok Counts.fields ∧
      FieldCodec.objectCodecNames Counts.plan = [] ∧
      Counts.records.decode [0x82, 0, 1] = .ok (Counts.count 1) ∧
      Counts.records.encode (Counts.count 1) = .ok [0x81, 1] ∧
      Counts.records.encode (Counts.count 1) ≠ .ok [0x82, 0, 1] ∧
      Counts.order.compare (Counts.count 1) (Counts.count 2) = .ok .lt ∧
      Counts.records.encode (Counts.count 2) = .ok [0x81, 2] ∧
      Counts.order.compareBytes [0x82, 0, 1] [0x81, 2] = .ok .gt := by
  have encoded : Counts.records.encode (Counts.count 1) = .ok [0x81, 1] := by decide +kernel
  refine ⟨Counts.built, Counts.made, by decide, Counts.decode_padded, encoded, ?_, by decide +kernel,
    by decide +kernel, by decide +kernel⟩
  rw [encoded]
  decide

end RecordCodec

end Cogrouping
