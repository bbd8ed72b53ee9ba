import Cogrouping.Plan
import Cogrouping.Tuple
import Cogrouping.Wire.Field

/-!
Records: the bytes of whole tuples. A record holds the common fields, among them the number of the
source if there are several, and behind them the fields specific to the source.
-/

namespace Cogrouping

namespace FieldCodec

def objectCodecName? (field : Field) : Option String :=
  match field.type with
  | .object name => some name
  | _ => none

def objectCodecNames (plan : Plan) : List String :=
  plan.sources.values.flatMap fun source => source.schema.fields.filterMap objectCodecName?

/-- The codec for a plan's fields; every object codec that a field names has to be there. -/
def ofPlan (plan : Plan) (objects : ObjectCodecs) (limit : Nat) : Except Error FieldCodec := do
  (objectCodecNames plan).forM fun name => (objects.find name).map fun _ => ()
  let constants ← EnumConstants.ofTypes plan.enumTypes
  return { constants, objects, limit }

end FieldCodec

structure RecordCodec where
  plan : Plan
  fields : FieldCodec

namespace RecordCodec

def encodeSlot (codec : FieldCodec) (tuple : Tuple) (source : SourceId) (field : Field) :
    Slot → Writing Unit
  | .sourceId => Writing.append (Varint.encodeSourceId source)
  | .field position => do
      let value ← ofExcept (tuple.require position)
      codec.encode field value

def encodeSlots (codec : FieldCodec) (tuple : Tuple) (source : SourceId) :
    List Field → List Slot → Writing Unit
  | field :: fields, slot :: slots => do
      encodeSlot codec tuple source field slot
      encodeSlots codec tuple source fields slots
  | _, _ => pure ()

def encodeAs (codec : FieldCodec) (tuple : Tuple) (target : Schema) (slots : List Slot)
    (source : SourceId) : Writing Unit := do
  if slots.length ≠ target.size then
    throw (.invariant (.slotCount target.name slots.length target.size))
  encodeSlots codec tuple source target.fields slots

variable (codec : RecordCodec)

def write (tuple : Tuple) : Writing Unit := do
  let source ← ofExcept (codec.plan.sourceNamed tuple.schema.name)
  if tuple.size ≠ source.schema.size then
    throw (.schema (.tupleSize tuple.size source.name source.schema.size))
  encodeAs codec.fields tuple codec.plan.common source.commonSlots source.id
  encodeSlots codec.fields tuple source.id source.specific.fields
    (source.specificPositions.map Slot.field)

def encode (tuple : Tuple) : Except Error Bytes :=
  let (result, buffers) := (codec.write tuple).run ⟨[], []⟩
  result.map fun _ => buffers.out

def skipFields (codec : FieldCodec) (buffer : Bytes) : Nat → List Field → Except Error Nat
  | offset, [] => .ok offset
  | offset, field :: rest => do
      let size ← codec.skip buffer offset field.type
      skipFields codec buffer (offset + size) rest

def sourceOf (record : Bytes) : Except Error SourcePlan :=
  match codec.plan.sourceIdPosition? with
  | none =>
      match codec.plan.sources.values.head? with
      | some source => .ok source
      | none => .error (.invariant .noSources)
  | some position => do
      let offset ← skipFields codec.fields record 0 (codec.plan.common.fields.take position)
      let (id, _) ← Varint.readSourceId record offset
      match codec.plan.source? id with
      | some source => return source
      | none => throw (.unknownSource (.numbered id))

/-- Reading fills a tuple, which keeps what it got when reading fails. -/
abbrev Filling := ExceptT Error (StateM Tuple)

def decodeSlot (codec : FieldCodec) (record : Bytes) (offset : Nat) (field : Field) :
    Slot → Filling Nat
  | .sourceId => do
      let (_, size) ← ofExcept (Varint.readSourceId record offset)
      return size
  | .field position => do
      let (value, size) ← ofExcept (codec.decode record offset field.type)
      set (← ofExcept ((← get).set position value))
      return size

def decodeSlots (codec : FieldCodec) (record : Bytes) :
    Nat → List Field → List Slot → Filling Nat
  | offset, field :: fields, slot :: slots => do
      let size ← decodeSlot codec record offset field slot
      decodeSlots codec record (offset + size) fields slots
  | offset, _, _ => return offset

def readInto (record : Bytes) : Filling Unit := do
  let source ← ofExcept (codec.sourceOf record)
  set (Tuple.blank source.schema)
  let offset ← decodeSlots codec.fields record 0 codec.plan.common.fields source.commonSlots
  let offset ← decodeSlots codec.fields record offset source.specific.fields
    (source.specificPositions.map Slot.field)
  if offset ≠ record.length then
    throw (.codec (.trailingBytes (record.length - offset) source.name))

def decode (record : Bytes) : Except Error Tuple := do
  let source ← codec.sourceOf record
  let (result, tuple) := (codec.readInto record).run (Tuple.blank source.schema)
  result.map fun _ => tuple

end RecordCodec

end Cogrouping
