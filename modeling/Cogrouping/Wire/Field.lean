import Cogrouping.Wire.Constants
import Cogrouping.Wire.Objects
import Cogrouping.Wire.OrderedFloat
import Cogrouping.Wire.Varint

/-!
Single field values as bytes. Integers and ordinals are varints, floating-point numbers have the bytes
of their total order, a truth value is one byte, texts and objects have their length in front, and an
absent object is the length -1. A reader can pass over a field without reading its value.
-/

namespace Cogrouping

/-- The buffers that writing works on. Objects are staged in `scratch` before their length is known. -/
structure Buffers where
  scratch : Bytes
  out : Bytes
  deriving DecidableEq, Repr

/-- Writing changes the buffers also when it fails. -/
abbrev Writing := ExceptT Error (StateM Buffers)

namespace Writing

def append (bytes : Bytes) : Writing Unit :=
  modify fun buffers => { buffers with out := buffers.out ++ bytes }

def clearScratch : Writing Unit := modify fun buffers => { buffers with scratch := [] }

def stage (codec : ObjectCodec) (json : Json) : Writing Unit := do
  let (bytes, result) := codec.encode json
  modify fun buffers => { buffers with scratch := buffers.scratch ++ bytes }
  ofExcept result

end Writing

structure FieldCodec where
  constants : EnumConstants
  objects : ObjectCodecs
  limit : Nat

namespace FieldCodec

/-- The length that stands for an absent object. -/
def absentSize : Int64 := -1

def take (buffer : Bytes) (offset size : Nat) : Except Error Bytes :=
  match Bytes.slice? buffer offset size with
  | some bytes => .ok bytes
  | none => .error (.codec (.bytesMissing size offset buffer.length))

variable (codec : FieldCodec)

def encodeText (field : String) (text : String) : Writing Unit := do
  let bytes := Utf8.encode text
  if codec.limit < bytes.length then
    throw (.codec (.textTooLong field bytes.length codec.limit))
  Writing.append (Varint.encode (Int64.ofNat bytes.length))
  Writing.append bytes

/-- Appends an object behind the length of its bytes, which the scratch buffer holds afterwards. -/
def encodeObject (name : String) (json : Json) : Writing Unit := do
  Writing.clearScratch
  let object ← ofExcept (codec.objects.find name)
  Writing.stage object json
  let staged := (← get).scratch
  Writing.append (Varint.encode (Int64.ofNat staged.length))
  Writing.append staged

def encode (field : Field) (value : Value) : Writing Unit := do
  ofExcept (value.check field.name field.type)
  match value, field.type with
  | .int32 number, _ => Writing.append (Varint.encode number.toInt64)
  | .int64 number, _ => Writing.append (Varint.encode number)
  | .float32 number, _ => Writing.append (OrderedFloat.encode32 number)
  | .float64 number, _ => Writing.append (OrderedFloat.encode64 number)
  | .boolean truth, _ => Writing.append [if truth then 1 else 0]
  | .text text, _ => codec.encodeText field.name text
  | .constant constant, _ =>
      Writing.append (Varint.encode (Int64.ofNat constant.ordinal.toNat))
  | .null, .object _ => Writing.append (Varint.encode absentSize)
  | .object json, .object name => codec.encodeObject name json
  | _, _ => throw (.invariant (.noEncoding value.kind field.name))

def textBytes (buffer : Bytes) (offset : Nat) : Except Error (Bytes × Nat) := do
  let (size, header) ← Varint.readSize buffer offset codec.limit
  let payload ← take buffer (offset + header) size
  return (payload, header + size)

def decodeBoolean (buffer : Bytes) (offset : Nat) : Except Error (Value × Nat) := do
  match ← take buffer offset 1 with
  | [0] => return (.boolean false, 1)
  | [1] => return (.boolean true, 1)
  | bytes => throw (.codec (.notBoolean (bytes.headD 0) offset))

def decodeText (buffer : Bytes) (offset : Nat) : Except Error (Value × Nat) := do
  let (payload, size) ← codec.textBytes buffer offset
  match Utf8.decode payload with
  | .ok text => return (.text text, size)
  | .error fault => throw (.codec (.notText offset fault))

def decodeObject (name : String) (buffer : Bytes) (offset : Nat) : Except Error (Value × Nat) := do
  let (announced, header) ← Varint.read buffer offset
  if announced = absentSize then return (.null, header)
  let (size, header) ← Varint.readSize buffer offset codec.limit
  let blob ← take buffer (offset + header) size
  let object ← codec.objects.find name
  let json ← object.decode blob
  return (.object json, header + size)

def decode (buffer : Bytes) (offset : Nat) : DataType → Except Error (Value × Nat)
  | .int32 => do
      let (number, size) ← Varint.readInt32 buffer offset
      return (.int32 number, size)
  | .int64 => do
      let (number, size) ← Varint.read buffer offset
      return (.int64 number, size)
  | .float32 => do
      let bytes ← take buffer offset 4
      return (.float32 (OrderedFloat.decode32 bytes), 4)
  | .float64 => do
      let bytes ← take buffer offset 8
      return (.float64 (OrderedFloat.decode64 bytes), 8)
  | .boolean => decodeBoolean buffer offset
  | .text => codec.decodeText buffer offset
  | .enumeration type => do
      let (ordinal, size) ← Varint.readSize buffer offset 0xFFFFFFFF
      let constant ← codec.constants.resolve type.name ordinal
      return (.constant constant, size)
  | .object name => codec.decodeObject name buffer offset

def objectSize (buffer : Bytes) (offset : Nat) : Except Error Nat := do
  let (announced, header) ← Varint.read buffer offset
  if announced = absentSize then return header
  let (size, header) ← Varint.readSize buffer offset codec.limit
  return header + size

def announcedSize (buffer : Bytes) (offset : Nat) : DataType → Except Error Nat
  | .int32 | .int64 | .enumeration _ => Varint.sizeAt buffer offset
  | .float32 => .ok 4
  | .float64 => .ok 8
  | .boolean => .ok 1
  | .text => (codec.textBytes buffer offset).map Prod.snd
  | .object _ => codec.objectSize buffer offset

def skip (buffer : Bytes) (offset : Nat) (type : DataType) : Except Error Nat := do
  let size ← codec.announcedSize buffer offset type
  let _ ← take buffer offset size
  return size

end FieldCodec

end Cogrouping
