import Cogrouping.Error

/-!
Integers of varying length whose bytes have the order of the numbers. A header byte is followed by up
to eight bytes of payload, most significant first. A number `v ≥ 0` has the header `0x80 + n` and its
`n` significant bytes; a number `v < 0` has the header `0x7F - n` and the `n` significant bytes of
`-v - 1` with every bit turned over. The header alone gives the length.
-/

namespace Cogrouping.Varint

def maxSize : Nat := 9

def encode (value : Int64) : Bytes :=
  let number := value.toInt
  if 0 ≤ number then
    let payload := Bytes.ofNat number.toNat
    UInt8.ofNat (0x80 + payload.length) :: payload
  else
    let payload := Bytes.ofNat (-number - 1).toNat
    UInt8.ofNat (0x7F - payload.length) :: Bytes.complement payload

def payloadSize (header : UInt8) : Nat :=
  if 0x80 ≤ header.toNat then header.toNat - 0x80 else 0x7F - header.toNat

def headerSize (header : UInt8) : Except Error Nat :=
  if payloadSize header ≤ 8 then .ok (1 + payloadSize header)
  else .error (.codec (.varintHeader header))

def sizeAt (buffer : Bytes) (offset : Nat) : Except Error Nat :=
  match buffer[offset]? with
  | none => .error (.codec (.varintMissing offset))
  | some header => do
      let size ← headerSize header
      if buffer.length < offset + size then
        throw (.codec (.varintShort offset size (buffer.length - offset)))
      return size

def decode? (header : UInt8) (payload : Bytes) : Option Int64 :=
  if 0x80 ≤ header.toNat then
    let number := Bytes.toNat payload
    if number < 0x8000000000000000 then some (Int64.ofInt number) else none
  else
    let number := Bytes.toNat (Bytes.complement payload)
    if number < 0x8000000000000000 then some (Int64.ofInt (-number - 1)) else none

def read (buffer : Bytes) (offset : Nat) : Except Error (Int64 × Nat) := do
  let size ← sizeAt buffer offset
  let bytes := (buffer.drop offset).take size
  match decode? (bytes.headD 0) bytes.tail with
  | some value => return (value, size)
  | none => throw (.codec (.varintOverflow offset))

def readInt32 (buffer : Bytes) (offset : Nat) : Except Error (Int32 × Nat) := do
  let (value, size) ← read buffer offset
  if -0x80000000 ≤ value.toInt ∧ value.toInt < 0x80000000 then return (value.toInt32, size)
  else throw (.codec (.varintTooWide value offset))

/-- The integer at an offset as a length or an ordinal of at most `limit`. -/
def readSize (buffer : Bytes) (offset limit : Nat) : Except Error (Nat × Nat) := do
  let (value, size) ← read buffer offset
  if 0 ≤ value.toInt ∧ value.toInt ≤ limit then return (value.toInt.toNat, size)
  else throw (.codec (.lengthOutside value offset limit))

def readSourceId (buffer : Bytes) (offset : Nat) : Except Error (SourceId × Nat) := do
  let (value, size) ← read buffer offset
  if 0 ≤ value.toInt ∧ value.toInt < 0x100000000 then
    return (⟨UInt32.ofNat value.toInt.toNat⟩, size)
  else throw (.codec (.sourceIdOutside value offset))

def encodeSourceId (id : SourceId) : Bytes := encode (Int64.ofNat id.number.toNat)

end Cogrouping.Varint
