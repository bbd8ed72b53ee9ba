import Cogrouping.Proofs.Guarded.Operations
import Cogrouping.Proofs.Wire.Boundaries

/-!
Reading single values with operations that may go astray. In a buffer that is short enough none of them
does, wherever reading begins and whatever lengths the bytes announce.
-/

namespace Cogrouping

def Bytes.Short (buffer : Bytes) : Prop := buffer.length < 0x4000000000000000

theorem Varint.sizeAt_bounds {buffer : Bytes} {offset size : Nat} (found : sizeAt buffer offset = .ok size) :
    0 < size ∧ size ≤ 9 ∧ offset + size ≤ buffer.length := by
  obtain ⟨bytes, stands, sized, headed⟩ := sizeAt_eq_ok.mp found
  obtain ⟨small, same⟩ := headerSize_eq_ok.mp headed
  have reaches := stands.reaches
  omega

theorem Varint.read_bounds {buffer : Bytes} {offset size : Nat} {value : Int64}
    (found : read buffer offset = .ok (value, size)) :
    0 < size ∧ size ≤ 9 ∧ offset + size ≤ buffer.length := by
  obtain ⟨sized, there, found⟩ := bind_eq_ok.mp found
  dsimp only at found
  split at found
  · cases found
    exact sizeAt_bounds there
  · cases found

theorem Varint.readSize_bounds {buffer : Bytes} {offset limit number size : Nat}
    (found : readSize buffer offset limit = .ok (number, size)) :
    size ≤ 9 ∧ offset + size ≤ buffer.length ∧ number < 0x8000000000000000 := by
  obtain ⟨bytes, stands, rfl, spells, _⟩ := readSize_eq_ok.mp found
  obtain ⟨small, same⟩ := headerSize_eq_ok.mp spells.spells.sized
  exact ⟨by omega, stands.reaches, spells.fits⟩

theorem Varint.readSourceId_bounds {buffer : Bytes} {offset size : Nat} {id : SourceId}
    (found : readSourceId buffer offset = .ok (id, size)) : offset + size ≤ buffer.length := by
  obtain ⟨bytes, stands, rfl, _⟩ := readSourceId_eq_ok.mp found
  exact stands.reaches

theorem FieldCodec.take_bounds {buffer bytes : Bytes} {offset size : Nat}
    (found : take buffer offset size = .ok bytes) :
    offset + size ≤ buffer.length ∧ bytes.length = size := by
  obtain ⟨stands, rfl⟩ := take_eq_ok.mp found
  exact ⟨stands.reaches, rfl⟩

theorem FieldCodec.textBytes_bounds {codec : FieldCodec} {buffer payload : Bytes} {offset size : Nat}
    (found : codec.textBytes buffer offset = .ok (payload, size)) : offset + size ≤ buffer.length := by
  obtain ⟨header, stands, rfl, _⟩ := textBytes_eq_ok.mp found
  exact stands.reaches

theorem FieldCodec.skip_bounds {codec : FieldCodec} {buffer : Bytes} {offset size : Nat} {type : DataType}
    (skipped : codec.skip buffer offset type = .ok size) : offset + size ≤ buffer.length := by
  obtain ⟨announced, _, skipped⟩ := bind_eq_ok.mp skipped
  obtain ⟨bytes, taken, skipped⟩ := bind_eq_ok.mp skipped
  cases skipped
  exact (take_bounds taken).1

theorem Bytes.toNat_zeros_append (count : Nat) (bytes : Bytes) :
    toNat (List.replicate count 0 ++ bytes) = toNat bytes := by
  induction count with
  | zero => rfl
  | succ count ih => exact ih

namespace Guarded

def payloadSize (header : UInt8) : Guarded Nat :=
  if 0x80 ≤ header.toNat then sub header.toNat 0x80 else sub 0x7F header.toNat

def headerSize (header : UInt8) : Guarded Nat := do
  let payload ← payloadSize header
  if 8 < payload then fail (.codec (.varintHeader header)) else add 1 payload

def sizeAt (buffer : Bytes) (offset : Nat) : Guarded Nat :=
  match buffer[offset]? with
  | none => fail (.codec (.varintMissing offset))
  | some header => do
      let size ← headerSize header
      let stop ← add offset size
      if buffer.length < stop then
        let available ← sub buffer.length offset
        fail (.codec (.varintShort offset size available))
      else return size

def widen (payload : Bytes) : Guarded Bytes := do
  let start ← sub 8 payload.length
  let overwritten ← range (List.replicate 8 0) start 8
  let copied ← copy overwritten payload
  return (List.replicate 8 0).take start ++ copied

def turnOver (payload bytes : Bytes) : Guarded Bytes := do
  let start ← sub 8 payload.length
  let turned ← range bytes start 8
  return bytes.take start ++ Bytes.complement turned

def read (buffer : Bytes) (offset : Nat) : Guarded (Int64 × Nat) := do
  let size ← sizeAt buffer offset
  let header ← index buffer offset
  let payload ← range buffer (← add offset 1) (← add offset size)
  let bytes ← widen payload
  if 0x80 ≤ header.toNat then
    let number := Bytes.toNat bytes
    if number < 0x8000000000000000 then return (Int64.ofInt number, size)
    else fail (.codec (.varintOverflow offset))
  else
    let number := Bytes.toNat (← turnOver payload bytes)
    if number < 0x8000000000000000 then return (Int64.ofInt (-number - 1), size)
    else fail (.codec (.varintOverflow offset))

def readInt32 (buffer : Bytes) (offset : Nat) : Guarded (Int32 × Nat) := do
  let (value, size) ← read buffer offset
  if -0x80000000 ≤ value.toInt ∧ value.toInt < 0x80000000 then return (value.toInt32, size)
  else fail (.codec (.varintTooWide value offset))

def readSize (buffer : Bytes) (offset limit : Nat) : Guarded (Nat × Nat) := do
  let (value, size) ← read buffer offset
  if 0 ≤ value.toInt ∧ value.toInt ≤ limit then return (value.toInt.toNat, size)
  else fail (.codec (.lengthOutside value offset limit))

def readSourceId (buffer : Bytes) (offset : Nat) : Guarded (SourceId × Nat) := do
  let (value, size) ← read buffer offset
  if 0 ≤ value.toInt ∧ value.toInt < 0x100000000 then
    return (⟨UInt32.ofNat value.toInt.toNat⟩, size)
  else fail (.codec (.sourceIdOutside value offset))

def take (buffer : Bytes) (offset size : Nat) : Guarded Bytes := do
  let _ ← add offset size
  ofResult (FieldCodec.take buffer offset size)

section

variable (codec : FieldCodec) (buffer : Bytes) (offset : Nat)

def textBytes : Guarded (Bytes × Nat) := do
  let (size, header) ← readSize buffer offset codec.limit
  let payload ← take buffer (← add offset header) size
  return (payload, ← add header size)

def decodeBoolean : Guarded (Value × Nat) := do
  let bytes ← take buffer offset 1
  match ← index bytes 0 with
  | 0 => return (.boolean false, 1)
  | 1 => return (.boolean true, 1)
  | byte => fail (.codec (.notBoolean byte offset))

def decodeText : Guarded (Value × Nat) := do
  let (payload, size) ← textBytes codec buffer offset
  match Utf8.decode payload with
  | .ok text => return (.text text, size)
  | .error fault => fail (.codec (.notText offset fault))

def decodeObject (name : String) : Guarded (Value × Nat) := do
  let (announced, header) ← read buffer offset
  if announced = FieldCodec.absentSize then return (.null, header)
  else
    let (size, header) ← readSize buffer offset codec.limit
    let blob ← take buffer (← add offset header) size
    let object ← ofResult (codec.objects.find name)
    let json ← ofResult (object.decode blob)
    return (.object json, ← add header size)

def decode : DataType → Guarded (Value × Nat)
  | .int32 => do
      let (number, size) ← readInt32 buffer offset
      return (.int32 number, size)
  | .int64 => do
      let (number, size) ← read buffer offset
      return (.int64 number, size)
  | .float32 => do
      let bytes ← copy (List.replicate 4 0) (← take buffer offset 4)
      return (.float32 (OrderedFloat.decode32 bytes), 4)
  | .float64 => do
      let bytes ← copy (List.replicate 8 0) (← take buffer offset 8)
      return (.float64 (OrderedFloat.decode64 bytes), 8)
  | .boolean => decodeBoolean buffer offset
  | .text => decodeText codec buffer offset
  | .enumeration type => do
      let (ordinal, size) ← readSize buffer offset 0xFFFFFFFF
      let constant ← ofResult (codec.constants.resolve type.name ordinal)
      return (.constant constant, size)
  | .object name => decodeObject codec buffer offset name

def objectSize : Guarded Nat := do
  let (announced, header) ← read buffer offset
  if announced = FieldCodec.absentSize then return header
  else
    let (size, header) ← readSize buffer offset codec.limit
    add header size

def announcedSize : DataType → Guarded Nat
  | .int32 | .int64 | .enumeration _ => sizeAt buffer offset
  | .float32 => return 4
  | .float64 => return 8
  | .boolean => return 1
  | .text => do
      let (_, size) ← textBytes codec buffer offset
      return size
  | .object _ => objectSize codec buffer offset

def skip (type : DataType) : Guarded Nat := do
  let size ← announcedSize codec buffer offset type
  let _ ← take buffer offset size
  return size

end

theorem payloadSize_safe (header : UInt8) :
    Safe (payloadSize header) (.ok (Varint.payloadSize header)) := by
  rw [payloadSize, Varint.payloadSize]
  split
  · exact sub_safe ‹_›
  · have bound := header.toNat_lt
    exact sub_safe (by omega)

theorem headerSize_safe (header : UInt8) : Safe (headerSize header) (Varint.headerSize header) := by
  refine (payloadSize_safe header).step ?_
  rw [Varint.headerSize]
  by_cases small : Varint.payloadSize header ≤ 8
  · rw [if_neg (by omega), if_pos small]
    exact add_safe (by omega)
  · rw [if_pos (by omega), if_neg small]
    exact .fail _

theorem widen_safe {payload : Bytes} (within : payload.length ≤ 8) :
    Safe (widen payload) (.ok (List.replicate (8 - payload.length) 0 ++ payload)) := by
  refine (sub_safe within).step ((range_safe (Nat.sub_le 8 _) (by simp)).step ?_)
  refine (copy_safe ?_).step ?_
  · simp only [List.length_drop, List.length_take, List.length_replicate]
    omega
  · rw [List.take_replicate, Nat.min_eq_left (Nat.sub_le 8 _)]
    exact .pure _

theorem turnOver_safe {payload front : Bytes} (sized : front.length + payload.length = 8) :
    Safe (turnOver payload (front ++ payload)) (.ok (front ++ Bytes.complement payload)) := by
  have start : 8 - payload.length = front.length := by omega
  have whole : (front ++ payload).length = 8 := by rw [List.length_append, sized]
  refine (sub_safe (by omega)).step ((range_safe (Nat.sub_le 8 _) (Nat.le_of_eq whole.symm)).step ?_)
  rw [start, List.take_left, List.take_of_length_le (Nat.le_of_eq whole), List.drop_left]
  exact .pure _

variable {buffer : Bytes} (short : buffer.Short)
include short

theorem sizeAt_safe (offset : Nat) : Safe (sizeAt buffer offset) (Varint.sizeAt buffer offset) := by
  rw [sizeAt, Varint.sizeAt]
  cases found : buffer[offset]? with
  | none => exact .fail _
  | some header =>
      have inside := (List.getElem?_eq_some_iff.mp found).1
      rw [Bytes.Short] at short
      refine (headerSize_safe header).bind fun size sized => ?_
      obtain ⟨small, same⟩ := Varint.headerSize_eq_ok.mp sized
      refine (add_safe (by omega)).step ?_
      by_cases beyond : buffer.length < offset + size
      · simp only [beyond, if_true]
        exact (sub_safe (by omega)).step (.fail _)
      · simp only [beyond, if_false]
        exact .pure _

theorem read_safe (offset : Nat) : Safe (read buffer offset) (Varint.read buffer offset) := by
  rw [Bytes.Short] at short
  refine (sizeAt_safe short offset).bind fun size sized => ?_
  obtain ⟨positive, small, inside⟩ := Varint.sizeAt_bounds sized
  obtain ⟨header, found⟩ : ∃ header, buffer[offset]? = some header :=
    ⟨_, List.getElem?_eq_getElem (by omega)⟩
  refine (index_safe found).step ((add_safe (by omega)).step ((add_safe (by omega)).step ?_))
  refine (range_safe (by omega) inside).step ?_
  have bytes : (buffer.drop offset).take size =
      header :: (buffer.take (offset + size)).drop (offset + 1) := by
    obtain ⟨_, rfl⟩ := List.getElem?_eq_some_iff.mp found
    rw [List.drop_take, List.drop_eq_getElem_cons (by omega), List.take_cons positive]
    congr 2
    omega
  have width : ((buffer.take (offset + size)).drop (offset + 1)).length ≤ 8 := by
    simp only [List.length_drop, List.length_take]
    omega
  simp only [bytes, List.headD_cons, List.tail_cons]
  generalize (buffer.take (offset + size)).drop (offset + 1) = payload at width ⊢
  refine (widen_safe width).step ?_
  rw [Varint.decode?]
  split
  · rw [Bytes.toNat_zeros_append]
    dsimp only
    split
    · exact .pure _
    · exact .fail _
  · refine (turnOver_safe ?_).step ?_
    · rw [List.length_replicate]
      omega
    · rw [Bytes.toNat_zeros_append]
      dsimp only
      split
      · exact .pure _
      · exact .fail _

theorem readInt32_safe (offset : Nat) :
    Safe (readInt32 buffer offset) (Varint.readInt32 buffer offset) := by
  refine (read_safe short offset).bind fun ⟨value, size⟩ _ => ?_
  dsimp only
  split
  · exact .pure _
  · exact .fail _

theorem readSize_safe (offset limit : Nat) :
    Safe (readSize buffer offset limit) (Varint.readSize buffer offset limit) := by
  refine (read_safe short offset).bind fun ⟨value, size⟩ _ => ?_
  dsimp only
  split
  · exact .pure _
  · exact .fail _

theorem readSourceId_safe (offset : Nat) :
    Safe (readSourceId buffer offset) (Varint.readSourceId buffer offset) := by
  refine (read_safe short offset).bind fun ⟨value, size⟩ _ => ?_
  dsimp only
  split
  · exact .pure _
  · exact .fail _

omit short in
theorem take_safe {offset size : Nat} (small : offset + size < 0x10000000000000000) :
    Safe (take buffer offset size) (FieldCodec.take buffer offset size) :=
  (add_safe small).step (.ofResult _)

variable {codec : FieldCodec}

theorem textBytes_safe (offset : Nat) :
    Safe (textBytes codec buffer offset) (codec.textBytes buffer offset) := by
  refine (readSize_safe short offset codec.limit).bind fun ⟨size, header⟩ sized => ?_
  obtain ⟨small, inside, fits⟩ := Varint.readSize_bounds sized
  rw [Bytes.Short] at short
  refine (add_safe (by omega)).step ((take_safe (by omega)).bind fun payload _ => ?_)
  exact (add_safe (by omega)).step (.pure _)

omit short in
theorem decodeBoolean_safe {offset : Nat} (inside : offset ≤ buffer.length) (short : buffer.Short) :
    Safe (decodeBoolean buffer offset) (FieldCodec.decodeBoolean buffer offset) := by
  rw [Bytes.Short] at short
  refine (take_safe (by omega)).bind fun bytes taken => ?_
  obtain ⟨_, sized⟩ := FieldCodec.take_bounds taken
  obtain ⟨byte, rfl⟩ := List.length_eq_one_iff.mp sized
  have first : [byte][0]? = some byte := rfl
  refine (index_safe first).step ?_
  split
  · exact .pure _
  · exact .pure _
  · rename_i other notZero notOne
    split
    · rename_i same
      exact absurd (List.head_eq_of_cons_eq same) notZero
    · rename_i same
      exact absurd (List.head_eq_of_cons_eq same) notOne
    · exact .fail _

theorem decodeText_safe (offset : Nat) :
    Safe (decodeText codec buffer offset) (codec.decodeText buffer offset) := by
  refine (textBytes_safe short offset).bind fun ⟨payload, size⟩ _ => ?_
  dsimp only
  cases Utf8.decode payload with
  | ok text => exact .pure _
  | error fault => exact .fail _

theorem decodeObject_safe (offset : Nat) (name : String) :
    Safe (decodeObject codec buffer offset name) (codec.decodeObject name buffer offset) := by
  refine (read_safe short offset).bind fun ⟨announced, width⟩ _ => ?_
  dsimp only
  by_cases absent : announced = FieldCodec.absentSize
  · simp only [absent, if_true]
    exact .pure _
  simp only [absent, if_false]
  refine (readSize_safe short offset codec.limit).bind fun ⟨size, header⟩ sized => ?_
  obtain ⟨small, inside, fits⟩ := Varint.readSize_bounds sized
  rw [Bytes.Short] at short
  refine (add_safe (by omega)).step ((take_safe (by omega)).bind fun blob _ => ?_)
  refine (Safe.ofResult _).bind fun object _ => (Safe.ofResult _).bind fun json _ => ?_
  exact (add_safe (by omega)).step (.pure _)

theorem decode_safe {offset : Nat} (inside : offset ≤ buffer.length) (type : DataType) :
    Safe (decode codec buffer offset type) (codec.decode buffer offset type) := by
  have room {size : Nat} (narrow : size ≤ 8) : offset + size < 0x10000000000000000 := by
    rw [Bytes.Short] at short
    omega
  cases type with
  | int32 => exact (readInt32_safe short offset).bind fun _ _ => .pure _
  | int64 => exact (read_safe short offset).bind fun _ _ => .pure _
  | float32 =>
      refine (take_safe (room (by omega))).bind fun bytes taken => ?_
      exact (copy_safe (FieldCodec.take_bounds taken).2).step (.pure _)
  | float64 =>
      refine (take_safe (room (by omega))).bind fun bytes taken => ?_
      exact (copy_safe (FieldCodec.take_bounds taken).2).step (.pure _)
  | boolean => exact decodeBoolean_safe inside short
  | text => exact decodeText_safe short offset
  | enumeration type =>
      exact (readSize_safe short offset _).bind fun _ _ => (Safe.ofResult _).bind fun _ _ => .pure _
  | object name => exact decodeObject_safe short offset name

theorem objectSize_safe (offset : Nat) :
    Safe (objectSize codec buffer offset) (codec.objectSize buffer offset) := by
  refine (read_safe short offset).bind fun ⟨announced, width⟩ _ => ?_
  dsimp only
  by_cases absent : announced = FieldCodec.absentSize
  · simp only [absent, if_true]
    exact .pure _
  simp only [absent, if_false]
  refine (readSize_safe short offset codec.limit).bind fun ⟨size, header⟩ sized => ?_
  obtain ⟨small, inside, fits⟩ := Varint.readSize_bounds sized
  exact add_safe (by omega)

theorem announcedSize_safe (offset : Nat) (type : DataType) :
    Safe (announcedSize codec buffer offset type) (codec.announcedSize buffer offset type) := by
  cases type with
  | int32 => exact sizeAt_safe short offset
  | int64 => exact sizeAt_safe short offset
  | enumeration type => exact sizeAt_safe short offset
  | float32 => exact .pure _
  | float64 => exact .pure _
  | boolean => exact .pure _
  | text =>
      have same : codec.announcedSize buffer offset .text =
          codec.textBytes buffer offset >>= fun found => .ok found.2 := by
        rw [FieldCodec.announcedSize]
        cases codec.textBytes buffer offset <;> rfl
      rw [same]
      exact (textBytes_safe short offset).bind fun _ _ => .pure _
  | object name => exact objectSize_safe short offset

theorem announcedSize_bounds {offset size : Nat} {type : DataType}
    (announced : codec.announcedSize buffer offset type = .ok size) : size < 0x8000000000000009 := by
  cases type with
  | int32 =>
      have bounds := Varint.sizeAt_bounds announced
      omega
  | int64 =>
      have bounds := Varint.sizeAt_bounds announced
      omega
  | enumeration type =>
      have bounds := Varint.sizeAt_bounds announced
      omega
  | float32 =>
      cases announced
      decide
  | float64 =>
      cases announced
      decide
  | boolean =>
      cases announced
      decide
  | text =>
      obtain ⟨⟨payload, whole⟩, read, rfl⟩ := map_eq_ok.mp announced
      have reaches := FieldCodec.textBytes_bounds read
      rw [Bytes.Short] at short
      omega
  | object name =>
      obtain ⟨⟨value, width⟩, read, announced⟩ := bind_eq_ok.mp announced
      dsimp only at announced
      split at announced
      · cases announced
        have bounds := Varint.read_bounds read
        omega
      · obtain ⟨⟨number, header⟩, sized, announced⟩ := bind_eq_ok.mp announced
        cases announced
        have bounds := Varint.readSize_bounds sized
        omega

theorem skip_safe {offset : Nat} (inside : offset ≤ buffer.length) (type : DataType) :
    Safe (skip codec buffer offset type) (codec.skip buffer offset type) := by
  refine (announcedSize_safe short offset type).bind fun size announced => ?_
  have bound := announcedSize_bounds short announced
  rw [Bytes.Short] at short
  exact (take_safe (by omega)).bind fun _ _ => .pure _

end Guarded

end Cogrouping
