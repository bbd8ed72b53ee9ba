import Cogrouping.Proofs.Wire.Field

/-!
The byte strings that are read as a value, and those that are passed over. An integer is also read from a
payload with leading zeros, so a value has several spellings; the bytes it is written as are one of them.
Where a spelling stands and what stands around it does not matter.
-/

namespace Cogrouping.FieldCodec

open Bytes (At)
open Varint (Spells SpellsSize)

variable {codec : FieldCodec}

theorem take_eq_ok {buffer bytes : Bytes} {offset size : Nat} :
    take buffer offset size = .ok bytes ↔ At buffer offset bytes ∧ bytes.length = size := by
  rw [← Bytes.slice?_eq_some, take]
  cases Bytes.slice? buffer offset size <;> simp

inductive Spelled (codec : FieldCodec) : DataType → Value → Bytes → Prop
  | int32 {number : Int32} {bytes : Bytes} : Spells number.toInt64 bytes →
      Spelled codec .int32 (.int32 number) bytes
  | int64 {number : Int64} {bytes : Bytes} : Spells number bytes →
      Spelled codec .int64 (.int64 number) bytes
  | float32 (number : Decimal.Binary32) :
      Spelled codec .float32 (.float32 number) (OrderedFloat.encode32 number)
  | float64 (number : Decimal.Binary64) :
      Spelled codec .float64 (.float64 number) (OrderedFloat.encode64 number)
  | boolean (truth : Bool) : Spelled codec .boolean (.boolean truth) [if truth then 1 else 0]
  | text {text : String} {header : Bytes} : SpellsSize (Utf8.encode text).length header →
      (Utf8.encode text).length ≤ codec.limit →
      Spelled codec .text (.text text) (header ++ Utf8.encode text)
  | constant {type : EnumType} {ordinal : Nat} {constant : EnumConstant} {bytes : Bytes} :
      SpellsSize ordinal bytes → ordinal ≤ 0xFFFFFFFF →
      codec.constants.resolve type.name ordinal = .ok constant →
      Spelled codec (.enumeration type) (.constant constant) bytes
  | absent {name : String} {bytes : Bytes} : Spells absentSize bytes →
      Spelled codec (.object name) .null bytes
  | object {name : String} {object : ObjectCodec} {json : Json} {header blob : Bytes} :
      SpellsSize blob.length header → blob.length ≤ codec.limit →
      codec.objects.find name = .ok object → object.decode blob = .ok json →
      Spelled codec (.object name) (.object json) (header ++ blob)

variable {buffer : Bytes} {offset size : Nat} {value : Value}

theorem textBytes_eq_ok {payload : Bytes} : codec.textBytes buffer offset = .ok (payload, size) ↔
    ∃ header, At buffer offset (header ++ payload) ∧ (header ++ payload).length = size ∧
      SpellsSize payload.length header ∧ payload.length ≤ codec.limit := by
  unfold textBytes
  constructor
  · intro found
    obtain ⟨⟨announced, width⟩, done, found⟩ := bind_eq_ok.mp found
    obtain ⟨header, stands, rfl, spells, short⟩ := Varint.readSize_eq_ok.mp done
    obtain ⟨taken, done, found⟩ := bind_eq_ok.mp found
    obtain ⟨behind, rfl⟩ := take_eq_ok.mp done
    cases found
    exact ⟨header, Bytes.at_append.mpr ⟨stands, behind⟩, List.length_append, spells, short⟩
  · rintro ⟨header, stands, rfl, spells, short⟩
    obtain ⟨stands, behind⟩ := Bytes.at_append.mp stands
    rw [Varint.readSize_eq_ok.mpr ⟨header, stands, rfl, spells, short⟩, ok_bind]
    simp only [take_eq_ok.mpr ⟨behind, rfl⟩, ok_bind, pure_eq_ok, List.length_append]

theorem decodeText_eq_ok : codec.decodeText buffer offset = .ok (value, size) ↔
    ∃ bytes, At buffer offset bytes ∧ bytes.length = size ∧ codec.Spelled .text value bytes := by
  unfold decodeText
  constructor
  · intro found
    obtain ⟨⟨payload, width⟩, done, found⟩ := bind_eq_ok.mp found
    obtain ⟨header, stands, rfl, spells, short⟩ := textBytes_eq_ok.mp done
    dsimp only at found
    split at found
    · rename_i text read
      cases found
      obtain rfl := Utf8.encode_decode read
      exact ⟨_, stands, rfl, .text spells short⟩
    · cases found
  · rintro ⟨bytes, stands, rfl, spelled⟩
    cases spelled with
    | text spells short =>
        rw [textBytes_eq_ok.mpr ⟨_, stands, rfl, spells, short⟩, ok_bind]
        simp only [Utf8.decode_encode, pure_eq_ok]

theorem decodeBoolean_eq_ok : decodeBoolean buffer offset = .ok (value, size) ↔
    ∃ bytes, At buffer offset bytes ∧ bytes.length = size ∧ codec.Spelled .boolean value bytes := by
  unfold decodeBoolean
  constructor
  · intro found
    obtain ⟨bytes, done, found⟩ := bind_eq_ok.mp found
    obtain ⟨stands, sized⟩ := take_eq_ok.mp done
    split at found
    · cases found
      exact ⟨_, stands, rfl, .boolean false⟩
    · cases found
      exact ⟨_, stands, rfl, .boolean true⟩
    · cases found
  · rintro ⟨bytes, stands, rfl, spelled⟩
    cases spelled with
    | boolean truth =>
        rw [take_eq_ok.mpr ⟨stands, List.length_singleton⟩, ok_bind]
        cases truth <;> rfl

theorem read_of_spellsSize {number : Nat} {header : Bytes} (stands : At buffer offset header)
    (spells : SpellsSize number header) :
    Varint.read buffer offset = .ok (Int64.ofNat number, header.length) :=
  Varint.read_eq_ok.mpr ⟨header, stands, rfl, spells.spells⟩

theorem ofNat_ne_absentSize {size : Nat} (fits : size < 0x8000000000000000) :
    Int64.ofNat size ≠ absentSize := by
  intro same
  have negative := congrArg Int64.toInt same
  rw [Varint.toInt_ofNat fits] at negative
  have minusOne : absentSize.toInt = -1 := rfl
  omega

theorem decodeObject_eq_ok {name : String} :
    codec.decodeObject name buffer offset = .ok (value, size) ↔
      ∃ bytes, At buffer offset bytes ∧ bytes.length = size ∧
        codec.Spelled (.object name) value bytes := by
  unfold decodeObject
  constructor
  · intro found
    obtain ⟨⟨announced, width⟩, done, found⟩ := bind_eq_ok.mp found
    dsimp only at found
    split at found
    · rename_i absent
      cases found
      obtain ⟨bytes, stands, rfl, spells⟩ := Varint.read_eq_ok.mp done
      exact ⟨bytes, stands, rfl, .absent (absent ▸ spells)⟩
    · obtain ⟨⟨length, width⟩, done, found⟩ := bind_eq_ok.mp found
      obtain ⟨header, stands, rfl, spells, short⟩ := Varint.readSize_eq_ok.mp done
      obtain ⟨blob, done, found⟩ := bind_eq_ok.mp found
      obtain ⟨behind, rfl⟩ := take_eq_ok.mp done
      obtain ⟨object, known, found⟩ := bind_eq_ok.mp found
      obtain ⟨json, read, found⟩ := bind_eq_ok.mp found
      cases found
      exact ⟨header ++ blob, Bytes.at_append.mpr ⟨stands, behind⟩, List.length_append,
        .object spells short known read⟩
  · rintro ⟨bytes, stands, rfl, spelled⟩
    cases spelled with
    | absent spells =>
        rw [Varint.read_eq_ok.mpr ⟨bytes, stands, rfl, spells⟩, ok_bind]
        simp only [if_true, pure_eq_ok]
    | object spells short known read =>
        obtain ⟨stands, behind⟩ := Bytes.at_append.mp stands
        rw [read_of_spellsSize stands spells, ok_bind]
        simp only [if_neg (ofNat_ne_absentSize spells.fits),
          Varint.readSize_eq_ok.mpr ⟨_, stands, rfl, spells, short⟩, ok_bind,
          take_eq_ok.mpr ⟨behind, rfl⟩, known, read, pure_eq_ok, List.length_append]

/-- A value is read from the spellings of its type, wherever they stand, and from nothing else. -/
theorem decode_eq_ok {type : DataType} : codec.decode buffer offset type = .ok (value, size) ↔
    ∃ bytes, At buffer offset bytes ∧ bytes.length = size ∧ codec.Spelled type value bytes := by
  cases type with
  | int32 =>
      constructor
      · intro found
        obtain ⟨⟨number, width⟩, done, found⟩ := bind_eq_ok.mp found
        cases found
        obtain ⟨bytes, stands, rfl, spells⟩ := Varint.readInt32_eq_ok.mp done
        exact ⟨bytes, stands, rfl, .int32 spells⟩
      · rintro ⟨bytes, stands, rfl, spelled⟩
        cases spelled with
        | int32 spells =>
            rw [decode, Varint.readInt32_eq_ok.mpr ⟨bytes, stands, rfl, spells⟩]
            rfl
  | int64 =>
      constructor
      · intro found
        obtain ⟨⟨number, width⟩, done, found⟩ := bind_eq_ok.mp found
        cases found
        obtain ⟨bytes, stands, rfl, spells⟩ := Varint.read_eq_ok.mp done
        exact ⟨bytes, stands, rfl, .int64 spells⟩
      · rintro ⟨bytes, stands, rfl, spelled⟩
        cases spelled with
        | int64 spells =>
            rw [decode, Varint.read_eq_ok.mpr ⟨bytes, stands, rfl, spells⟩]
            rfl
  | float32 =>
      constructor
      · intro found
        obtain ⟨bytes, done, found⟩ := bind_eq_ok.mp found
        obtain ⟨stands, sized⟩ := take_eq_ok.mp done
        cases found
        refine ⟨bytes, stands, sized, ?_⟩
        have spelled : codec.Spelled .float32 _ _ := .float32 (OrderedFloat.decode32 bytes)
        rwa [OrderedFloat.encode32_decode32 sized] at spelled
      · rintro ⟨bytes, stands, rfl, spelled⟩
        cases spelled with
        | float32 number =>
            have taken := take_eq_ok.mpr ⟨stands, OrderedFloat.length_encode32 number⟩
            simp only [decode, taken, ok_bind, OrderedFloat.decode32_encode32,
              OrderedFloat.length_encode32, pure_eq_ok]
  | float64 =>
      constructor
      · intro found
        obtain ⟨bytes, done, found⟩ := bind_eq_ok.mp found
        obtain ⟨stands, sized⟩ := take_eq_ok.mp done
        cases found
        refine ⟨bytes, stands, sized, ?_⟩
        have spelled : codec.Spelled .float64 _ _ := .float64 (OrderedFloat.decode64 bytes)
        rwa [OrderedFloat.encode64_decode64 sized] at spelled
      · rintro ⟨bytes, stands, rfl, spelled⟩
        cases spelled with
        | float64 number =>
            have taken := take_eq_ok.mpr ⟨stands, OrderedFloat.length_encode64 number⟩
            simp only [decode, taken, ok_bind, OrderedFloat.decode64_encode64,
              OrderedFloat.length_encode64, pure_eq_ok]
  | boolean => exact decodeBoolean_eq_ok
  | text => exact decodeText_eq_ok
  | enumeration type =>
      constructor
      · intro found
        obtain ⟨⟨ordinal, width⟩, done, found⟩ := bind_eq_ok.mp found
        obtain ⟨bytes, stands, rfl, spells, within⟩ := Varint.readSize_eq_ok.mp done
        obtain ⟨constant, resolved, found⟩ := bind_eq_ok.mp found
        cases found
        exact ⟨bytes, stands, rfl, .constant spells within resolved⟩
      · rintro ⟨bytes, stands, rfl, spelled⟩
        cases spelled with
        | constant spells within resolved =>
            rw [decode, Varint.readSize_eq_ok.mpr ⟨bytes, stands, rfl, spells, within⟩, ok_bind]
            simp only [resolved, ok_bind, pure_eq_ok]
  | object name => exact decodeObject_eq_ok

def Sized (codec : FieldCodec) (bytes : Bytes) : Prop :=
  ∃ header payload, bytes = header ++ payload ∧ SpellsSize payload.length header ∧
    payload.length ≤ codec.limit

def Spans (codec : FieldCodec) (bytes : Bytes) : DataType → Prop
  | .int32 | .int64 | .enumeration _ => Varint.headerSize (bytes.headD 0) = .ok bytes.length
  | .float32 => bytes.length = 4
  | .float64 => bytes.length = 8
  | .boolean => bytes.length = 1
  | .text => codec.Sized bytes
  | .object _ => Spells absentSize bytes ∨ codec.Sized bytes

variable {type : DataType} {bytes : Bytes}

theorem Sized.objectSize (sized : codec.Sized bytes) (stands : At buffer offset bytes) :
    codec.objectSize buffer offset = .ok bytes.length := by
  obtain ⟨header, payload, rfl, spells, short⟩ := sized
  obtain ⟨stands, behind⟩ := Bytes.at_append.mp stands
  rw [FieldCodec.objectSize, read_of_spellsSize stands spells, ok_bind]
  simp only [if_neg (ofNat_ne_absentSize spells.fits),
    Varint.readSize_eq_ok.mpr ⟨header, stands, rfl, spells, short⟩, ok_bind, pure_eq_ok,
    List.length_append]

theorem Spans.announcedSize (spans : codec.Spans bytes type) (stands : At buffer offset bytes) :
    codec.announcedSize buffer offset type = .ok bytes.length := by
  have integer (sized : Varint.headerSize (bytes.headD 0) = .ok bytes.length) :
      Varint.sizeAt buffer offset = .ok bytes.length :=
    Varint.sizeAt_eq_ok.mpr ⟨bytes, stands, rfl, sized⟩
  cases type with
  | int32 => exact integer spans
  | int64 => exact integer spans
  | enumeration => exact integer spans
  | float32 => exact congrArg Except.ok (Eq.symm spans)
  | float64 => exact congrArg Except.ok (Eq.symm spans)
  | boolean => exact congrArg Except.ok (Eq.symm spans)
  | text =>
      obtain ⟨header, payload, rfl, spells, short⟩ := spans
      rw [FieldCodec.announcedSize, textBytes_eq_ok.mpr ⟨header, stands, rfl, spells, short⟩]
      rfl
  | object name =>
      rcases spans with absent | sized
      · rw [FieldCodec.announcedSize, FieldCodec.objectSize,
          Varint.read_eq_ok.mpr ⟨bytes, stands, rfl, absent⟩, ok_bind]
        simp only [if_true, pure_eq_ok]
      · exact sized.objectSize stands

theorem Spans.skip (spans : codec.Spans bytes type) (stands : At buffer offset bytes) :
    codec.skip buffer offset type = .ok bytes.length := by
  rw [FieldCodec.skip, spans.announcedSize stands, ok_bind, take_eq_ok.mpr ⟨stands, rfl⟩, ok_bind,
    pure_eq_ok]

theorem Spelled.spans (spelled : codec.Spelled type value bytes) : codec.Spans bytes type := by
  cases spelled with
  | int32 spells => exact spells.sized
  | int64 spells => exact spells.sized
  | float32 number => exact OrderedFloat.length_encode32 number
  | float64 number => exact OrderedFloat.length_encode64 number
  | boolean truth => rfl
  | text spells short => exact ⟨_, _, rfl, spells, short⟩
  | constant spells within resolved => exact spells.spells.sized
  | absent spells => exact .inl spells
  | object spells short known read => exact .inr ⟨_, _, rfl, spells, short⟩

theorem Spelled.skip (spelled : codec.Spelled type value bytes) (stands : At buffer offset bytes) :
    codec.skip buffer offset type = .ok bytes.length :=
  spelled.spans.skip stands

namespace Written

theorem spans (written : codec.Written type value bytes) (within : ¬codec.Oversized type value)
    (fits : bytes.length < 0x8000000000000000) : codec.Spans bytes type := by
  cases written with
  | int32 number => exact (Varint.encode_spells _).sized
  | int64 number => exact (Varint.encode_spells _).sized
  | float32 number => exact OrderedFloat.length_encode32 number
  | float64 number => exact OrderedFloat.length_encode64 number
  | boolean truth => rfl
  | text text short =>
      rw [List.length_append] at fits
      exact ⟨_, _, rfl, Varint.encode_spellsSize (by omega), short⟩
  | constant named inside => exact (Varint.encode_spells _).sized
  | absent name => exact .inl (Varint.encode_spells _)
  | @object name object json found succeeded =>
      rw [List.length_append] at fits
      have short := Nat.not_lt.mp fun long => within ⟨object, found, long⟩
      exact .inr ⟨_, _, rfl, Varint.encode_spellsSize (by omega), short⟩

theorem spelled (written : codec.Written type value bytes) (known : codec.Knows type)
    (kept : codec.Keeps type value) (fits : bytes.length < 0x8000000000000000) :
    codec.Spelled type value bytes := by
  cases written with
  | int32 number => exact .int32 (Varint.encode_spells _)
  | int64 number => exact .int64 (Varint.encode_spells _)
  | float32 number => exact .float32 number
  | float64 number => exact .float64 number
  | boolean truth => exact .boolean truth
  | text text short =>
      rw [List.length_append] at fits
      exact .text (Varint.encode_spellsSize (by omega)) short
  | @constant type constant named inside =>
      have bound := constant.ordinal.toNat_lt
      exact .constant (Varint.encode_spellsSize (by omega)) (by omega)
        (resolve_constant known named kept)
  | absent name => exact .absent (Varint.encode_spells _)
  | object found succeeded =>
      obtain ⟨lossless, short⟩ := kept _ found
      rw [List.length_append] at fits
      exact .object (Varint.encode_spellsSize (by omega)) short found lossless

end Written

theorem at_middle (before bytes after : Bytes) : At (before ++ bytes ++ after) before.length bytes :=
  ⟨before, after, rfl, rfl⟩

theorem decode_written (written : codec.Written type value bytes) (known : codec.Knows type)
    (kept : codec.Keeps type value) (fits : bytes.length < 0x8000000000000000)
    (before after : Bytes) :
    codec.decode (before ++ bytes ++ after) before.length type = .ok (value, bytes.length) :=
  decode_eq_ok.mpr ⟨bytes, at_middle before bytes after, rfl, written.spelled known kept fits⟩

theorem skip_written (written : codec.Written type value bytes)
    (within : ¬codec.Oversized type value) (fits : bytes.length < 0x8000000000000000)
    (before after : Bytes) :
    codec.skip (before ++ bytes ++ after) before.length type = .ok bytes.length :=
  (written.spans within fits).skip (at_middle before bytes after)

theorem textBytes_sized {text : Bytes} (short : text.length ≤ codec.limit)
    (fits : text.length < 0x8000000000000000) (before after : Bytes) :
    codec.textBytes
        (before ++ (Varint.encode (Int64.ofNat text.length) ++ text) ++ after) before.length =
      .ok (text, (Varint.encode (Int64.ofNat text.length) ++ text).length) :=
  textBytes_eq_ok.mpr
    ⟨_, at_middle before _ after, rfl, Varint.encode_spellsSize fits, short⟩

end Cogrouping.FieldCodec
