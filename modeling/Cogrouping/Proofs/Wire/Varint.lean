import Cogrouping.Proofs.Bytes
import Cogrouping.Proofs.Outcome
import Cogrouping.Wire.Varint

/-!
Laws of the integers of varying length: their bytes are read back wherever they stand, whatever is
around them, and have the order of the numbers.
-/

namespace Cogrouping

namespace Bytes

theorem compare_length_then_order (left right : Nat) :
    (compare (ofNat left).length (ofNat right).length).then (order (ofNat left) (ofNat right)) =
      compare left right := by
  cases lengths : compare (ofNat left).length (ofNat right).length with
  | eq =>
      have sameLength := Nat.compare_eq_eq.mp lengths
      rw [Ordering.eq_then, order_eq_compare_toNat sameLength, toNat_ofNat, toNat_ofNat]
  | lt =>
      have shorter := Nat.compare_eq_lt.mp lengths
      have below : left < right := by
        by_cases above : right ≤ left
        · have atLeast := length_ofNat_mono above
          omega
        · omega
      exact (Nat.compare_eq_lt.mpr below).symm
  | gt =>
      have longer := Nat.compare_eq_gt.mp lengths
      have above : right < left := by
        by_cases below : left ≤ right
        · have atLeast := length_ofNat_mono below
          omega
        · omega
      exact (Nat.compare_eq_gt.mpr above).symm

end Bytes

namespace Varint

def magnitude (value : Int64) : Nat :=
  if 0 ≤ value.toInt then value.toInt.toNat else (-value.toInt - 1).toNat

theorem magnitude_lt (value : Int64) : magnitude value < 0x8000000000000000 := by
  have upper := value.toInt_lt
  have lower := value.le_toInt
  unfold magnitude
  split <;> omega

theorem length_digits_le (value : Int64) : (Bytes.ofNat (magnitude value)).length ≤ 8 := by
  have bounded := magnitude_lt value
  exact Bytes.length_ofNat_le (Nat.lt_trans bounded (by decide))

theorem encode_of_nonneg {value : Int64} (nonneg : 0 ≤ value.toInt) :
    encode value = UInt8.ofNat (0x80 + (Bytes.ofNat (magnitude value)).length) ::
      Bytes.ofNat (magnitude value) := by
  simp only [encode, magnitude, if_pos nonneg]

theorem encode_of_neg {value : Int64} (negative : value.toInt < 0) :
    encode value = UInt8.ofNat (0x7F - (Bytes.ofNat (magnitude value)).length) ::
      Bytes.complement (Bytes.ofNat (magnitude value)) := by
  simp only [encode, magnitude, if_neg (Int.not_le.mpr negative)]

theorem length_encode (value : Int64) :
    (encode value).length = 1 + (Bytes.ofNat (magnitude value)).length := by
  by_cases nonneg : 0 ≤ value.toInt
  · rw [encode_of_nonneg nonneg, List.length_cons, Nat.add_comm]
  · rw [encode_of_neg (by omega), List.length_cons, Bytes.length_complement, Nat.add_comm]

/-- The bytes of a number whose payload has a width, which may be more than its significant bytes. -/
def spell (width : Nat) (value : Int64) : Bytes :=
  let payload := Bytes.ofNatWidth width (magnitude value)
  if 0 ≤ value.toInt then UInt8.ofNat (0x80 + width) :: payload
  else UInt8.ofNat (0x7F - width) :: Bytes.complement payload

theorem encode_eq_spell (value : Int64) :
    encode value = spell (Bytes.ofNat (magnitude value)).length value := by
  unfold spell
  rw [Bytes.ofNatWidth_length_ofNat]
  split
  · rename_i nonneg
    exact encode_of_nonneg nonneg
  · rename_i negative
    exact encode_of_neg (by omega)

@[simp] theorem length_spell (width : Nat) (value : Int64) :
    (spell width value).length = width + 1 := by
  unfold spell
  split <;> simp

structure Spells (value : Int64) (bytes : Bytes) : Prop where
  sized : headerSize (bytes.headD 0) = .ok bytes.length
  decoded : decode? (bytes.headD 0) bytes.tail = some value

theorem headerSize_eq_ok {header : UInt8} {size : Nat} :
    headerSize header = .ok size ↔ payloadSize header ≤ 8 ∧ size = 1 + payloadSize header := by
  unfold headerSize
  split
  · rename_i short
    simp only [Except.ok.injEq, short, true_and]
    exact eq_comm
  · rename_i long
    simp [long]

theorem spells_spell {width : Nat} {value : Int64} (within : width ≤ 8)
    (wide : (Bytes.ofNat (magnitude value)).length ≤ width) : Spells value (spell width value) := by
  have bounded := magnitude_lt value
  have whole : Bytes.toNat (Bytes.ofNatWidth width (magnitude value)) = magnitude value := by
    have small := Bytes.toNat_lt (Bytes.ofNat (magnitude value))
    rw [Bytes.toNat_ofNat] at small
    have monotone : Nat.pow 256 (Bytes.ofNat (magnitude value)).length ≤ Nat.pow 256 width :=
      Nat.pow_le_pow_right (by decide) wide
    rw [Bytes.toNat_ofNatWidth, Nat.mod_eq_of_lt (by omega)]
  unfold spell
  split
  · rename_i nonneg
    have header : (UInt8.ofNat (0x80 + width)).toNat = 0x80 + width := by
      rw [UInt8.toNat_ofNat']
      omega
    have number : (magnitude value : Int) = value.toInt := by
      rw [magnitude, if_pos nonneg]
      omega
    constructor
    · rw [List.headD_cons, headerSize_eq_ok, payloadSize, header, if_pos (by omega)]
      simp only [List.length_cons, Bytes.length_ofNatWidth]
      omega
    · rw [List.headD_cons, List.tail_cons, decode?, header, if_pos (by omega)]
      simp only [whole, if_pos bounded, number, Int64.ofInt_toInt]
  · rename_i negative
    have header : (UInt8.ofNat (0x7F - width)).toNat = 0x7F - width := by
      rw [UInt8.toNat_ofNat']
      omega
    have number : -(magnitude value : Int) - 1 = value.toInt := by
      rw [magnitude, if_neg negative]
      omega
    constructor
    · rw [List.headD_cons, headerSize_eq_ok, payloadSize, header, if_neg (by omega)]
      simp only [List.length_cons, Bytes.length_complement, Bytes.length_ofNatWidth]
      omega
    · rw [List.headD_cons, List.tail_cons, decode?, header, if_neg (by omega)]
      simp only [Bytes.complement_complement, whole, if_pos bounded, number, Int64.ofInt_toInt]

theorem encode_spells (value : Int64) : Spells value (encode value) := by
  rw [encode_eq_spell]
  exact spells_spell (length_digits_le value) (Nat.le_refl _)

namespace Spells

variable {value : Int64} {bytes : Bytes}

theorem exists_spell (spells : Spells value bytes) :
    ∃ width, width ≤ 8 ∧ (Bytes.ofNat (magnitude value)).length ≤ width ∧
      bytes = spell width value := by
  obtain ⟨sized, decoded⟩ := spells
  rw [headerSize_eq_ok] at sized
  cases bytes with
  | nil => simp [payloadSize] at sized
  | cons header payload =>
      rw [List.headD_cons, List.length_cons] at sized
      rw [List.headD_cons, List.tail_cons, decode?] at decoded
      have bound := header.toNat_lt
      have width : payload.length = payloadSize header := by omega
      refine ⟨payload.length, by omega, ?_⟩
      by_cases high : 0x80 ≤ header.toNat
      · rw [payloadSize, if_pos high] at width
        rw [if_pos high] at decoded
        simp only [Option.ite_none_right_eq_some, Option.some.injEq] at decoded
        obtain ⟨small, rfl⟩ := decoded
        have number : (Int64.ofInt (Bytes.toNat payload)).toInt = Bytes.toNat payload :=
          Int64.toInt_ofInt_of_le (by omega) (by omega)
        have nonneg : 0 ≤ (Int64.ofInt (Bytes.toNat payload)).toInt := by omega
        have digits : magnitude (Int64.ofInt (Bytes.toNat payload)) = Bytes.toNat payload := by
          rw [magnitude, if_pos nonneg, number, Int.toNat_natCast]
        have lead : UInt8.ofNat (0x80 + payload.length) = header := by
          rw [width, Nat.add_sub_cancel' high, UInt8.ofNat_toNat]
        rw [spell, if_pos nonneg, digits, Bytes.ofNatWidth_toNat, lead]
        exact ⟨Bytes.length_ofNat_toNat_le payload, rfl⟩
      · rw [payloadSize, if_neg high] at width
        rw [if_neg high] at decoded
        simp only [Option.ite_none_right_eq_some, Option.some.injEq] at decoded
        obtain ⟨small, rfl⟩ := decoded
        generalize turned : Bytes.complement payload = digits at small
        have same : payload = Bytes.complement digits := by
          rw [← turned, Bytes.complement_complement]
        have sameLength : payload.length = digits.length := by
          rw [same, Bytes.length_complement]
        have number : (Int64.ofInt (-(Bytes.toNat digits : Int) - 1)).toInt =
            -(Bytes.toNat digits : Int) - 1 := Int64.toInt_ofInt_of_le (by omega) (by omega)
        have negative : ¬0 ≤ (Int64.ofInt (-(Bytes.toNat digits : Int) - 1)).toInt := by omega
        have magnitudeEq : magnitude (Int64.ofInt (-(Bytes.toNat digits : Int) - 1)) =
            Bytes.toNat digits := by
          rw [magnitude, if_neg negative, number]
          omega
        have lead : UInt8.ofNat (0x7F - digits.length) = header := by
          rw [← sameLength, width, show 0x7F - (0x7F - header.toNat) = header.toNat by omega,
            UInt8.ofNat_toNat]
        rw [sameLength, spell, if_neg negative, magnitudeEq, Bytes.ofNatWidth_toNat, lead, ← same]
        exact ⟨Bytes.length_ofNat_toNat_le digits, rfl⟩

theorem length_encode_le (spells : Spells value bytes) : (encode value).length ≤ bytes.length := by
  obtain ⟨width, _, wide, rfl⟩ := spells.exists_spell
  rw [length_encode, length_spell]
  omega

theorem eq_encode (spells : Spells value bytes) (same : bytes.length = (encode value).length) :
    bytes = encode value := by
  obtain ⟨width, _, wide, rfl⟩ := spells.exists_spell
  rw [encode_eq_spell, length_spell, length_spell] at same
  rw [encode_eq_spell, Nat.succ.inj same]

end Spells

section Reading

variable {buffer : Bytes} {offset size limit : Nat}

theorem sizeAt_eq_ok : sizeAt buffer offset = .ok size ↔
    ∃ bytes, Bytes.At buffer offset bytes ∧ bytes.length = size ∧
      headerSize (bytes.headD 0) = .ok size := by
  constructor
  · intro found
    unfold sizeAt at found
    split at found
    · cases found
    · rename_i header first
      obtain ⟨announced, sized, found⟩ := bind_eq_ok.mp found
      split at found
      · cases found
      · rename_i reaches
        cases found
        obtain ⟨inside, rfl⟩ := List.getElem?_eq_some_iff.mp first
        have reaches := Nat.not_lt.mp reaches
        refine ⟨_, Bytes.at_take_drop reaches, Bytes.length_take_drop reaches, ?_⟩
        obtain ⟨_, rfl⟩ := headerSize_eq_ok.mp sized
        rw [List.drop_eq_getElem_cons inside, Nat.add_comm, List.take_succ_cons, List.headD_cons,
          Nat.add_comm]
        exact sized
  · rintro ⟨bytes, stands, rfl, sized⟩
    have reaches := stands.reaches
    obtain ⟨before, after, rfl, rfl⟩ := stands
    cases bytes with
    | nil => simp [headerSize_eq_ok, payloadSize] at sized
    | cons header payload =>
        have found : (before ++ header :: payload ++ after)[before.length]? = some header := by simp
        rw [List.headD_cons] at sized
        rw [sizeAt, found]
        simp only [sized, ok_bind, if_neg (Nat.not_lt.mpr reaches)]
        rfl

theorem read_eq_ok {value : Int64} : read buffer offset = .ok (value, size) ↔
    ∃ bytes, Bytes.At buffer offset bytes ∧ bytes.length = size ∧ Spells value bytes := by
  unfold read
  constructor
  · intro found
    obtain ⟨announced, sized, found⟩ := bind_eq_ok.mp found
    obtain ⟨bytes, stands, rfl, sized⟩ := sizeAt_eq_ok.mp sized
    rw [stands.take_drop] at found
    dsimp only at found
    split at found
    · rename_i decoded
      cases found
      exact ⟨bytes, stands, rfl, sized, decoded⟩
    · cases found
  · rintro ⟨bytes, stands, rfl, sized, decoded⟩
    rw [sizeAt_eq_ok.mpr ⟨bytes, stands, rfl, sized⟩, ok_bind, stands.take_drop]
    simp only [decoded, pure_eq_ok]

theorem readInt32_eq_ok {number : Int32} : readInt32 buffer offset = .ok (number, size) ↔
    ∃ bytes, Bytes.At buffer offset bytes ∧ bytes.length = size ∧ Spells number.toInt64 bytes := by
  rw [← read_eq_ok, readInt32]
  constructor
  · intro found
    obtain ⟨⟨value, announced⟩, done, found⟩ := bind_eq_ok.mp found
    dsimp only at found
    split at found
    · rename_i inside
      cases found
      have same : value.toInt32.toInt64 = value := by
        apply Int64.toInt_inj.mp
        rw [Int32.toInt_toInt64, Int64.toInt_toInt32]
        exact Int.bmod_eq_of_le (by omega) (by omega)
      rw [same]
      exact done
    · cases found
  · intro done
    have upper := number.toInt_lt
    have lower := number.le_toInt
    have inside : -0x80000000 ≤ number.toInt64.toInt ∧ number.toInt64.toInt < 0x80000000 := by
      rw [Int32.toInt_toInt64]
      omega
    rw [done, ok_bind]
    simp only [if_pos inside, Int32.toInt32_toInt64, pure_eq_ok]

theorem toInt_ofNat {number : Nat} (bounded : number < 0x8000000000000000) :
    (Int64.ofNat number).toInt = number :=
  Int64.toInt_ofNat_of_lt (by omega)

theorem ofNat_toNat_toInt {value : Int64} (nonneg : 0 ≤ value.toInt) :
    Int64.ofNat value.toInt.toNat = value := by
  have upper := value.toInt_lt
  apply Int64.toInt_inj.mp
  rw [toInt_ofNat (by omega), Int.toNat_of_nonneg nonneg]

structure SpellsSize (number : Nat) (bytes : Bytes) : Prop where
  fits : number < 0x8000000000000000
  spells : Spells (Int64.ofNat number) bytes

theorem readSize_eq_ok {number : Nat} : readSize buffer offset limit = .ok (number, size) ↔
    ∃ bytes, Bytes.At buffer offset bytes ∧ bytes.length = size ∧ SpellsSize number bytes ∧
      number ≤ limit := by
  unfold readSize
  constructor
  · intro found
    obtain ⟨⟨value, announced⟩, done, found⟩ := bind_eq_ok.mp found
    dsimp only at found
    split at found
    · rename_i inside
      cases found
      obtain ⟨bytes, stands, sized, spells⟩ := read_eq_ok.mp done
      have upper := value.toInt_lt
      refine ⟨bytes, stands, sized, ⟨by omega, ?_⟩, by omega⟩
      rw [ofNat_toNat_toInt inside.1]
      exact spells
    · cases found
  · rintro ⟨bytes, stands, sized, ⟨fits, spells⟩, within⟩
    have number := toInt_ofNat fits
    rw [read_eq_ok.mpr ⟨bytes, stands, sized, spells⟩, ok_bind]
    simp only [number]
    rw [if_pos (by omega), Int.toNat_natCast, pure_eq_ok]

theorem readSourceId_eq_ok {id : SourceId} : readSourceId buffer offset = .ok (id, size) ↔
    ∃ bytes, Bytes.At buffer offset bytes ∧ bytes.length = size ∧
      SpellsSize id.number.toNat bytes := by
  unfold readSourceId
  constructor
  · intro found
    obtain ⟨⟨value, announced⟩, done, found⟩ := bind_eq_ok.mp found
    dsimp only at found
    split at found
    · rename_i inside
      cases found
      obtain ⟨bytes, stands, sized, spells⟩ := read_eq_ok.mp done
      have same : (UInt32.ofNat value.toInt.toNat).toNat = value.toInt.toNat := by
        rw [UInt32.toNat_ofNat']
        omega
      refine ⟨bytes, stands, sized, ?_⟩
      rw [same]
      refine ⟨by omega, ?_⟩
      rw [ofNat_toNat_toInt inside.1]
      exact spells
    · cases found
  · rintro ⟨bytes, stands, sized, ⟨fits, spells⟩⟩
    have upper := id.number.toNat_lt
    have number := toInt_ofNat fits
    rw [read_eq_ok.mpr ⟨bytes, stands, sized, spells⟩, ok_bind]
    simp only [number]
    rw [if_pos (by omega), Int.toNat_natCast, UInt32.ofNat_toNat, pure_eq_ok]

end Reading

variable (before after : Bytes)

theorem at_encode (value : Int64) :
    Bytes.At (before ++ encode value ++ after) before.length (encode value) :=
  ⟨before, after, rfl, rfl⟩

theorem read_encode (value : Int64) :
    read (before ++ encode value ++ after) before.length =
      .ok (value, (encode value).length) :=
  read_eq_ok.mpr ⟨_, at_encode before after value, rfl, encode_spells value⟩

theorem encode_spellsSize {number : Nat} (bounded : number < 0x8000000000000000) :
    SpellsSize number (encode (Int64.ofNat number)) :=
  ⟨bounded, encode_spells _⟩

theorem readSize_encode_of_gt {size limit : Nat} (bounded : size < 0x8000000000000000)
    (long : limit < size) :
    readSize (before ++ encode (Int64.ofNat size) ++ after) before.length limit =
      .error (.codec (.lengthOutside (Int64.ofNat size) before.length limit)) := by
  have outside : ¬(0 ≤ (Int64.ofNat size).toInt ∧ (Int64.ofNat size).toInt ≤ limit) := by
    rw [toInt_ofNat bounded]
    omega
  simp only [readSize, read_encode before after, bind, Except.bind, if_neg outside]
  rfl

theorem sourceId_spellsSize (id : SourceId) : SpellsSize id.number.toNat (encodeSourceId id) := by
  have upper := id.number.toNat_lt
  exact encode_spellsSize (by omega)

theorem readSourceId_encode (id : SourceId) :
    readSourceId (before ++ encodeSourceId id ++ after) before.length =
      .ok (id, (encodeSourceId id).length) :=
  readSourceId_eq_ok.mpr ⟨_, at_encode before after _, rfl, sourceId_spellsSize id⟩

theorem order_encode (left right : Int64) :
    Bytes.order (encode left) (encode right) = compare left.toInt right.toInt := by
  have leftDigits := length_digits_le left
  have rightDigits := length_digits_le right
  have payloads := Bytes.compare_length_then_order (magnitude left) (magnitude right)
  by_cases leftNonneg : 0 ≤ left.toInt <;> by_cases rightNonneg : 0 ≤ right.toInt
  · rw [encode_of_nonneg leftNonneg, encode_of_nonneg rightNonneg, Bytes.order]
    have headers : compare (UInt8.ofNat (0x80 + (Bytes.ofNat (magnitude left)).length)).toNat
        (UInt8.ofNat (0x80 + (Bytes.ofNat (magnitude right)).length)).toNat =
        compare (Bytes.ofNat (magnitude left)).length (Bytes.ofNat (magnitude right)).length := by
      rw [UInt8.toNat_ofNat', UInt8.toNat_ofNat']
      exact compare_congr (by omega) (by omega)
    rw [headers, payloads]
    simp only [magnitude, if_pos leftNonneg, if_pos rightNonneg]
    exact compare_congr (by omega) (by omega)
  · rw [encode_of_nonneg leftNonneg, encode_of_neg (by omega), Bytes.order]
    have headers : compare (UInt8.ofNat (0x80 + (Bytes.ofNat (magnitude left)).length)).toNat
        (UInt8.ofNat (0x7F - (Bytes.ofNat (magnitude right)).length)).toNat = .gt := by
      rw [UInt8.toNat_ofNat', UInt8.toNat_ofNat', Nat.compare_eq_gt]
      omega
    rw [headers, Ordering.gt_then]
    exact (Std.compare_eq_gt.mpr (by omega)).symm
  · rw [encode_of_neg (by omega), encode_of_nonneg rightNonneg, Bytes.order]
    have headers : compare (UInt8.ofNat (0x7F - (Bytes.ofNat (magnitude left)).length)).toNat
        (UInt8.ofNat (0x80 + (Bytes.ofNat (magnitude right)).length)).toNat = .lt := by
      rw [UInt8.toNat_ofNat', UInt8.toNat_ofNat', Nat.compare_eq_lt]
      omega
    rw [headers, Ordering.lt_then]
    exact (Std.compare_eq_lt.mpr (by omega)).symm
  · rw [encode_of_neg (by omega), encode_of_neg (by omega), Bytes.order]
    have headers : compare (UInt8.ofNat (0x7F - (Bytes.ofNat (magnitude left)).length)).toNat
        (UInt8.ofNat (0x7F - (Bytes.ofNat (magnitude right)).length)).toNat =
        compare (Bytes.ofNat (magnitude right)).length (Bytes.ofNat (magnitude left)).length := by
      rw [UInt8.toNat_ofNat', UInt8.toNat_ofNat']
      exact compare_congr (by omega) (by omega)
    have turned := Bytes.compare_length_then_order (magnitude right) (magnitude left)
    have numbers : compare (magnitude right) (magnitude left) =
        compare left.toInt right.toInt := by
      simp only [magnitude, if_neg leftNonneg, if_neg rightNonneg]
      exact compare_congr (by omega) (by omega)
    rw [headers, ← numbers, ← turned]
    -- Payloads of different lengths are never compared, so turning over acts on equal lengths only.
    cases lengths : compare (Bytes.ofNat (magnitude right)).length
        (Bytes.ofNat (magnitude left)).length with
    | lt => rfl
    | gt => rfl
    | eq =>
        have sameLength := Nat.compare_eq_eq.mp lengths
        rw [Ordering.eq_then, Ordering.eq_then, Bytes.order_complement sameLength.symm]

end Varint

end Cogrouping
