import Cogrouping.Proofs.Wire.Varint

/-!
Integers of varying length inside of longer byte strings. The first byte of an integer says where it ends, so
two integers are told apart before either ends, and what is behind them counts only if they are the same.
-/

namespace Cogrouping.Varint

/-- Bytes that say their length in front are compared first, and then what is behind them. -/
theorem order_append_of_headerSize {left right : Bytes}
    (leftSized : headerSize (left.headD 0) = .ok left.length)
    (rightSized : headerSize (right.headD 0) = .ok right.length) (leftBehind rightBehind : Bytes) :
    Bytes.order (left ++ leftBehind) (right ++ rightBehind) =
      (Bytes.order left right).then (Bytes.order leftBehind rightBehind) := by
  by_cases sameLength : left.length = right.length
  · exact Bytes.order_append_right sameLength leftBehind rightBehind
  · cases left with
    | nil => simp [headerSize_eq_ok, payloadSize] at leftSized
    | cons leftHeader leftPayload =>
        cases right with
        | nil => simp [headerSize_eq_ok, payloadSize] at rightSized
        | cons rightHeader rightPayload =>
            have apart : compare leftHeader.toNat rightHeader.toNat ≠ .eq := by
              intro same
              rw [UInt8.toNat_inj.mp (Nat.compare_eq_eq.mp same)] at leftSized
              exact sameLength (Except.ok.inj (leftSized.symm.trans rightSized))
            rw [List.cons_append, List.cons_append, Bytes.order, Bytes.order]
            cases order : compare leftHeader.toNat rightHeader.toNat with
            | eq => exact absurd order apart
            | lt => rfl
            | gt => rfl

theorem order_encode_append (left right : Int64) (leftBehind rightBehind : Bytes) :
    Bytes.order (encode left ++ leftBehind) (encode right ++ rightBehind) =
      (compare left.toInt right.toInt).then (Bytes.order leftBehind rightBehind) := by
  rw [order_append_of_headerSize (encode_spells left).sized (encode_spells right).sized, order_encode]

theorem toInt_toInt32_of_fits {value : Int64}
    (fits : -0x80000000 ≤ value.toInt ∧ value.toInt < 0x80000000) :
    value.toInt32.toInt = value.toInt := by
  rw [Int64.toInt_toInt32]
  exact Int.bmod_eq_of_le (by omega) (by omega)

section Reading

variable {before after : Bytes} {value : Int64} {size : Nat}

theorem readInt32_encode_eq_ok {number : Int32} :
    readInt32 (before ++ encode value ++ after) before.length = .ok (number, size) ↔
      number.toInt = value.toInt ∧ size = (encode value).length := by
  have upper := number.toInt_lt
  have lower := number.le_toInt
  rw [readInt32, read_encode, ok_bind]
  dsimp only
  split
  · rename_i fits
    rw [pure_eq_ok, Except.ok.injEq, Prod.mk.injEq, ← Int32.toInt_inj, toInt_toInt32_of_fits fits,
      eq_comm, eq_comm (a := size)]
  · rename_i wide
    simp only [throw_eq_error, reduceCtorEq, false_iff, not_and]
    intro same
    omega

theorem exists_readInt32_encode_iff :
    (∃ result, readInt32 (before ++ encode value ++ after) before.length = .ok result) ↔
      -0x80000000 ≤ value.toInt ∧ value.toInt < 0x80000000 := by
  constructor
  · rintro ⟨⟨number, size⟩, found⟩
    obtain ⟨same, _⟩ := readInt32_encode_eq_ok.mp found
    have upper := number.toInt_lt
    have lower := number.le_toInt
    omega
  · intro fits
    exact ⟨(value.toInt32, _), readInt32_encode_eq_ok.mpr ⟨toInt_toInt32_of_fits fits, rfl⟩⟩

variable {limit : Nat}

theorem readSize_encode_eq_ok {number : Nat} :
    readSize (before ++ encode value ++ after) before.length limit = .ok (number, size) ↔
      (number : Int) = value.toInt ∧ number ≤ limit ∧ size = (encode value).length := by
  rw [readSize, read_encode, ok_bind]
  dsimp only
  split
  · rename_i inside
    rw [pure_eq_ok, Except.ok.injEq, Prod.mk.injEq]
    omega
  · rename_i outside
    simp only [throw_eq_error, reduceCtorEq, false_iff, not_and]
    intro same
    omega

theorem exists_readSize_encode_iff :
    (∃ result, readSize (before ++ encode value ++ after) before.length limit = .ok result) ↔
      0 ≤ value.toInt ∧ value.toInt ≤ limit := by
  constructor
  · rintro ⟨⟨number, size⟩, found⟩
    obtain ⟨same, short, _⟩ := readSize_encode_eq_ok.mp found
    omega
  · intro inside
    exact ⟨(value.toInt.toNat, _),
      readSize_encode_eq_ok.mpr ⟨Int.toNat_of_nonneg inside.1, by omega, rfl⟩⟩

end Reading

/-- The bytes of integers have the order of the numbers, whatever follows them; and wherever they stand an
integer is read from them, with their length, by every reader whose bounds it keeps. -/
theorem encode_delimited_ordered (value : Int64) :
    (∀ other behind otherBehind,
      Bytes.order (encode value) (encode other) = compare value.toInt other.toInt ∧
      Bytes.order (encode value ++ behind) (encode other ++ otherBehind) =
        (compare value.toInt other.toInt).then (Bytes.order behind otherBehind)) ∧
    1 ≤ (encode value).length ∧ (encode value).length ≤ maxSize ∧
    headerSize ((encode value).headD 0) = .ok (encode value).length ∧
    ∀ before after,
      sizeAt (before ++ encode value ++ after) before.length = .ok (encode value).length ∧
      read (before ++ encode value ++ after) before.length = .ok (value, (encode value).length) ∧
      (∀ number size,
        readInt32 (before ++ encode value ++ after) before.length = .ok (number, size) ↔
          number.toInt = value.toInt ∧ size = (encode value).length) ∧
      ((∃ result, readInt32 (before ++ encode value ++ after) before.length = .ok result) ↔
        -0x80000000 ≤ value.toInt ∧ value.toInt < 0x80000000) ∧
      ∀ limit : Nat,
        (∀ number size,
          readSize (before ++ encode value ++ after) before.length limit = .ok (number, size) ↔
            (number : Int) = value.toInt ∧ number ≤ limit ∧ size = (encode value).length) ∧
        ((∃ result, readSize (before ++ encode value ++ after) before.length limit = .ok result) ↔
          0 ≤ value.toInt ∧ value.toInt ≤ limit) := by
  have digits := length_digits_le value
  have sized := length_encode value
  have spells := encode_spells value
  refine ⟨fun other behind otherBehind => ⟨order_encode value other,
    order_encode_append value other behind otherBehind⟩, by omega, ?_, spells.sized, ?_⟩
  · rw [maxSize]
    omega
  · intro before after
    refine ⟨?_, read_encode before after value, ?_, exists_readInt32_encode_iff, fun limit => ?_⟩
    · exact sizeAt_eq_ok.mpr ⟨_, at_encode before after value, rfl, spells.sized⟩
    · exact fun number size => readInt32_encode_eq_ok
    · exact ⟨fun number size => readSize_encode_eq_ok, exists_readSize_encode_iff⟩

end Cogrouping.Varint
