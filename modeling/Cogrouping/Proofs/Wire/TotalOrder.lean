import Cogrouping.Proofs.Wire.OrderedFloat

/-!
The bytes of floating-point numbers as an isomorphism of orders. The total order of a format is that of
signed integers once the bits below the sign of every negative pattern are turned over; the bytes of the
patterns have the same order, and every string of as many bytes belongs to one pattern.
-/

namespace Cogrouping

namespace Decimal

section Signed

variable {w : Nat} {bits : BitVec (w + 1)}

def turnNegative (bits : BitVec (w + 1)) : BitVec (w + 1) := bits ^^^ (bits.sshiftRight w >>> 1)

theorem ushiftRight_sign (positive : bits.toNat < 2 ^ w) : bits >>> w = 0#(w + 1) := by
  apply BitVec.eq_of_toNat_eq
  rw [BitVec.toNat_ushiftRight, Nat.shiftRight_eq_div_pow, Nat.div_eq_of_lt positive]
  rfl

theorem allOnes_ushiftRight_one :
    BitVec.allOnes (w + 1) >>> 1 = ~~~BitVec.intMin (w + 1) := by
  have double : 2 ^ (w + 1) = 2 * 2 ^ w := Nat.pow_succ'
  apply BitVec.eq_of_toNat_eq
  rw [BitVec.toNat_ushiftRight, BitVec.toNat_allOnes, BitVec.toNat_not,
    BitVec.toNat_intMin_of_pos (by omega), Nat.shiftRight_eq_div_pow, Nat.add_sub_cancel]
  omega

theorem turnNegative_of_lt (positive : bits.toNat < 2 ^ w) : turnNegative bits = bits := by
  have sign : bits.msb = false :=
    Bool.eq_false_iff.mpr (mt (OrderedFloat.msb_iff bits).mp (Nat.not_le.mpr positive))
  rw [turnNegative, BitVec.sshiftRight_eq_of_msb_false sign, ushiftRight_sign positive,
    BitVec.zero_ushiftRight, BitVec.xor_zero]

theorem turnNegative_of_le (negative : 2 ^ w ≤ bits.toNat) :
    turnNegative bits = ~~~(bits ^^^ BitVec.intMin (w + 1)) := by
  have sign : bits.msb = true := (OrderedFloat.msb_iff bits).mpr negative
  have double : 2 ^ (w + 1) = 2 * 2 ^ w := Nat.pow_succ'
  have below : (~~~bits).toNat < 2 ^ w := by
    rw [BitVec.toNat_not]
    omega
  rw [turnNegative, BitVec.sshiftRight_eq_of_msb_true sign, ushiftRight_sign below, BitVec.not_zero,
    allOnes_ushiftRight_one, BitVec.not_xor_right]

theorem toInt_turnNegative (bits : BitVec (w + 1)) : (turnNegative bits).toInt =
    if bits.toNat < 2 ^ w then (bits.toNat : Int)
    else ((2 ^ w : Nat) : Int) - 1 - (bits.toNat : Int) := by
  have bound := bits.isLt
  have double : 2 ^ (w + 1) = 2 * 2 ^ w := Nat.pow_succ'
  by_cases positive : bits.toNat < 2 ^ w
  · rw [turnNegative_of_lt positive, if_pos positive, BitVec.toInt_eq_toNat_cond, if_pos (by omega)]
  · have turned : bits.toNat ^^^ 2 ^ w = _ := OrderedFloat.xor_sign (by omega)
    rw [if_neg positive] at turned
    rw [turnNegative_of_le (by omega), if_neg positive, BitVec.toInt_eq_toNat_cond, BitVec.toNat_not,
      BitVec.toNat_xor, BitVec.toNat_intMin_of_pos (by omega), Nat.add_sub_cancel, turned, double]
    generalize 2 ^ w = sign at *
    split <;> omega

end Signed

theorem Format.rank_eq {format : Format} {bits : Nat} (bounded : bits < 2 * format.signBit) :
    format.rank bits = if bits < format.signBit then (bits : Int)
      else (format.signBit : Int) - 1 - (bits : Int) := by
  rw [rank_eq_place bounded, place]
  split <;> omega

/-- The pattern as a signed integer, with all bits but the sign turned over if it is negative. -/
def Binary64.signed (number : Binary64) : Int64 :=
  let bits := number.bits.toInt64
  bits ^^^ ((bits >>> 63).toUInt64 >>> 1).toInt64

def Binary32.signed (number : Binary32) : Int32 :=
  let bits := number.bits.toInt32
  bits ^^^ ((bits >>> 31).toUInt32 >>> 1).toInt32

theorem Binary64.toInt_signed (number : Binary64) :
    number.signed.toInt = Format.double.rank number.bits.toNat := by
  have bound := number.bits.toNat_lt
  have sign : Format.double.signBit = 2 ^ 63 := rfl
  rw [Format.rank_eq (by omega), sign]
  exact toInt_turnNegative number.bits.toBitVec

theorem Binary32.toInt_signed (number : Binary32) :
    number.signed.toInt = Format.single.rank number.bits.toNat := by
  have bound := number.bits.toNat_lt
  have sign : Format.single.signBit = 2 ^ 31 := rfl
  rw [Format.rank_eq (by omega), sign]
  exact toInt_turnNegative number.bits.toBitVec

end Decimal

namespace OrderedFloat

open Decimal

/-- Numbers and their bytes correspond one to one, and both have the total order of the format, which is the
order of the signed patterns. -/
theorem total_order_isomorphism :
    ((∀ left right : Binary64,
        Bytes.order (encode64 left) (encode64 right) = left.totalOrder right ∧
        left.totalOrder right = compare left.signed.toInt right.signed.toInt) ∧
      (∀ number : Binary64, (encode64 number).length = 8 ∧ decode64 (encode64 number) = number) ∧
      ∀ bytes : Vector UInt8 8, encode64 (decode64 bytes.toList) = bytes.toList) ∧
    ((∀ left right : Binary32,
        Bytes.order (encode32 left) (encode32 right) = left.totalOrder right ∧
        left.totalOrder right = compare left.signed.toInt right.signed.toInt) ∧
      (∀ number : Binary32, (encode32 number).length = 4 ∧ decode32 (encode32 number) = number) ∧
      ∀ bytes : Vector UInt8 4, encode32 (decode32 bytes.toList) = bytes.toList) := by
  refine ⟨⟨fun left right => ⟨order_encode64 left right, ?_⟩, fun number => ?_, fun bytes => ?_⟩,
    ⟨fun left right => ⟨order_encode32 left right, ?_⟩, fun number => ?_, fun bytes => ?_⟩⟩
  · rw [Binary64.totalOrder, left.toInt_signed, right.toInt_signed]
  · exact ⟨length_encode64 number, decode64_encode64 number⟩
  · exact encode64_decode64 bytes.length_toList
  · rw [Binary32.totalOrder, left.toInt_signed, right.toInt_signed]
  · exact ⟨length_encode32 number, decode32_encode32 number⟩
  · exact encode32_decode32 bytes.length_toList

end OrderedFloat

end Cogrouping
