import Cogrouping.Proofs.Bytes
import Cogrouping.Wire.OrderedFloat
import Mathlib.Algebra.Ring.Nat

/-!
Laws of the order-preserving bytes of floating-point numbers: they are ordered as the bit patterns are
in the total order of their format, and every pattern is read back.
-/

namespace Cogrouping

namespace Decimal.Format

variable (format : Format)

/-- The place of a pattern in the total order, counted from the least pattern. -/
def place (bits : Nat) : Nat :=
  if bits < format.signBit then bits + format.signBit else 2 * format.signBit - 1 - bits

variable {format}

theorem rank_eq_place {bits : Nat} (bounded : bits < 2 * format.signBit) :
    format.rank bits = (format.place bits : Int) - format.signBit := by
  by_cases positive : bits < format.signBit
  · have isPositive : format.isNegative bits = false := by
      simp [isNegative, positive]
    simp only [rank, place, magnitude, isPositive, if_pos positive, Nat.mod_eq_of_lt positive]
    simp
  · have isNegative : format.isNegative bits = true := by
      simp only [isNegative, decide_eq_true_eq]
      omega
    have magnitudeEq : bits % format.signBit = bits - format.signBit := by
      rw [Nat.mod_eq_sub_mod (by omega), Nat.mod_eq_of_lt (by omega)]
    simp only [rank, place, magnitude, isNegative, if_neg positive, magnitudeEq, if_true]
    omega

theorem compare_place {left right : Nat} (leftBounded : left < 2 * format.signBit)
    (rightBounded : right < 2 * format.signBit) :
    compare (format.place left) (format.place right) =
      compare (format.rank left) (format.rank right) := by
  rw [rank_eq_place leftBounded, rank_eq_place rightBounded]
  exact compare_congr (by omega) (by omega)

end Decimal.Format

namespace OrderedFloat

open Decimal

theorem xor_sign {bits w : Nat} (bounded : bits < 2 * 2 ^ w) :
    bits ^^^ 2 ^ w = if bits < 2 ^ w then bits + 2 ^ w else bits - 2 ^ w := by
  have positive : 0 < 2 ^ w := Nat.two_pow_pos w
  have high : (bits ^^^ 2 ^ w) / 2 ^ w = bits / 2 ^ w ^^^ 1 := by
    rw [Nat.xor_div_two_pow, Nat.div_self positive]
  have low : (bits ^^^ 2 ^ w) % 2 ^ w = bits % 2 ^ w := by
    rw [Nat.xor_mod_two_pow, Nat.mod_self, Nat.xor_zero]
  have whole := Nat.div_add_mod (bits ^^^ 2 ^ w) (2 ^ w)
  rw [high, low] at whole
  by_cases below : bits < 2 ^ w
  · rw [Nat.div_eq_of_lt below, Nat.mod_eq_of_lt below, Nat.zero_xor, Nat.mul_one] at whole
    rw [if_pos below]
    omega
  · have one : bits / 2 ^ w = 1 := by
      rw [Nat.div_eq_iff positive]
      omega
    rw [one, Nat.xor_self, Nat.mul_zero, Nat.zero_add, Nat.mod_eq_sub_mod (by omega),
      Nat.mod_eq_of_lt (by omega)] at whole
    rw [if_neg below, whole]

section Turned

variable {w : Nat}

def turn (bits : BitVec (w + 1)) : BitVec (w + 1) :=
  if bits.msb = true then ~~~bits else bits ^^^ BitVec.intMin (w + 1)

def turnBack (bits : BitVec (w + 1)) : BitVec (w + 1) :=
  if bits.msb = true then bits ^^^ BitVec.intMin (w + 1) else ~~~bits

theorem msb_xor_intMin (bits : BitVec (w + 1)) :
    (bits ^^^ BitVec.intMin (w + 1)).msb = !bits.msb := by
  simp [BitVec.msb_xor, BitVec.msb_intMin]

theorem msb_complement (bits : BitVec (w + 1)) : (~~~bits).msb = !bits.msb := by
  simp [BitVec.msb_not]

theorem turnBack_turn (bits : BitVec (w + 1)) : turnBack (turn bits) = bits := by
  by_cases sign : bits.msb = true
  · rw [turn, if_pos sign, turnBack, msb_complement, sign, if_neg (by simp), BitVec.not_not]
  · rw [turn, if_neg sign, turnBack, msb_xor_intMin, Bool.eq_false_iff.mpr sign, if_pos (by simp),
      BitVec.xor_assoc, BitVec.xor_self, BitVec.xor_zero]

theorem turn_turnBack (bits : BitVec (w + 1)) : turn (turnBack bits) = bits := by
  by_cases sign : bits.msb = true
  · rw [turnBack, if_pos sign, turn, msb_xor_intMin, sign, if_neg (by simp), BitVec.xor_assoc,
      BitVec.xor_self, BitVec.xor_zero]
  · rw [turnBack, if_neg sign, turn, msb_complement, Bool.eq_false_iff.mpr sign, if_pos (by simp),
      BitVec.not_not]

theorem msb_iff (bits : BitVec (w + 1)) : bits.msb = true ↔ 2 ^ w ≤ bits.toNat := by
  rw [BitVec.msb_eq_decide, decide_eq_true_eq, Nat.add_sub_cancel]

theorem toNat_turn {format : Format} (sign : format.signBit = 2 ^ w) (bits : BitVec (w + 1)) :
    (turn bits).toNat = format.place bits.toNat := by
  have bound := bits.isLt
  have double : 2 ^ (w + 1) = 2 * 2 ^ w := Nat.pow_succ'
  rw [turn, Format.place, sign]
  by_cases negative : bits.msb = true
  · have above := (msb_iff bits).mp negative
    rw [if_pos negative, BitVec.toNat_not, if_neg (by omega), double]
  · have below : bits.toNat < 2 ^ w := Nat.not_le.mp (mt (msb_iff bits).mpr negative)
    rw [if_neg negative, BitVec.toNat_xor, BitVec.toNat_intMin_of_pos (by omega), Nat.add_sub_cancel,
      xor_sign (by omega), if_pos below, if_pos below]

variable {size : Nat} (whole : 2 ^ (w + 1) = Nat.pow 256 size)

include whole

theorem toNat_ofNatWidth_toNat (bits : BitVec (w + 1)) :
    Bytes.toNat (Bytes.ofNatWidth size bits.toNat) = bits.toNat := by
  rw [Bytes.toNat_ofNatWidth, ← whole, Nat.mod_eq_of_lt bits.isLt]

theorem order_turn {format : Format} (sign : format.signBit = 2 ^ w) (left right : BitVec (w + 1)) :
    Bytes.order (Bytes.ofNatWidth size (turn left).toNat) (Bytes.ofNatWidth size (turn right).toNat) =
      compare (format.rank left.toNat) (format.rank right.toNat) := by
  have leftBound := left.isLt
  have rightBound := right.isLt
  have double : 2 ^ (w + 1) = 2 * 2 ^ w := Nat.pow_succ'
  rw [Bytes.order_eq_compare_toNat (by simp), toNat_ofNatWidth_toNat whole, toNat_ofNatWidth_toNat whole,
    toNat_turn sign, toNat_turn sign, Format.compare_place (by omega) (by omega)]

theorem turnBack_toNat (bits : BitVec (w + 1)) :
    turnBack (BitVec.ofNat (w + 1) (Bytes.toNat (Bytes.ofNatWidth size (turn bits).toNat))) = bits := by
  rw [toNat_ofNatWidth_toNat whole, BitVec.ofNat_toNat, BitVec.setWidth_eq, turnBack_turn]

theorem ofNatWidth_turn {bytes : Bytes} (sized : bytes.length = size) :
    Bytes.ofNatWidth size (turn (turnBack (BitVec.ofNat (w + 1) (Bytes.toNat bytes)))).toNat = bytes := by
  have bound := Bytes.toNat_lt bytes
  rw [sized, ← whole] at bound
  rw [turn_turnBack, BitVec.toNat_ofNat, Nat.mod_eq_of_lt bound, ← sized, Bytes.ofNatWidth_toNat]

end Turned

theorem shift_sign64 (bits : UInt64) : bits >>> 63 = 1 ↔ bits.toBitVec.msb = true := by
  have bound := bits.toNat_lt
  rw [msb_iff, ← UInt64.toNat_inj, UInt64.toNat_shiftRight]
  simp only [UInt64.reduceToNat, Nat.reduceMod, Nat.shiftRight_eq_div_pow, UInt64.toNat_toBitVec]
  omega

theorem turn64 (bits : UInt64) :
    (if bits >>> 63 = 1 then ~~~bits else bits ^^^ 0x8000000000000000) = ⟨turn bits.toBitVec⟩ := by
  rw [turn]
  by_cases sign : bits >>> 63 = 1
  · rw [if_pos sign, if_pos ((shift_sign64 bits).mp sign)]
    rfl
  · rw [if_neg sign, if_neg (mt (shift_sign64 bits).mpr sign)]
    rfl

theorem turnBack64 (bits : UInt64) :
    (if bits >>> 63 = 1 then bits ^^^ 0x8000000000000000 else ~~~bits) = ⟨turnBack bits.toBitVec⟩ := by
  rw [turnBack]
  by_cases sign : bits >>> 63 = 1
  · rw [if_pos sign, if_pos ((shift_sign64 bits).mp sign)]
    rfl
  · rw [if_neg sign, if_neg (mt (shift_sign64 bits).mpr sign)]
    rfl

theorem encode64_eq (number : Binary64) :
    encode64 number = Bytes.ofNatWidth 8 (turn number.bits.toBitVec).toNat := by
  rw [encode64, turn64]
  rfl

theorem decode64_eq (bytes : Bytes) :
    decode64 bytes = ⟨⟨turnBack (BitVec.ofNat 64 (Bytes.toNat bytes))⟩⟩ :=
  congrArg Binary64.mk (turnBack64 _)

@[simp] theorem length_encode64 (number : Binary64) : (encode64 number).length = 8 :=
  Bytes.length_ofNatWidth _ _

theorem order_encode64 (left right : Binary64) :
    Bytes.order (encode64 left) (encode64 right) = left.totalOrder right := by
  have sign : Format.double.signBit = 2 ^ 63 := rfl
  rw [encode64_eq, encode64_eq]
  exact order_turn (w := 63) rfl sign _ _

theorem decode64_encode64 (number : Binary64) : decode64 (encode64 number) = number := by
  rw [decode64_eq, encode64_eq, turnBack_toNat rfl]

theorem encode64_decode64 {bytes : Bytes} (sized : bytes.length = 8) :
    encode64 (decode64 bytes) = bytes := by
  rw [encode64_eq, decode64_eq]
  exact ofNatWidth_turn rfl sized

theorem shift_sign32 (bits : UInt32) : bits >>> 31 = 1 ↔ bits.toBitVec.msb = true := by
  have bound := bits.toNat_lt
  rw [msb_iff, ← UInt32.toNat_inj, UInt32.toNat_shiftRight]
  simp only [UInt32.reduceToNat, Nat.reduceMod, Nat.shiftRight_eq_div_pow, UInt32.toNat_toBitVec]
  omega

theorem turn32 (bits : UInt32) :
    (if bits >>> 31 = 1 then ~~~bits else bits ^^^ 0x80000000) = ⟨turn bits.toBitVec⟩ := by
  rw [turn]
  by_cases sign : bits >>> 31 = 1
  · rw [if_pos sign, if_pos ((shift_sign32 bits).mp sign)]
    rfl
  · rw [if_neg sign, if_neg (mt (shift_sign32 bits).mpr sign)]
    rfl

theorem turnBack32 (bits : UInt32) :
    (if bits >>> 31 = 1 then bits ^^^ 0x80000000 else ~~~bits) = ⟨turnBack bits.toBitVec⟩ := by
  rw [turnBack]
  by_cases sign : bits >>> 31 = 1
  · rw [if_pos sign, if_pos ((shift_sign32 bits).mp sign)]
    rfl
  · rw [if_neg sign, if_neg (mt (shift_sign32 bits).mpr sign)]
    rfl

theorem encode32_eq (number : Binary32) :
    encode32 number = Bytes.ofNatWidth 4 (turn number.bits.toBitVec).toNat := by
  rw [encode32, turn32]
  rfl

theorem decode32_eq (bytes : Bytes) :
    decode32 bytes = ⟨⟨turnBack (BitVec.ofNat 32 (Bytes.toNat bytes))⟩⟩ :=
  congrArg Binary32.mk (turnBack32 _)

@[simp] theorem length_encode32 (number : Binary32) : (encode32 number).length = 4 :=
  Bytes.length_ofNatWidth _ _

theorem order_encode32 (left right : Binary32) :
    Bytes.order (encode32 left) (encode32 right) = left.totalOrder right := by
  have sign : Format.single.signBit = 2 ^ 31 := rfl
  rw [encode32_eq, encode32_eq]
  exact order_turn (w := 31) rfl sign _ _

theorem decode32_encode32 (number : Binary32) : decode32 (encode32 number) = number := by
  rw [decode32_eq, encode32_eq, turnBack_toNat rfl]

theorem encode32_decode32 {bytes : Bytes} (sized : bytes.length = 4) :
    encode32 (decode32 bytes) = bytes := by
  rw [encode32_eq, decode32_eq]
  exact ofNatWidth_turn rfl sized

end OrderedFloat

end Cogrouping
