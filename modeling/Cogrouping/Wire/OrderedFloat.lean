import Cogrouping.Bytes
import Cogrouping.Decimal.Binary

/-!
Floating-point numbers as bytes whose order is the total order of the numbers: the sign bit of a
positive pattern is set and every bit of a negative one is turned over; most significant byte first.
-/

namespace Cogrouping.OrderedFloat

open Decimal

def encode64 (number : Binary64) : Bytes :=
  let mapped := if number.bits >>> 63 = 1 then ~~~number.bits
    else number.bits ^^^ 0x8000000000000000
  Bytes.ofNatWidth 8 mapped.toNat

def decode64 (bytes : Bytes) : Binary64 :=
  let mapped := UInt64.ofNat (Bytes.toNat bytes)
  ⟨if mapped >>> 63 = 1 then mapped ^^^ 0x8000000000000000 else ~~~mapped⟩

def encode32 (number : Binary32) : Bytes :=
  let mapped := if number.bits >>> 31 = 1 then ~~~number.bits else number.bits ^^^ 0x80000000
  Bytes.ofNatWidth 4 mapped.toNat

def decode32 (bytes : Bytes) : Binary32 :=
  let mapped := UInt32.ofNat (Bytes.toNat bytes)
  ⟨if mapped >>> 31 = 1 then mapped ^^^ 0x80000000 else ~~~mapped⟩

end Cogrouping.OrderedFloat
