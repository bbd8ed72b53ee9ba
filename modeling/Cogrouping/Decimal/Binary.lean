/-!
Binary interchange formats of floating-point numbers, as bit patterns. A pattern is a sign, an
exponent field and a fraction field; read as a number it is `coefficient · 2 ^ exponent`.
Rounding of a quotient to the nearest number of a format is exact integer arithmetic.
-/

namespace Cogrouping.Decimal

structure Format where
  exponentBits : Nat
  fractionBits : Nat

namespace Format

def single : Format := ⟨8, 23⟩

def double : Format := ⟨11, 52⟩

variable (format : Format)

def signBit : Nat := Nat.pow 2 (format.exponentBits + format.fractionBits)

def hiddenBit : Nat := Nat.pow 2 format.fractionBits

def infinityBits : Nat := (Nat.pow 2 format.exponentBits - 1) * format.hiddenBit

def leastExponent : Int :=
  2 - (Nat.pow 2 (format.exponentBits - 1) : Int) - (format.fractionBits : Int)

end Format

inductive Reading
  | notANumber
  | infinite (negative : Bool)
  | finite (negative : Bool) (coefficient : Nat) (exponent : Int)

namespace Format

variable (format : Format)

def isNegative (bits : Nat) : Bool := format.signBit ≤ bits

def magnitude (bits : Nat) : Nat := bits % format.signBit

def read (bits : Nat) : Reading :=
  let negative := format.isNegative bits
  let magnitude := format.magnitude bits
  let field := magnitude / format.hiddenBit
  let fraction := magnitude % format.hiddenBit
  if format.infinityBits < magnitude then .notANumber
  else if magnitude = format.infinityBits then .infinite negative
  else if field = 0 then .finite negative fraction format.leastExponent
  else .finite negative (format.hiddenBit + fraction) (format.leastExponent + (field - 1))

/-- The quotient rounded to an integer; a half goes to the even neighbour. -/
def roundHalfEven (numerator denominator : Nat) : Nat :=
  let quotient := numerator / denominator
  let twice := numerator % denominator * 2
  if twice < denominator then quotient
  else if denominator < twice then quotient + 1
  else quotient + quotient % 2

def scale (numerator denominator : Nat) (exponent : Int) : Nat × Nat :=
  if 0 ≤ exponent then (numerator, denominator * Nat.pow 2 exponent.toNat)
  else (numerator * Nat.pow 2 (-exponent).toNat, denominator)

def ofRatio (negative : Bool) (numerator denominator : Nat) : Nat :=
  let sign := if negative then format.signBit else 0
  if numerator = 0 then sign
  else
    let estimate : Int := numerator.log2 - denominator.log2 - format.fractionBits
    let (above, below) := scale numerator denominator estimate
    let fitted := if above < below * format.hiddenBit then estimate - 1 else estimate
    let exponent := max fitted format.leastExponent
    let (above, below) := scale numerator denominator exponent
    let steps := (exponent - format.leastExponent).toNat
    let bits := steps * format.hiddenBit + roundHalfEven above below
    sign + min bits format.infinityBits

end Format

structure Binary32 where
  bits : UInt32
  deriving DecidableEq, Repr

structure Binary64 where
  bits : UInt64
  deriving DecidableEq, Repr

/-- The place of a pattern in the total order of its format: negative patterns come first, larger
magnitudes before smaller ones, then the positive patterns by magnitude. -/
def Format.rank (format : Format) (bits : Nat) : Int :=
  if format.isNegative bits then -1 - (format.magnitude bits : Int) else format.magnitude bits

def Format.sameNumber (format : Format) (left right : Nat) : Bool :=
  format.magnitude left ≤ format.infinityBits && format.magnitude right ≤ format.infinityBits &&
    (left == right || (format.magnitude left == 0 && format.magnitude right == 0))

namespace Binary32

def read (number : Binary32) : Reading := Format.single.read number.bits.toNat

def totalOrder (left right : Binary32) : Ordering :=
  compare (Format.single.rank left.bits.toNat) (Format.single.rank right.bits.toNat)

def sameNumber (left right : Binary32) : Bool :=
  Format.single.sameNumber left.bits.toNat right.bits.toNat

end Binary32

namespace Binary64

def read (number : Binary64) : Reading := Format.double.read number.bits.toNat

def totalOrder (left right : Binary64) : Ordering :=
  compare (Format.double.rank left.bits.toNat) (Format.double.rank right.bits.toNat)

def sameNumber (left right : Binary64) : Bool :=
  Format.double.sameNumber left.bits.toNat right.bits.toNat

def ofBits (bits : Nat) : Binary64 := ⟨UInt64.ofNat bits⟩

def isInfinite (number : Binary64) : Bool :=
  Format.double.magnitude number.bits.toNat == Format.double.infinityBits

def isZero (number : Binary64) : Bool := Format.double.magnitude number.bits.toNat == 0

def ofRatio (negative : Bool) (numerator denominator : Nat) : Binary64 :=
  ofBits (Format.double.ofRatio negative numerator denominator)

def ofNat (number : Nat) : Binary64 := ofRatio false number 1

def ratio (coefficient : Nat) (exponent : Int) : Nat × Nat :=
  if 0 ≤ exponent then (coefficient * Nat.pow 2 exponent.toNat, 1)
  else (coefficient, Nat.pow 2 (-exponent).toNat)

def times (left right : Binary64) : Binary64 :=
  match left.read, right.read with
  | .finite _ leftCoefficient leftExponent, .finite _ rightCoefficient rightExponent =>
      let (above, below) := ratio (leftCoefficient * rightCoefficient) (leftExponent + rightExponent)
      ofRatio false above below
  | _, _ => ofBits Format.double.infinityBits

def divide (left right : Binary64) : Binary64 :=
  match left.read, right.read with
  | .finite _ leftCoefficient leftExponent, .finite _ rightCoefficient rightExponent =>
      let (above, below) := ratio leftCoefficient (leftExponent - rightExponent)
      ofRatio false above (below * rightCoefficient)
  | _, _ => ofBits Format.double.infinityBits

def negate (number : Binary64) : Binary64 := ⟨number.bits ^^^ 0x8000000000000000⟩

def ofBinary32 (number : Binary32) : Binary64 :=
  match number.read with
  | .notANumber => ofBits (Format.double.infinityBits + 0x8000000000000)
  | .infinite negative =>
      ofBits ((if negative then Format.double.signBit else 0) + Format.double.infinityBits)
  | .finite negative coefficient exponent =>
      let (above, below) := ratio coefficient exponent
      ofRatio negative above below

end Binary64

end Cogrouping.Decimal
