import Cogrouping.Decimal.Binary

/-!
The fewest decimal digits that read back as a given binary number, and of those the nearest. The
reals that round to `coefficient · 2 ^ exponent` form an interval; its ends belong to it exactly if
the coefficient is even. On the grid of numbers with a given digit count only the two neighbours of
the value need testing.
-/

namespace Cogrouping.Decimal

inductive Tie
  | upward
  | toEven
  deriving DecidableEq

structure Scaled where
  digits : Nat
  scale : Int
  deriving DecidableEq, Repr

structure Interval where
  low : Nat
  value : Nat
  high : Nat
  denominator : Nat
  closed : Bool

namespace Format

/-- The interval of the reals that round to `coefficient · 2 ^ exponent`. Below a power of two the
neighbour is half as far away, save at the least exponent. -/
def interval (format : Format) (coefficient : Nat) (exponent : Int) : Interval :=
  let narrow := coefficient = format.hiddenBit && format.leastExponent < exponent
  let factor := if 0 ≤ exponent then Nat.pow 2 exponent.toNat else 1
  let denominator := if 0 ≤ exponent then 4 else 4 * Nat.pow 2 (-exponent).toNat
  { low := (4 * coefficient - if narrow then 1 else 2) * factor
    value := 4 * coefficient * factor
    high := (4 * coefficient + 2) * factor
    denominator
    closed := coefficient % 2 == 0 }

end Format

namespace Interval

def holds (interval : Interval) (digits : Nat) (scale : Int) : Bool :=
  let point := if 0 ≤ scale then digits * Nat.pow 10 scale.toNat * interval.denominator
    else digits * interval.denominator
  let grid := if 0 ≤ scale then 1 else Nat.pow 10 (-scale).toNat
  if interval.closed then interval.low * grid ≤ point && point ≤ interval.high * grid
  else interval.low * grid < point && point < interval.high * grid

def width (number : Nat) : Nat := (Nat.toDigits 10 number).length

/-- How many places a value below one has to be moved left to reach one, at most `limit`. -/
def shift (denominator : Nat) : Nat → Nat → Nat
  | 0, _ => 0
  | limit + 1, value => if denominator ≤ value then 0 else shift denominator limit (value * 10) + 1

def leading (interval : Interval) : Int :=
  if interval.denominator ≤ interval.value then
    (width (interval.value / interval.denominator) : Int) - 1
  else -(shift interval.denominator 400 interval.value : Int)

def nearest? (interval : Interval) (tie : Tie) (scale : Int) : Option Nat :=
  let above := if 0 ≤ scale then interval.value else interval.value * Nat.pow 10 (-scale).toNat
  let below :=
    if 0 ≤ scale then interval.denominator * Nat.pow 10 scale.toNat else interval.denominator
  let lower := above / below
  let upper := lower + 1
  match 0 < lower && interval.holds lower scale, interval.holds upper scale with
  | false, false => none
  | true, false => some lower
  | false, true => some upper
  | true, true =>
      let twice := above % below * 2
      if twice < below then some lower
      else if below < twice then some upper
      else match tie with
        | .upward => some upper
        | .toEven => some (if lower % 2 = 0 then lower else upper)

def search (interval : Interval) (tie : Tie) : Nat → Int → Scaled
  | 0, scale => ⟨interval.value / interval.denominator, scale⟩
  | limit + 1, scale =>
      match interval.nearest? tie scale with
      | some digits => ⟨digits, scale⟩
      | none => search interval tie limit (scale - 1)

end Interval

/-- The decimal of fewest digits that reads back as the positive number
`coefficient · 2 ^ exponent`, and of those the nearest. -/
def Format.shortest (format : Format) (tie : Tie) (coefficient : Nat) (exponent : Int) : Scaled :=
  let interval := format.interval coefficient exponent
  interval.search tie 17 interval.leading

end Cogrouping.Decimal
