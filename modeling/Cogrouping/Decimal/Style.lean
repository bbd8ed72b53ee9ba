import Cogrouping.Decimal.Shortest

/-!
Writing binary numbers as decimal text. What is common to all texts is the digits; what differs
from one use to another is a `Style`.
-/

namespace Cogrouping.Decimal

structure Style where
  tie : Tie
  positional : Int → Bool
  keepsFraction : Bool
  notANumber : String
  infinity : String

namespace Style

variable (style : Style)

def normalise (number : Scaled) : List Char × Int :=
  let digits := Nat.toDigits 10 number.digits
  let trimmed := (digits.reverse.dropWhile (· == '0')).reverse
  (trimmed, number.scale + digits.length - 1)

def zeros (count : Nat) : List Char := List.replicate count '0'

def plain (digits : List Char) (exponent : Int) : List Char :=
  if exponent < 0 then '0' :: '.' :: zeros (-exponent - 1).toNat ++ digits
  else
    let whole := exponent.toNat + 1
    if digits.length ≤ whole then
      digits ++ zeros (whole - digits.length) ++ if style.keepsFraction then ['.', '0'] else []
    else digits.take whole ++ '.' :: digits.drop whole

def scientific (digits : List Char) (exponent : Int) : List Char :=
  let rest := digits.drop 1
  digits.take 1 ++ (if rest.isEmpty then [] else '.' :: rest) ++
    'e' :: (if exponent < 0 then '-' else '+') :: Nat.toDigits 10 exponent.natAbs

def magnitude (number : Scaled) : List Char :=
  let (digits, exponent) := normalise number
  if style.positional exponent then style.plain digits exponent else scientific digits exponent

def write (format : Format) : Reading → String
  | .notANumber => style.notANumber
  | .infinite negative => (if negative then "-" else "") ++ style.infinity
  | .finite negative coefficient exponent =>
      let text :=
        if coefficient = 0 then '0' :: if style.keepsFraction then ['.', '0'] else []
        else style.magnitude (format.shortest style.tie coefficient exponent)
      String.ofList (if negative then '-' :: text else text)

end Style

end Cogrouping.Decimal
