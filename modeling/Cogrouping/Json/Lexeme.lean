import Cogrouping.Decimal.Binary
import Cogrouping.Json.Tree

/-!
The meaning of JSON lexemes: the text a string stands for and the number a numeral stands for.
-/

namespace Cogrouping.Json

inductive Number
  | integer (value : Int)
  | real (value : Decimal.Binary64)
  deriving DecidableEq, Repr

namespace Lexeme

def digit (char : Char) : Nat := char.toNat - '0'.toNat

def hexDigit (char : Char) : Nat :=
  if Scan.isDigit char then digit char
  else if 'a' ≤ char then char.toNat - 87
  else char.toNat - 55

def unit (first second third fourth : Char) : Nat :=
  hexDigit first * 0x1000 + hexDigit second * 0x100 + hexDigit third * 0x10 + hexDigit fourth

def isHighSurrogate (unit : Nat) : Bool := 0xD800 ≤ unit && unit < 0xDC00

def isLowSurrogate (unit : Nat) : Bool := 0xDC00 ≤ unit && unit < 0xE000

def shortEscape : Char → Char
  | 'b' => '\x08'
  | 'f' => '\x0c'
  | 'n' => '\n'
  | 'r' => '\r'
  | 't' => '\t'
  | other => other

/-- The characters a string lexeme stands for; a surrogate without its partner stands for none. -/
def characters? : List Char → Option (List Char)
  | [] => some []
  | '\\' :: 'u' :: a :: b :: c :: d :: rest =>
      let first := unit a b c d
      if isLowSurrogate first then none
      else if isHighSurrogate first then
        match rest with
        | '\\' :: 'u' :: e :: f :: g :: h :: after =>
            let second := unit e f g h
            if isLowSurrogate second then
              (characters? after).map
                (Char.ofNat (0x10000 + (first - 0xD800) * 0x400 + (second - 0xDC00)) :: ·)
            else none
        | _ => none
      else (characters? rest).map (Char.ofNat first :: ·)
  | '\\' :: escaped :: rest => (characters? rest).map (shortEscape escaped :: ·)
  | char :: rest => (characters? rest).map (char :: ·)

def text? (lexeme : List Char) : Option String := (characters? lexeme).map String.ofList

def natural (digits : List Char) : Nat :=
  digits.foldl (fun number char => number * 10 + digit char) 0

def natural? (lexeme : List Char) : Option Nat :=
  if lexeme.all Scan.isDigit && !lexeme.isEmpty && (lexeme.head? != some '0' || lexeme.length == 1)
  then some (natural lexeme) else none

/-- Takes digits into a significand as long as it stays below `2 ^ 64`; gives it and the number of
digits left over. -/
def absorb (significand : Nat) : List Char → Nat × Nat
  | [] => (significand, 0)
  | char :: rest =>
      let next := significand * 10 + digit char
      if next < 0x10000000000000000 then absorb next rest else (significand, rest.length + 1)

def powerOfTen (exponent : Nat) : Decimal.Binary64 := .ofNat (Nat.pow 10 exponent)

/-- The floating-point number for `number · 10 ^ exponent`, by one multiplication or division with a
rounded power of ten where its exponent is at most 308, after divisions by `10 ^ 308` where it is
below that. `none` above the largest number. -/
def scale? : Nat → Decimal.Binary64 → Int → Option Decimal.Binary64
  | 0, number, _ => some number
  | fuel + 1, number, exponent =>
      if exponent.natAbs ≤ 308 then
        if 0 ≤ exponent then
          let product := number.times (powerOfTen exponent.natAbs)
          if product.isInfinite then none else some product
        else some (number.divide (powerOfTen exponent.natAbs))
      else if number.isZero then some number
      else if 0 ≤ exponent then none
      else scale? fuel (number.divide (powerOfTen 308)) (exponent + 308)

structure Numeral where
  negative : Bool
  whole : List Char
  fraction : Option (List Char)
  exponent : Option (Bool × List Char)

def numeral (lexeme : List Char) : Numeral :=
  let negative := lexeme.head? == some '-'
  let unsigned := if negative then lexeme.drop 1 else lexeme
  let whole := unsigned.takeWhile Scan.isDigit
  let rest := unsigned.dropWhile Scan.isDigit
  let pointed := rest.head? == some '.'
  let fraction := if pointed then some ((rest.drop 1).takeWhile Scan.isDigit) else none
  let rest := if pointed then (rest.drop 1).dropWhile Scan.isDigit else rest
  let exponent := if rest.isEmpty then none
    else some (rest.any (· == '-'), rest.filter Scan.isDigit)
  { negative, whole, fraction, exponent }

/-- The number a numeral stands for. Integers that fit 64 bits stay integers; `-0` and all else are
floating-point numbers, and there is none above the largest of those. -/
def number? (lexeme : List Char) : Option Number :=
  let { negative, whole, fraction, exponent } := numeral lexeme
  let signed (number : Decimal.Binary64) : Number :=
    .real (if negative then number.negate else number)
  let (significand, dropped) := absorb 0 whole
  if fraction.isNone && exponent.isNone && dropped = 0 then
    if !negative then some (.integer significand)
    else if 0 < significand && significand ≤ 0x8000000000000000 then some (.integer (-significand))
    else some (signed (.ofNat significand))
  else
    let places := fraction.getD []
    let (significand, ignored) := absorb significand places
    let start : Int := dropped - (places.length - ignored : Nat)
    match exponent with
    | none => (scale? 4 (.ofNat significand) start).map signed
    | some (below, digits) =>
        let size := natural digits
        if 0x80000000 ≤ size then
          if significand ≠ 0 && !below then none else some (signed (.ofNat 0))
        else
          (scale? 4 (.ofNat significand) (if below then start - size else start + size)).map signed

end Lexeme

end Cogrouping.Json
