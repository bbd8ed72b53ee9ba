/-!
Byte strings as lists: big-endian numbers, slices that are checked against the end of the buffer,
the lexicographic order on unsigned bytes, and hexadecimal text.
-/

namespace Cogrouping

abbrev Bytes := List UInt8

namespace Bytes

def toNat (bytes : Bytes) : Nat :=
  bytes.foldl (fun number byte => number * 256 + byte.toNat) 0

/-- The base-256 digits of a number, most significant first and without leading zeros; zero has none. -/
def ofNat (number : Nat) : Bytes :=
  if number = 0 then [] else ofNat (number / 256) ++ [UInt8.ofNat number]

def ofNatWidth : Nat → Nat → Bytes
  | 0, _ => []
  | width + 1, number => ofNatWidth width (number / 256) ++ [UInt8.ofNat number]

def complement (bytes : Bytes) : Bytes := bytes.map fun byte => ~~~byte

/-- The lexicographic order of unsigned bytes; a proper beginning comes before the longer string. -/
def order : Bytes → Bytes → Ordering
  | [], [] => .eq
  | [], _ :: _ => .lt
  | _ :: _, [] => .gt
  | left :: leftRest, right :: rightRest =>
      (compare left.toNat right.toNat).then (order leftRest rightRest)

def slice? (buffer : Bytes) (offset size : Nat) : Option Bytes :=
  if offset + size ≤ buffer.length then some ((buffer.drop offset).take size) else none

def hexDigit (nibble : Nat) : Char :=
  if nibble < 10 then Char.ofNat (48 + nibble) else Char.ofNat (87 + nibble)

def hexPair (byte : UInt8) : List Char :=
  [hexDigit (byte.toNat / 16), hexDigit (byte.toNat % 16)]

def toHex (bytes : Bytes) : String := String.ofList (bytes.flatMap hexPair)

def hexValue? (char : Char) : Option Nat :=
  if '0' ≤ char && char ≤ '9' then some (char.toNat - 48)
  else if 'a' ≤ char && char ≤ 'f' then some (char.toNat - 87)
  else none

def ofHexDigits? : List Char → Option Bytes
  | [] => some []
  | [_] => none
  | high :: low :: rest => do
      let byte := UInt8.ofNat ((← hexValue? high) * 16 + (← hexValue? low))
      return byte :: (← ofHexDigits? rest)

def ofHex? (text : String) : Option Bytes := ofHexDigits? text.toList

end Bytes

end Cogrouping
