import Cogrouping.Bytes

/-!
UTF-8: writing text as bytes, and reading bytes with the place and the extent of the first fault.
-/

namespace Cogrouping.Utf8

def encodeChar (char : Char) : Bytes :=
  let point := char.toNat
  if point < 0x80 then [UInt8.ofNat point]
  else if point < 0x800 then
    [UInt8.ofNat (0xC0 + point / 0x40), UInt8.ofNat (0x80 + point % 0x40)]
  else if point < 0x10000 then
    [UInt8.ofNat (0xE0 + point / 0x1000), UInt8.ofNat (0x80 + point / 0x40 % 0x40),
      UInt8.ofNat (0x80 + point % 0x40)]
  else
    [UInt8.ofNat (0xF0 + point / 0x40000), UInt8.ofNat (0x80 + point / 0x1000 % 0x40),
      UInt8.ofNat (0x80 + point / 0x40 % 0x40), UInt8.ofNat (0x80 + point % 0x40)]

def encode (text : String) : Bytes := text.toList.flatMap encodeChar

/-- Why a byte string is no text, counted from its start. -/
inductive Fault
  | broken (size index : Nat)
  | cutShort (index : Nat)
  deriving DecidableEq, Repr

def Fault.message : Fault → String
  | .broken size index => s!"invalid utf-8 sequence of {size} bytes from index {index}"
  | .cutShort index => s!"incomplete utf-8 byte sequence from index {index}"

def width? (lead : UInt8) : Option Nat :=
  let number := lead.toNat
  if number < 0x80 then some 1
  else if number < 0xC2 then none
  else if number < 0xE0 then some 2
  else if number < 0xF0 then some 3
  else if number < 0xF5 then some 4
  else none

def isContinuation (byte : UInt8) : Bool := 0x80 ≤ byte.toNat && byte.toNat < 0xC0

/-- The second bytes a lead byte allows: no overlong form, no surrogate, nothing above U+10FFFF. -/
def allowsSecond (lead second : UInt8) : Bool :=
  let low := if lead.toNat = 0xE0 then 0xA0 else if lead.toNat = 0xF0 then 0x90 else 0x80
  let high := if lead.toNat = 0xED then 0xA0 else if lead.toNat = 0xF4 then 0x90 else 0xC0
  low ≤ second.toNat && second.toNat < high

def tail (byte : UInt8) : Nat := byte.toNat % 0x40

def decodeFrom (index : Nat) : Bytes → Except Fault (List Char)
  | [] => .ok []
  | lead :: rest =>
      match width? lead with
      | none => .error (.broken 1 index)
      | some 1 => (decodeFrom (index + 1) rest).map (Char.ofNat lead.toNat :: ·)
      | some width =>
          match rest with
          | [] => .error (.cutShort index)
          | second :: rest =>
              if !allowsSecond lead second then .error (.broken 1 index)
              else if width = 2 then
                (decodeFrom (index + 2) rest).map
                  (Char.ofNat (lead.toNat % 0x20 * 0x40 + tail second) :: ·)
              else match rest with
                | [] => .error (.cutShort index)
                | third :: rest =>
                    if !isContinuation third then .error (.broken 2 index)
                    else if width = 3 then
                      (decodeFrom (index + 3) rest).map
                        (Char.ofNat (lead.toNat % 0x10 * 0x1000 + tail second * 0x40 + tail third)
                          :: ·)
                    else match rest with
                      | [] => .error (.cutShort index)
                      | fourth :: rest =>
                          if !isContinuation fourth then .error (.broken 3 index)
                          else (decodeFrom (index + 4) rest).map
                            (Char.ofNat (lead.toNat % 0x08 * 0x40000 + tail second * 0x1000 +
                              tail third * 0x40 + tail fourth) :: ·)

def decode (bytes : Bytes) : Except Fault String := (decodeFrom 0 bytes).map String.ofList

end Cogrouping.Utf8
