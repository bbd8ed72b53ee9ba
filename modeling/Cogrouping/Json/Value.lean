import Cogrouping.Bytes
import Cogrouping.Decimal.Style
import Cogrouping.Dictionary
import Cogrouping.Json.Lexeme

/-!
JSON values: reading them from text, numeric equality, and their compact text.
-/

namespace Cogrouping

inductive Json
  | null
  | bool (value : Bool)
  | number (value : Json.Number)
  | string (value : String)
  | array (items : List Json)
  | object (members : List (String × Json))
  deriving Inhabited

namespace Json

mutual

def decEq : (left right : Json) → Decidable (left = right)
  | .null, right =>
      match right with
      | .null => .isTrue rfl
      | .bool _ | .number _ | .string _ | .array _ | .object _ => .isFalse nofun
  | .bool left, right =>
      match right with
      | .bool right => decidable_of_iff (left = right) (by simp)
      | .null | .number _ | .string _ | .array _ | .object _ => .isFalse nofun
  | .number left, right =>
      match right with
      | .number right => decidable_of_iff (left = right) (by simp)
      | .null | .bool _ | .string _ | .array _ | .object _ => .isFalse nofun
  | .string left, right =>
      match right with
      | .string right => decidable_of_iff (left = right) (by simp)
      | .null | .bool _ | .number _ | .array _ | .object _ => .isFalse nofun
  | .array left, right =>
      match right with
      | .array right =>
          have := decEqItems left right
          decidable_of_iff (left = right) (by simp)
      | .null | .bool _ | .number _ | .string _ | .object _ => .isFalse nofun
  | .object left, right =>
      match right with
      | .object right =>
          have := decEqMembers left right
          decidable_of_iff (left = right) (by simp)
      | .null | .bool _ | .number _ | .string _ | .array _ => .isFalse nofun

def decEqItems : (left right : List Json) → Decidable (left = right)
  | [], [] => .isTrue rfl
  | [], _ :: _ | _ :: _, [] => .isFalse nofun
  | left :: lefts, right :: rights =>
      have := decEq left right
      have := decEqItems lefts rights
      decidable_of_iff (left = right ∧ lefts = rights) (by simp)

def decEqMembers : (left right : List (String × Json)) → Decidable (left = right)
  | [], [] => .isTrue rfl
  | [], _ :: _ | _ :: _, [] => .isFalse nofun
  | (name, left) :: lefts, (other, right) :: rights =>
      have := decEq left right
      have := decEqMembers lefts rights
      decidable_of_iff ((name = other ∧ left = right) ∧ lefts = rights) (by simp)

end

instance : DecidableEq Json := decEq

def ofNat (number : Nat) : Json := .number (.integer number)

/-- How deep arrays and objects may nest in a text that is read as a value. -/
def depthLimit : Nat := 127

mutual

/-- The value of a tree in which nothing nests deeper than `depth`. Objects come out with ascending
keys; of members with one key the last counts. -/
def ofTree? (depth : Nat) : Tree → Option Json
  | .null => some .null
  | .bool value => some (.bool value)
  | .number lexeme => (Lexeme.number? lexeme).map .number
  | .string lexeme => (Lexeme.text? lexeme).map .string
  | .array items => if depth = 0 then none else (items? (depth - 1) items).map .array
  | .object members => if depth = 0 then none else (members? (depth - 1) members []).map .object

def items? (depth : Nat) : List Tree → Option (List Json)
  | [] => some []
  | item :: rest => do
      let value ← ofTree? depth item
      let values ← items? depth rest
      return value :: values

def members? (depth : Nat) :
    List (List Char × Tree) → List (String × Json) → Option (List (String × Json))
  | [], placed => some placed
  | (lexeme, tree) :: rest, placed => do
      let key ← Lexeme.text? lexeme
      let value ← ofTree? depth tree
      members? depth rest (Dictionary.place key value placed)

end

def ofText? (text : String) : Option Json := Tree.ofText? text >>= ofTree? depthLimit

/-- Numeric equality: an integer never equals a floating-point number. -/
def Number.same : Number → Number → Bool
  | .integer left, .integer right => left == right
  | .real left, .real right => left.sameNumber right
  | _, _ => false

mutual

def same : Json → Json → Bool
  | .null, .null => true
  | .bool left, .bool right => left == right
  | .number left, .number right => left.same right
  | .string left, .string right => left == right
  | .array left, .array right => sameItems left right
  | .object left, .object right => sameMembers left right
  | _, _ => false

def sameItems : List Json → List Json → Bool
  | [], [] => true
  | left :: leftRest, right :: rightRest => same left right && sameItems leftRest rightRest
  | _, _ => false

def sameMembers : List (String × Json) → List (String × Json) → Bool
  | [], [] => true
  | (leftKey, left) :: leftRest, (rightKey, right) :: rightRest =>
      leftKey == rightKey && same left right && sameMembers leftRest rightRest
  | _, _ => false

end

/-- JSON numbers keep their fraction, have an exponent from `10 ^ 16` on and below `10 ^ -5`, and a
tie between two shortest forms goes to the even digit. -/
def numberStyle : Decimal.Style where
  tie := .toEven
  positional := fun exponent => -5 ≤ exponent && exponent ≤ 15
  keepsFraction := true
  notANumber := "null"
  infinity := "null"

def Number.write : Number → List Char
  | .integer value => (toString value).toList
  | .real value => (numberStyle.write .double value.read).toList

def writeChar (char : Char) : List Char :=
  if char = '"' then ['\\', '"']
  else if char = '\\' then ['\\', '\\']
  else if char = '\x08' then ['\\', 'b']
  else if char = '\t' then ['\\', 't']
  else if char = '\n' then ['\\', 'n']
  else if char = '\x0c' then ['\\', 'f']
  else if char = '\r' then ['\\', 'r']
  else if char.toNat < 0x20 then
    ['\\', 'u', '0', '0', Bytes.hexDigit (char.toNat / 16), Bytes.hexDigit (char.toNat % 16)]
  else [char]

def writeString (text : String) : List Char := '"' :: text.toList.flatMap writeChar ++ ['"']

mutual

def write : Json → List Char
  | .null => ['n', 'u', 'l', 'l']
  | .bool true => ['t', 'r', 'u', 'e']
  | .bool false => ['f', 'a', 'l', 's', 'e']
  | .number value => value.write
  | .string text => writeString text
  | .array items => '[' :: writeItems items ++ [']']
  | .object members => '{' :: writeMembers members ++ ['}']

def writeItems : List Json → List Char
  | [] => []
  | [item] => write item
  | item :: rest => write item ++ ',' :: writeItems rest

def writeMembers : List (String × Json) → List Char
  | [] => []
  | [(key, value)] => writeString key ++ ':' :: write value
  | (key, value) :: rest => writeString key ++ ':' :: write value ++ ',' :: writeMembers rest

end

def text (json : Json) : String := String.ofList json.write

end Json

end Cogrouping
