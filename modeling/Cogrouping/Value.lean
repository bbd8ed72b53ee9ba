import Cogrouping.Error
import Cogrouping.Json.Value

/-!
Field values: their types, their own order, equality for group boundaries, and their text.
-/

namespace Cogrouping

structure EnumConstant where
  typeName : String
  ordinal : UInt32
  symbol : String
  deriving DecidableEq, Repr

/-- The constant of a type with a given symbol; of equal symbols the first counts. -/
def EnumConstant.ofSymbol (type : EnumType) (symbol : String) : Except Error EnumConstant :=
  match type.ordinalOf? symbol with
  | some ordinal => .ok { typeName := type.name, ordinal := UInt32.ofNat ordinal, symbol }
  | none => .error (.schema (.unknownConstant symbol type.name))

inductive Value
  | null
  | int32 (value : Int32)
  | int64 (value : Int64)
  | float32 (value : Decimal.Binary32)
  | float64 (value : Decimal.Binary64)
  | boolean (value : Bool)
  | text (value : String)
  | constant (value : EnumConstant)
  | object (value : Json)
  deriving DecidableEq, Inhabited

namespace Value

def kind : Value → String
  | null => "null"
  | int32 _ => "int"
  | int64 _ => "long"
  | float32 _ => "float"
  | float64 _ => "double"
  | boolean _ => "boolean"
  | text _ => "string"
  | constant _ => "enum"
  | object _ => "object"

def isNull : Value → Bool
  | null => true
  | _ => false

/-- Whether the value may stand in a field of the type. A constant has to name the type and to have
an ordinal within it. -/
def conformsTo : Value → DataType → Bool
  | int32 _, .int32 | int64 _, .int64 | float32 _, .float32 | float64 _, .float64
  | boolean _, .boolean | text _, .text | null, .object _ | object _, .object _ => true
  | constant value, .enumeration type =>
      value.typeName == type.name && value.ordinal.toNat < type.symbols.length
  | _, _ => false

def check (field : String) (type : DataType) (value : Value) : Except Error Unit :=
  if value.conformsTo type then .ok ()
  else if value.isNull then .error (.nullNotAllowed field)
  else .error (.fieldTypeMismatch field type value.kind)

def booleanOrder (left right : Bool) : Ordering := compare left.toNat right.toNat

/-- The own order of two values of one kind: numeric, false before true, bytes of text, ordinals, and
the total order of floating-point numbers. Objects and values of different kinds have none. -/
def naturalOrder? : Value → Value → Option Ordering
  | int32 left, int32 right => some (compare left.toInt right.toInt)
  | int64 left, int64 right => some (compare left.toInt right.toInt)
  | float32 left, float32 right => some (left.totalOrder right)
  | float64 left, float64 right => some (left.totalOrder right)
  | boolean left, boolean right => some (booleanOrder left right)
  | text left, text right => some (Bytes.order (Utf8.encode left) (Utf8.encode right))
  | constant left, constant right =>
      if left.typeName = right.typeName then
        some (compare left.ordinal.toNat right.ordinal.toNat)
      else none
  | _, _ => none

def same : Value → Value → Bool
  | null, null => true
  | int32 left, int32 right => left == right
  | int64 left, int64 right => left == right
  | float32 left, float32 right => left.sameNumber right
  | float64 left, float64 right => left.sameNumber right
  | boolean left, boolean right => left == right
  | text left, text right => left == right
  | constant left, constant right => left == right
  | object left, object right => left.same right
  | _, _ => false

def sameGroup (left right : Value) : Bool :=
  match left.naturalOrder? right with
  | some ordering => ordering == .eq
  | none => left.same right

def asInt32? : Value → Option Int32
  | int32 value => some value
  | _ => none

def asInt64? : Value → Option Int64
  | int64 value => some value
  | _ => none

def asFloat64? : Value → Option Decimal.Binary64
  | float32 value => some (.ofBinary32 value)
  | float64 value => some value
  | _ => none

def asText? : Value → Option String
  | text value => some value
  | _ => none

/-- Numbers as values are written without exponent, integral ones without fraction, and a tie between
two shortest forms goes up. -/
def numberStyle : Decimal.Style where
  tie := .upward
  positional := fun _ => true
  keepsFraction := false
  notANumber := "NaN"
  infinity := "inf"

def display : Value → String
  | null => "null"
  | int32 value => toString value.toInt
  | int64 value => toString value.toInt
  | float32 value => numberStyle.write .single value.read
  | float64 value => numberStyle.write .double value.read
  | boolean true => "true"
  | boolean false => "false"
  | text value => value
  | constant value => value.symbol
  | object value => value.text

end Value

end Cogrouping
