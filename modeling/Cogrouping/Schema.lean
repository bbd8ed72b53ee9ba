import Cogrouping.Identifier

/-!
Field types, fields and schemas: named, ordered lists of fields. The order of the fields is the order
in which their values stand in a tuple.
-/

namespace Cogrouping

/-- The name that stands for a record's source among the fields of a sort order. -/
def sourceIdName : String := "#source#"

/-- A named list of constants; the place of a constant in it is its ordinal. -/
structure EnumType where
  name : String
  symbols : List String
  deriving DecidableEq, Repr

def EnumType.ordinalOf? (type : EnumType) (symbol : String) : Option Nat :=
  type.symbols.findIdx? (· == symbol)

inductive DataType
  | int32
  | int64
  | float32
  | float64
  | boolean
  | text
  | enumeration (type : EnumType)
  /-- Opaque objects, with the name of the codec that writes them. -/
  | object (codec : String)
  deriving DecidableEq, Repr

namespace DataType

def display : DataType → String
  | int32 => "int"
  | int64 => "long"
  | float32 => "float"
  | float64 => "double"
  | boolean => "boolean"
  | text => "string"
  | enumeration type => s!"enum<{type.name}>"
  | object codec => s!"object<{codec}>"

def isOrderable : DataType → Bool
  | object _ => false
  | _ => true

end DataType

structure Field where
  name : String
  type : DataType
  /-- The name of the comparator that orders the field's values, if it is not their own order. -/
  comparator : Option String := none
  deriving DecidableEq, Repr

namespace Field

def sourceId : Field := { name := sourceIdName, type := .int32 }

def isSourceId (field : Field) : Bool := field.name == sourceIdName

def display (field : Field) : String := s!"{field.name}:{field.type.display}"

end Field

structure Schema where
  name : String
  fields : List Field
  deriving DecidableEq, Repr

namespace Schema

def size (schema : Schema) : Nat := schema.fields.length

def names (schema : Schema) : List String := schema.fields.map Field.name

def indexOf? (schema : Schema) (name : String) : Option Nat :=
  schema.fields.findIdx? (·.name == name)

def find? (schema : Schema) (name : String) : Option Field :=
  schema.fields.find? (·.name == name)

def contains (schema : Schema) (name : String) : Bool := schema.fields.any (·.name == name)

def display (schema : Schema) : String := ", ".intercalate (schema.fields.map Field.display)

end Schema

structure Source where
  id : SourceId
  schema : Schema
  deriving DecidableEq, Repr

end Cogrouping
