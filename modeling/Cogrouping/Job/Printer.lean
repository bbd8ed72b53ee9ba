import Cogrouping.Digest
import Cogrouping.Job
import Cogrouping.Json.Value

/-!
The JSON form of job descriptions. Members stand in a fixed order, comparators only where there are
some, and the number of a source is a key as text.
-/

namespace Cogrouping

def EnumType.toJson (type : EnumType) : Json :=
  .object [("name", .string type.name), ("symbols", .array (type.symbols.map .string))]

def DataType.toJson : DataType → Json
  | int32 => .string "Int32"
  | int64 => .string "Int64"
  | float32 => .string "Float32"
  | float64 => .string "Float64"
  | boolean => .string "Boolean"
  | text => .string "Utf8"
  | enumeration type => .object [("Enum", type.toJson)]
  | object codec => .object [("Object", .string codec)]

def comparatorMember (comparator : Option String) : List (String × Json) :=
  (comparator.map fun name => ("comparator", Json.string name)).toList

def Field.toJson (field : Field) : Json :=
  .object ([("name", .string field.name), ("data_type", field.type.toJson)] ++
    comparatorMember field.comparator)

def Schema.toJson (schema : Schema) : Json :=
  .object [("name", .string schema.name), ("fields", .array (schema.fields.map Field.toJson))]

def Source.toJson (source : Source) : Json :=
  .object [("id", .ofNat source.id.number.toNat), ("schema", source.schema.toJson)]

def Direction.toJson : Direction → Json
  | ascending => .string "Asc"
  | descending => .string "Desc"

def SortEntry.toJson : SortEntry → Json
  | field name direction comparator =>
      .object ([("kind", .string "field"), ("name", .string name), ("order", direction.toJson)] ++
        comparatorMember comparator)
  | sourceId direction => .object [("kind", .string "source_id"), ("order", direction.toJson)]

def SortOrder.toJson (order : SortOrder) : Json := .array (order.entries.map SortEntry.toJson)

def SortOrder.digest (order : SortOrder) : Digest :=
  Digest.ofBytes (Utf8.encode order.toJson.text)

def optionalText (text : Option String) : Json := (text.map Json.string).getD .null

namespace Job

def secondaryJson (orders : Dictionary SourceId SortOrder) : Json :=
  .object (orders.entries.map fun (id, order) => (toString id.number.toNat, order.toJson))

def toJson (job : Job) : Json :=
  .object [
    ("sources", .array (job.sources.map Source.toJson)),
    ("order_by", job.orderBy.toJson),
    ("secondary_order_by", secondaryJson job.secondaryOrderBy),
    ("group_by", .array (job.groupBy.map .string)),
    ("rollup_from", optionalText job.rollupFrom),
    ("handler", optionalText job.handler)]

def text (job : Job) : String := job.toJson.text

def fingerprint (job : Job) : Digest := Digest.ofBytes (Utf8.encode job.text)

end Job

end Cogrouping
