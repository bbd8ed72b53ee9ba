import Cogrouping.Error
import Cogrouping.Text.Blank

/-!
Schemas written as text, such as `url:string, fetched:long, payload:object<json>`, and the rules that
a declared schema keeps: a name, and fields with distinct names of which none is reserved.
-/

namespace Cogrouping

namespace DataType

def ofName? (name : List Char) : Option DataType :=
  match String.ofList name with
  | "int" | "Int32" | "i32" => some int32
  | "long" | "Int64" | "i64" => some int64
  | "float" | "Float32" | "f32" => some float32
  | "double" | "Float64" | "f64" => some float64
  | "boolean" | "bool" | "Boolean" => some boolean
  | "string" | "utf8" | "Utf8" => some text
  | _ => do
      let rest ← Text.stripOpening? ['o', 'b', 'j', 'e', 'c', 't', '<'] name
      let codec ← Text.stripClosing? '>' rest
      return object (String.ofList (Text.trim codec))

def ofChars (chars : List Char) : Except Error DataType :=
  let name := Text.trim chars
  match ofName? name with
  | some type => .ok type
  | none => .error (.schema (.unknownType (String.ofList name)))

def parse (text : String) : Except Error DataType := ofChars text.toList

end DataType

namespace Field

def ofEntry (entry : List Char) : Except Error Field :=
  match Text.splitFirst ':' entry with
  | none => .error (.schema (.missingType (String.ofList entry)))
  | some (name, type) => do
      let type ← DataType.ofChars type
      return { name := String.ofList (Text.trim name), type }

end Field

namespace Schema

def checkFields (schema : String) : List String → List Field → Except Error Unit
  | _, [] => .ok ()
  | seen, field :: rest =>
      if field.name.isEmpty then .error (.schema (.emptyFieldName schema))
      else if field.isSourceId then .error (.schema (.reservedName schema))
      else if seen.contains field.name then
        .error (.schema (.repeatedField field.name schema))
      else checkFields schema (field.name :: seen) rest

def validate (schema : Schema) : Except Error Unit :=
  if schema.name.isEmpty then .error (.schema .emptyName)
  else checkFields schema.name [] schema.fields

def declare (name : String) (fields : List Field) : Except Error Schema := do
  let schema : Schema := { name, fields }
  schema.validate
  return schema

def parse (name text : String) : Except Error Schema := do
  let fields ← (Text.entries text.toList).mapM Field.ofEntry
  declare name fields

end Schema


end Cogrouping
