import Cogrouping.Value

/-!
Tuples: one value for every field of a schema.
-/

namespace Cogrouping

structure Tuple where
  schema : Schema
  values : List Value
  complete : values.length = schema.size
  deriving DecidableEq

namespace Tuple

def blank (schema : Schema) : Tuple where
  schema
  values := List.replicate schema.size .null
  complete := List.length_replicate

instance : Inhabited Tuple := ⟨blank ⟨"", []⟩⟩

def ofValues (schema : Schema) (values : List Value) : Except Error Tuple :=
  if complete : values.length = schema.size then .ok { schema, values, complete }
  else .error (.schema (.valueCount schema.name schema.size values.length))

def size (tuple : Tuple) : Nat := tuple.values.length

def isEmpty (tuple : Tuple) : Bool := tuple.values.isEmpty

def get? (tuple : Tuple) (position : Nat) : Option Value := tuple.values[position]?

def find? (tuple : Tuple) (field : String) : Option Value :=
  tuple.schema.indexOf? field >>= tuple.get?

def put (tuple : Tuple) (position : Nat) (value : Value) : Tuple where
  schema := tuple.schema
  values := tuple.values.set position value
  complete := by rw [List.length_set]; exact tuple.complete

def set (tuple : Tuple) (position : Nat) (value : Value) : Except Error Tuple :=
  if position < tuple.size then .ok (tuple.put position value)
  else .error (.unknownField (.atPosition position tuple.schema.name))

def setNamed (tuple : Tuple) (field : String) (value : Value) : Except Error Tuple :=
  match tuple.schema.indexOf? field with
  | some position => .ok (tuple.put position value)
  | none => .error (.unknownField (.ofSchema tuple.schema.name field))

def require (tuple : Tuple) (position : Nat) : Except Error Value :=
  match tuple.get? position with
  | some value => .ok value
  | none => .error (.invariant (.noPosition position tuple.schema.name))

def display (tuple : Tuple) : String :=
  "(" ++ ", ".intercalate (tuple.values.map Value.display) ++ ")"

end Tuple

end Cogrouping
