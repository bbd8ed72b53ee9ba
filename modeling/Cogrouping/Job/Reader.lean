import Cogrouping.Job
import Cogrouping.Json.Decoder

/-!
Job descriptions read from their JSON form.
-/

namespace Cogrouping

open Json Json.Decoder

def EnumType.ofTree? (tree : Tree) : Option EnumType := do
  let members ← record? ["name", "symbols"] tree
  let name ← required? members "name" text?
  let symbols ← required? members "symbols" (list? text?)
  return { name, symbols }

namespace DataType

def plain? : String → Option DataType
  | "Int32" => some int32
  | "Int64" => some int64
  | "Float32" => some float32
  | "Float64" => some float64
  | "Boolean" => some boolean
  | "Utf8" => some text
  | _ => none

def ofTree? (tree : Tree) : Option DataType := do
  match ← variant? tree with
  | ("Enum", some payload) => (EnumType.ofTree? payload).map enumeration
  | ("Object", some payload) => (text? payload).map object
  | (name, none) => plain? name
  | (name, some payload) => if isNull payload then plain? name else none

end DataType

def Field.ofTree? (tree : Tree) : Option Field := do
  let members ← record? ["name", "data_type", "comparator"] tree
  let name ← required? members "name" text?
  let type ← required? members "data_type" DataType.ofTree?
  let comparator ← defaulted? members "comparator" (optional? text?) none
  return { name, type, comparator }

def Schema.ofTree? (tree : Tree) : Option Schema := do
  let members ← record? ["name", "fields"] tree
  let name ← required? members "name" text?
  let fields ← required? members "fields" (list? Field.ofTree?)
  return { name, fields }

def SourceId.ofTree? (tree : Tree) : Option SourceId :=
  (natural? 0x100000000 tree).map fun number => ⟨UInt32.ofNat number⟩

def Source.ofTree? (tree : Tree) : Option Source := do
  let members ← record? ["id", "schema"] tree
  let id ← required? members "id" SourceId.ofTree?
  let schema ← required? members "schema" Schema.ofTree?
  return { id, schema }

def Direction.ofTree? (tree : Tree) : Option Direction := do
  let (name, payload) ← variant? tree
  if payload.any fun tree => !(isNull tree || isEmptyObject tree) then none
  else match name with
    | "Asc" => some .ascending
    | "Desc" => some .descending
    | _ => none

namespace SortEntry

def fieldOfTree? (tree : Tree) : Option SortEntry := do
  let members ← record? ["name", "order", "comparator"] tree
  let name ← required? members "name" text?
  let direction ← required? members "order" Direction.ofTree?
  let comparator ← defaulted? members "comparator" (optional? text?) none
  return .field name direction comparator

def sourceIdOfTree? (tree : Tree) : Option SortEntry := do
  let members ← record? ["order"] tree
  let direction ← required? members "order" Direction.ofTree?
  return .sourceId direction

/-- Takes the kind off a record: the member of that name, or the first item. -/
def splitKind? : Tree → Option (String × Tree)
  | .object members => do
      let found ← known? ["kind"] members
      let kind ← required? found "kind" text?
      return (kind, .object (members.filter fun member =>
        Lexeme.text? member.1 != some "kind"))
  | .array (kind :: items) => (text? kind).map (·, .array items)
  | _ => none

def ofTree? (depth : Nat) (tree : Tree) : Option SortEntry := do
  let _ ← Json.ofTree? depth tree
  match ← splitKind? tree with
  | ("field", rest) => fieldOfTree? rest
  | ("source_id", rest) => sourceIdOfTree? rest
  | _ => none

end SortEntry

/-- An order; `depth` is what is left of the nesting limit inside its list. -/
def SortOrder.ofTree? (depth : Nat) (tree : Tree) : Option SortOrder :=
  (list? (SortEntry.ofTree? depth) tree).map SortOrder.mk

namespace Job

/-- The secondary orders; a key is the plain numeral of a source, and the last of equal keys counts. -/
def secondaryOfTree? : Tree → Option (Dictionary SourceId SortOrder)
  | .object members => do
      let entries ← members.mapM fun (lexeme, tree) => do
        let number ← (Lexeme.natural? lexeme).filter (· < 0x100000000)
        let order ← SortOrder.ofTree? (depthLimit - 3) tree
        return (SourceId.mk (UInt32.ofNat number), order)
      return .ofList entries
  | _ => none

def memberNames : List String :=
  ["sources", "order_by", "secondary_order_by", "group_by", "rollup_from", "handler"]

def ofTree? (tree : Tree) : Option Job := do
  let members ← record? memberNames tree
  let sources ← required? members "sources" (list? Source.ofTree?)
  let orderBy ← required? members "order_by" (SortOrder.ofTree? (depthLimit - 2))
  let secondaryOrderBy ← defaulted? members "secondary_order_by" secondaryOfTree? ∅
  let groupBy ← required? members "group_by" (list? text?)
  let rollupFrom ← defaulted? members "rollup_from" (optional? text?) none
  let handler ← defaulted? members "handler" (optional? text?) none
  return { sources, orderBy, secondaryOrderBy, groupBy, rollupFrom, handler }

def ofText (text : String) : Except Error Job :=
  match Tree.ofText? text >>= ofTree? with
  | some job => .ok job
  | none => .error (.config .unreadable)

end Job

end Cogrouping
