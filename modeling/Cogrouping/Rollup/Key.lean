import Cogrouping.Plan
import Cogrouping.Tuple

/-!
Group keys: the first tuple of a group, seen through its group-by fields.
-/

namespace Cogrouping

structure GroupKey where
  tuple : Tuple
  positions : List Nat
  groupBy : List String
  deriving DecidableEq

namespace GroupKey

def slotPosition : Slot → Except Error Nat
  | .field position => .ok position
  | .sourceId => .error (.invariant .sourceIdInKey)

def ofTuple (plan : Plan) (tuple : Tuple) : Except Error GroupKey := do
  let source ← plan.sourceNamed tuple.schema.name
  let positions ← (source.commonSlots.take plan.groupBy.length).mapM slotPosition
  return { tuple, positions, groupBy := plan.groupBy }

variable (key : GroupKey)

def size : Nat := key.positions.length

def isEmpty : Bool := key.positions.isEmpty

def fieldName? (depth : Nat) : Option String := key.groupBy[depth]?

def get? (depth : Nat) : Option Value := key.positions[depth]? >>= key.tuple.get?

def find? (name : String) : Option Value := key.groupBy.findIdx? (· == name) >>= key.get?

def values : List Value := key.positions.filterMap key.tuple.get?

def sourceName : String := key.tuple.schema.name

def display : String := "(" ++ ", ".intercalate (key.values.map Value.display) ++ ")"

end GroupKey

end Cogrouping
