import Cogrouping.Order.Record

/-!
Sorted input cut into groups: the contract by which it is pulled, and the input that cuts a sorted
list of tuples with one tuple of look-ahead.
-/

namespace Cogrouping

/-- Pulling from an input changes it also when it fails. -/
abbrev Pulling (σ : Type) := ExceptT Error (StateM σ)

/-- A sorted input in groups. The next group may be asked for at the beginning, and once the values of
the group before have come to their end. -/
class SortedGroups (σ : Type) where
  nextKey : Pulling σ (Option Tuple)
  nextValue : Pulling σ (Option Tuple)
  /-- No more groups come than this, and no group has more values. -/
  bound : σ → Nat

/-- Cuts a list of tuples, or of failures to get one, into groups. -/
structure GroupedTuples where
  order : GroupOrder
  rest : List (Except Error Tuple)
  key : Option Tuple
  pending : Option Tuple
  inGroup : Bool

namespace GroupedTuples

def ofList (order : GroupOrder) (tuples : List (Except Error Tuple)) : GroupedTuples :=
  { order, rest := tuples, key := none, pending := none, inGroup := false }

def fill : Pulling GroupedTuples (Option Tuple) := do
  let input ← get
  match input.pending, input.rest with
  | some tuple, _ => return some tuple
  | none, [] => return none
  | none, next :: rest =>
      set { input with rest }
      let tuple ← ofExcept next
      set { input with rest, pending := some tuple }
      return some tuple

def checkSorted (order : GroupOrder) (previous : Option Tuple) (first : Tuple) :
    Except Error Unit := do
  if let some previous := previous then
    if (← order.compare previous first) = .gt then
      throw (.invariant (.unsorted first.display previous.display))

def nextKey : Pulling GroupedTuples (Option Tuple) := do
  if (← get).inGroup then throw (.invariant .notDrained)
  match ← fill with
  | none =>
      modify fun input => { input with key := none }
      return none
  | some first =>
      let input ← get
      ofExcept (checkSorted input.order input.key first)
      set { input with key := some first, inGroup := true }
      return some first

def belongs (order : GroupOrder) (key next : Option Tuple) : Except Error Bool :=
  match key, next with
  | some key, some next => (order.compare key next).map (· == .eq)
  | _, _ => .ok false

def nextValue : Pulling GroupedTuples (Option Tuple) := do
  if !(← get).inGroup then return none
  let next ← fill
  let input ← get
  if ← ofExcept (belongs input.order input.key next) then
    set { input with pending := none }
    return next
  else
    set { input with inGroup := false }
    return none

instance : SortedGroups GroupedTuples where
  nextKey := nextKey
  nextValue := nextValue
  bound input := input.rest.length + 1

end GroupedTuples

end Cogrouping
