import Cogrouping.Stream

/-!
Input whose groups are given one by one, each with its key.
-/

namespace Cogrouping

structure ListedGroups where
  groups : List (Except Error Tuple × List (Except Error Tuple))
  current : List (Except Error Tuple)

namespace ListedGroups

def ofList (groups : List (Except Error Tuple × List (Except Error Tuple))) : ListedGroups :=
  { groups, current := [] }

def nextKey : Pulling ListedGroups (Option Tuple) := do
  match (← get).groups with
  | [] => return none
  | (key, values) :: groups =>
      set (ListedGroups.mk groups values)
      return some (← ofExcept key)

def nextValue : Pulling ListedGroups (Option Tuple) := do
  let input ← get
  match input.current with
  | [] => return none
  | next :: current =>
      set { input with current }
      return some (← ofExcept next)

instance : SortedGroups ListedGroups where
  nextKey := nextKey
  nextValue := nextValue
  bound input := input.groups.length + (input.groups.flatMap Prod.snd).length + input.current.length

end ListedGroups

end Cogrouping
