/-!
Sorting by insertion, with a comparison that may fail. Elements are put in place one after the other,
each compared with those before it from the last one on; the first failure ends the sort.
-/

namespace Cogrouping.Sort

variable {ε α : Type} (compare : α → α → Except ε Ordering)

def insertLast (element : α) : List α → Except ε (List α)
  | [] => .ok [element]
  | last :: before => do
      match ← compare element last with
      | .lt => return last :: (← insertLast element before)
      | _ => return element :: last :: before

def insertAll : List α → List α → Except ε (List α)
  | placed, [] => .ok placed
  | placed, element :: rest => do
      let placed ← insertLast compare element placed
      insertAll placed rest

def insertBehind (placed elements : List α) : Except ε (List α) :=
  (insertAll compare placed.reverse elements).map List.reverse

def byInsertion (elements : List α) : Except ε (List α) := insertBehind compare [] elements

end Cogrouping.Sort
