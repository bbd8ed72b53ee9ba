import Cogrouping.Error

/-!
Merging two ascending lists into one, with a comparison that may fail: from the front, from the back,
or from both ends in turn. Of equal elements the left list's come first. Whoever merges from both ends
sees in the end whether the comparison is an order.
-/

namespace Cogrouping.Sort

variable {ε α : Type} (compare : α → α → Except ε Ordering)

def isLess (left right : α) : Except ε Bool := (compare left right).map Ordering.isLT

def mergeForward : List α → List α → Except ε (List α)
  | [], right => .ok right
  | left, [] => .ok left
  | low :: left, high :: right => do
      if ← isLess compare high low then return high :: (← mergeForward (low :: left) right)
      else return low :: (← mergeForward left (high :: right))
termination_by left right => left.length + right.length

def mergeBackward : List α → List α → Except ε (List α)
  | [], right => .ok right
  | left, [] => .ok left
  | low :: left, high :: right => do
      if ← isLess compare high low then return low :: (← mergeBackward left (high :: right))
      else return high :: (← mergeBackward (low :: left) right)
termination_by left right => left.length + right.length

def merge (left right : List α) : Except ε (List α) :=
  if left.length ≤ right.length then mergeForward compare left right
  else (mergeBackward compare left.reverse right.reverse).map List.reverse

structure Ends (α : Type) where
  left : List α
  right : List α
  leftBack : List α
  rightBack : List α

def Ends.takeLeast (ends : Ends α) : Except ε (List α × Ends α) :=
  match ends.left, ends.right with
  | low :: left, high :: right => do
      if ← isLess compare high low then return ([high], { ends with right })
      else return ([low], { ends with left })
  | _, _ => .ok ([], ends)

def Ends.takeGreatest (ends : Ends α) : Except ε (List α × Ends α) :=
  match ends.leftBack, ends.rightBack with
  | low :: leftBack, high :: rightBack => do
      if ← isLess compare high low then return ([low], { ends with leftBack })
      else return ([high], { ends with rightBack })
  | _, _ => .ok ([], ends)

def Ends.takeTurns : Nat → Ends α → Except ε (List α × Ends α × List α)
  | 0, ends => .ok ([], ends, [])
  | count + 1, ends => do
      let (least, ends) ← ends.takeLeast compare
      let (greatest, ends) ← ends.takeGreatest compare
      let (front, ends, back) ← Ends.takeTurns count ends
      return (least ++ front, ends, back ++ greatest)

def Ends.cross (ends : Ends α) (left right : List α) : Prop :=
  ends.left.length + ends.leftBack.length < left.length ∨
    ends.right.length + ends.rightBack.length < right.length

instance (ends : Ends α) (left right : List α) : Decidable (ends.cross left right) :=
  inferInstanceAs (Decidable (_ ∨ _))

/-- Merges the two halves of a list from both ends. The element in the middle of an odd number of
elements is not compared once more. -/
def mergeInward (compare : α → α → Except (Stop ε) Ordering) (left right : List α) :
    Except (Stop ε) (List α) := do
  let ends : Ends α := ⟨left, right, left.reverse, right.reverse⟩
  let (front, ends, back) ← ends.takeTurns compare ((left.length + right.length) / 2)
  if ends.cross left right then throw .panicked
  let leftCount := ends.left.length + ends.leftBack.length - left.length
  let rightCount := ends.right.length + ends.rightBack.length - right.length
  return front ++ ends.left.take leftCount ++ ends.right.take rightCount ++ back

end Cogrouping.Sort
