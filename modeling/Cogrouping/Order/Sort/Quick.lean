import Cogrouping.Order.Sort.Short

/-!
Stable quicksort, with a comparison that may fail. The pivot is a median of medians of elements at fixed
places. An element that bounds the list from below tells when the pivot is a least one: then all that
are equal to it are in place.
-/

namespace Cogrouping.Sort

variable {ε α : Type} (compare : α → α → Except (Stop ε) Ordering)

def median (first second third : α × Nat) : Except (Stop ε) (α × Nat) := do
  let belowSecond ← isLess compare first.1 second.1
  let belowThird ← isLess compare first.1 third.1
  if belowSecond != belowThird then return first
  let ascends ← isLess compare second.1 third.1
  return if ascends != belowSecond then third else second

/-- The median of the medians of the first, the fifth and the last eighth of a list, with its
position. -/
def pivot? (elements : List (α × Nat)) : Except (Stop ε) (Option (α × Nat)) :=
  let eighth := elements.length / 8
  if _ : eighth = 0 then .ok elements.head?
  else do
    let first ← pivot? (elements.take eighth)
    let second ← pivot? ((elements.drop (4 * eighth)).take eighth)
    let third ← pivot? ((elements.drop (7 * eighth)).take eighth)
    match first, second, third with
    | some first, some second, some third => some <$> median compare first second third
    | _, _, _ => return none
termination_by elements.length
decreasing_by all_goals simp only [List.length_take, List.length_drop]; omega

def part (goesLeft : α → Except (Stop ε) Bool) : List α → Except (Stop ε) (List α × List α)
  | [] => .ok ([], [])
  | element :: rest => do
      let isLeft ← goesLeft element
      let (left, right) ← part goesLeft rest
      return if isLeft then (element :: left, right) else (left, element :: right)

def partBelow (before : List α) (pivot : α) (after : List α) : Except (Stop ε) (List α × List α) := do
  let goesLeft := fun element => isLess compare element pivot
  let (left, right) ← part goesLeft before
  let (leftAfter, rightAfter) ← part goesLeft after
  return (left ++ leftAfter, right ++ pivot :: rightAfter)

def partUpTo (before : List α) (pivot : α) (after : List α) : Except (Stop ε) (List α × List α) := do
  let goesLeft := fun element => (isLess compare pivot element).map not
  let (left, right) ← part goesLeft before
  let (leftAfter, rightAfter) ← part goesLeft after
  return (left ++ pivot :: leftAfter, right ++ rightAfter)

/-- Sorts a list none of whose elements is less than a bound. The part above the pivot is sorted before
the part below it. A list that has been cut too often is left to another sort. -/
def quickFrom (network : Network) (fallback : List α → Except (Stop ε) (List α)) :
    Nat → Option α → List α → Except (Stop ε) (List α)
  | 0, _, elements =>
      if elements.length ≤ shortLength then short compare network elements else fallback elements
  | limit + 1, bound, elements => do
      if elements.length ≤ shortLength then short compare network elements
      else
        match ← pivot? compare elements.zipIdx with
        | none => return elements
        | some (pivot, position) =>
            let before := elements.take position
            let after := elements.drop (position + 1)
            let aboveBound ← match bound with
              | none => pure true
              | some bound => isLess compare bound pivot
            let (low, high) ←
              if aboveBound then partBelow compare before pivot after else pure ([], elements)
            if low.isEmpty then
              let (equal, high) ← partUpTo compare before pivot after
              return equal ++ (← quickFrom network fallback limit none high)
            else
              let high ← quickFrom network fallback limit (some pivot) high
              let low ← quickFrom network fallback limit bound low
              return low ++ high

/-- A list may be cut twice as often as halving would have to. -/
def quick (network : Network) (fallback : List α → Except (Stop ε) (List α)) (elements : List α) :
    Except (Stop ε) (List α) :=
  quickFrom compare network fallback (2 * Nat.log2 elements.length) none elements

end Cogrouping.Sort
