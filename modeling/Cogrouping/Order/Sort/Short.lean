import Cogrouping.Order.Sort.Insertion
import Cogrouping.Order.Sort.Merge

/-!
Sorting short lists, with a comparison that may fail. Both halves are begun by a sorting network and
completed by insertion, then merged from both ends.
-/

namespace Cogrouping.Sort

/-- How many elements the network that begins a half may take. -/
inductive Network
  | four
  | eight
  deriving DecidableEq, Repr

def shortLength : Nat := 32

variable {ε α : Type} (compare : α → α → Except (Stop ε) Ordering)

/-- Four elements in ascending order, by five comparisons: each pair, the lesser of both, the greater
of both, and the two that remain. -/
def sortFour (first second third fourth : α) : Except (Stop ε) (List α) := do
  let firstSwapped ← isLess compare second first
  let secondSwapped ← isLess compare fourth third
  let (firstLow, firstHigh) := if firstSwapped then (second, first) else (first, second)
  let (secondLow, secondHigh) := if secondSwapped then (fourth, third) else (third, fourth)
  let lowSwapped ← isLess compare secondLow firstLow
  let highSwapped ← isLess compare secondHigh firstHigh
  let least := if lowSwapped then secondLow else firstLow
  let greatest := if highSwapped then firstHigh else secondHigh
  let left := if lowSwapped then firstLow else if highSwapped then secondLow else firstHigh
  let right := if highSwapped then secondHigh else if lowSwapped then firstHigh else secondLow
  if ← isLess compare right left then return [least, right, left, greatest]
  else return [least, left, right, greatest]

def beginFour : List α → Except (Stop ε) (List α × List α)
  | first :: second :: third :: fourth :: rest => do
      return (← sortFour compare first second third fourth, rest)
  | elements => .ok ([], elements)

def beginEight (elements : List α) : Except (Stop ε) (List α × List α) := do
  let (left, rest) ← beginFour compare elements
  let (right, rest) ← beginFour compare rest
  return (← mergeInward compare left right, rest)

def Network.begin (network : Network) (length : Nat) (half : List α) :
    Except (Stop ε) (List α × List α) :=
  if network = .eight ∧ 16 ≤ length then beginEight compare half
  else if 8 ≤ length then beginFour compare half
  else .ok ([], half)

/-- Both halves are begun before either is completed. -/
def short (network : Network) (elements : List α) : Except (Stop ε) (List α) := do
  let length := elements.length
  let (left, leftRest) ← network.begin compare length (elements.take (length / 2))
  let (right, rightRest) ← network.begin compare length (elements.drop (length / 2))
  let left ← insertBehind compare left leftRest
  let right ← insertBehind compare right rightRest
  mergeInward compare left right

end Cogrouping.Sort
