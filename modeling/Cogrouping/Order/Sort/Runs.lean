import Cogrouping.Order.Sort.Quick

/-!
Sorting by runs, with a comparison that may fail. A list is cut into stretches: where it begins with a
long run, ascending or descending, that is a stretch in order; elsewhere a stretch of fixed length is
taken. Neighbours are merged in an order that depends on their positions alone, along a tree that is
nearly balanced. Stretches not yet in order are joined unsorted as long as possible and left to
quicksort.
-/

namespace Cogrouping.Sort

inductive Stretch (α : Type)
  | ordered (elements : List α)
  | loose (elements : List α)

namespace Stretch

variable {ε α : Type} (compare : α → α → Except (Stop ε) Ordering) (sort : List α → Except (Stop ε) (List α))

def elements : Stretch α → List α
  | ordered elements | loose elements => elements

def length (stretch : Stretch α) : Nat := stretch.elements.length

def settle : Stretch α → Except (Stop ε) (List α)
  | ordered elements => .ok elements
  | loose elements => sort elements

def join : Stretch α → Stretch α → Except (Stop ε) (Stretch α)
  | loose left, loose right => .ok (loose (left ++ right))
  | left, right => do
      let left ← left.settle sort
      let right ← right.settle sort
      return ordered (← merge compare left right)

end Stretch

/-- The least length of a run that is a stretch of its own, in a list of a length: half of it, at most
64, and about the square root of long ones. -/
def runLength (length : Nat) : Nat :=
  if length ≤ 4096 then min (length - length / 2) 64
  else
    let shift := (1 + Nat.log2 length) / 2
    ((1 <<< shift) + (length >>> shift)) / 2

/-- The depth of the node that has two neighbouring stretches below it, in a tree in which a list of a
length is halved again and again: the number of leading binary digits that the middles of both stretches
have in common, as fractions of the list. -/
def mergeDepth (length first middle last : Nat) : Nat :=
  let scale := (0x4000000000000000 + length - 1) / length
  let difference := (scale * (first + middle)) ^^^ (scale * (middle + last))
  if difference = 0 then 64 else 63 - Nat.log2 difference

variable {ε α : Type} (compare : α → α → Except (Stop ε) Ordering)

def runOn (descends : Bool) (last : α) : List α → Except (Stop ε) Nat
  | [] => .ok 0
  | next :: rest => do
      if (← isLess compare next last) == descends then return (← runOn descends next rest) + 1
      else return 0

/-- The run at the beginning of a list, in ascending order. A descending run has no equal elements. -/
def firstRun : List α → Except (Stop ε) (List α)
  | first :: second :: rest => do
      let descends ← isLess compare second first
      let run := first :: second :: rest.take (← runOn compare descends second rest)
      return if descends then run.reverse else run
  | elements => .ok elements

def firstStretch (least : Nat) (cut : List α → Except (Stop ε) (Stretch α)) (elements : List α) :
    Except (Stop ε) (Stretch α) := do
  if elements.length < least then cut elements
  else
    let run ← firstRun compare elements
    if least ≤ run.length then return .ordered run else cut elements

/-- Joins a stretch with those to its left that are not less deep in the tree, the nearest first. -/
def joinDown (sort : List α → Except (Stop ε) (List α)) (depth : Nat) (current : Stretch α) :
    List (Stretch α × Nat) → Except (Stop ε) (Stretch α × List (Stretch α × Nat))
  | [] => .ok (current, [])
  | (left, leftDepth) :: rest => do
      if depth ≤ leftDepth then joinDown sort depth (← left.join compare sort current) rest
      else return (current, (left, leftDepth) :: rest)

/-- Cuts the rest of a list into stretches and joins all, those seen before included. The stretch seen
last ends where the rest begins. -/
def joinFrom (length : Nat) (next : List α → Except (Stop ε) (Stretch α))
    (sort : List α → Except (Stop ε) (List α)) (waiting : List (Stretch α × Nat)) (current : Stretch α) :
    List α → Except (Stop ε) (Stretch α)
  | [] => return (← joinDown compare sort 0 current waiting).1
  | first :: rest => do
      let stretch ← next (first :: rest)
      let middle := length - (rest.length + 1)
      let depth := mergeDepth length (middle - current.length) middle (middle + stretch.length)
      let (current, waiting) ← joinDown compare sort depth current waiting
      joinFrom length next sort ((current, depth) :: waiting) stretch
        (rest.drop (stretch.length - 1))
termination_by elements => elements.length
decreasing_by simp only [List.length_drop, List.length_cons]; omega

def byStretches (cut : List α → Except (Stop ε) (Stretch α)) (sort : List α → Except (Stop ε) (List α))
    (elements : List α) : Except (Stop ε) (List α) := do
  let next := firstStretch compare (runLength elements.length) cut
  let stretch ← next elements
  let all ← joinFrom compare elements.length next sort [] stretch (elements.drop stretch.length)
  all.settle sort

def byShortRuns (network : Network) : List α → Except (Stop ε) (List α) :=
  byStretches compare (fun rest => .ordered <$> short compare network (rest.take shortLength)) .ok

/-- Lists of up to twice the length of a short one have their stretches sorted at once; in longer ones
quicksort gets as many stretches at a time as it can. -/
def byRuns (network : Network) (elements : List α) : Except (Stop ε) (List α) :=
  if elements.length ≤ 2 * shortLength then byShortRuns compare network elements
  else
    byStretches compare (fun rest => .ok (.loose (rest.take (runLength elements.length))))
      (quick compare network (byShortRuns compare network)) elements

end Cogrouping.Sort
