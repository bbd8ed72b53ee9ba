import Cogrouping.Order.Sort.Runs

/-!
Stable sorting by a comparison that may fail. A sort goes on behind a failure, holding what cannot be
compared equal, and tells of the failure in the end, unless it breaks off. By a total comparison all stable
sorts give the same list, and a record that cannot be compared with its equals fails in all of them, but
each has comparisons of its own, and so a failure that it meets first.
-/

namespace Cogrouping.Sort

variable {ε α : Type}

/-- The longest list that is sorted by insertion, which never breaks off. -/
def insertionLength : Nat := 20

/-- The comparison of a sort that goes on behind failures. -/
def heldEqual (compare : α → α → Except ε Ordering) (left right : α) : Ordering :=
  match compare left right with
  | .ok ordering => ordering
  | .error _ => .eq

/-- The elements in ascending order; those held equal keep their order. The failure of a sort is that of
the comparison that comes first; what comes behind it tells only whether the sort breaks off. -/
def stable (network : Network) (compare : α → α → Except ε Ordering) (elements : List α) :
    Except (Stop ε) (List α) :=
  match byInsertion compare elements with
  | .ok sorted => .ok sorted
  | .error failure =>
      if elements.length ≤ insertionLength then .error (.failed failure)
      else do
        let sorted ← byRuns (fun left right => .ok (heldEqual compare left right)) network elements
        let _ ← byRuns (fun left right => (compare left right).mapError .failed) network elements
        return sorted

end Cogrouping.Sort
