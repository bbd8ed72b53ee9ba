import Cogrouping.Dictionary
import Cogrouping.Text.Quoted
import Cogrouping.Value
import Cogrouping.Wire.Objects

/-!
Comparators that a job names instead of the own order of a field's values.
-/

namespace Cogrouping

/-- An order on field values. Both ways of comparing records call it, on tuples' values and on values
read back from bytes, so it has to be one order of values. -/
abbrev Comparator := Value → Value → Ordering

structure Comparators where
  byName : Dictionary String Comparator

namespace Comparators

def empty : Comparators := ⟨∅⟩

def register (comparators : Comparators) (name : String) (comparator : Comparator) :
    Comparators :=
  ⟨comparators.byName.insert name comparator⟩

def find (comparators : Comparators) (name : String) : Except Error Comparator :=
  match comparators.byName.find? name with
  | some comparator => .ok comparator
  | none => .error (.config (.noComparator name))

def describe (comparators : Comparators) : String :=
  "ComparatorRegistry \x7b comparators: " ++ Quoted.list comparators.byName.keys ++ " \x7d"

end Comparators

def ObjectCodecs.describe (codecs : ObjectCodecs) : String :=
  "ObjectCodecs \x7b codecs: " ++ Quoted.list codecs.codecs.keys ++ " \x7d"

end Cogrouping
