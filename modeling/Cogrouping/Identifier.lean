/-!
Numbers of sources and of partitions. Each kind has a type of its own, so that one cannot stand for
the other.
-/

namespace Cogrouping

structure SourceId where
  number : UInt32
  deriving DecidableEq, Repr

namespace SourceId

instance : Ord SourceId := ⟨fun left right => compare left.number right.number⟩

instance : Std.TransOrd SourceId where
  eq_swap {left right} :=
    show compare left.number right.number = (compare right.number left.number).swap from
      Std.OrientedCmp.eq_swap
  isLE_trans {first second third} :=
    show (compare first.number second.number).isLE → (compare second.number third.number).isLE →
        (compare first.number third.number).isLE from
      Std.TransCmp.isLE_trans

instance : Std.LawfulEqOrd SourceId where
  eq_of_compare {left right} same := by
    cases left; cases right
    exact congrArg SourceId.mk (Std.LawfulEqOrd.eq_of_compare same)
  compare_self {id} := show compare id.number id.number = .eq from Std.ReflCmp.compare_self

def text (id : SourceId) : String := s!"SourceId({id.number.toNat})"

end SourceId

structure PartitionId where
  number : UInt32
  deriving DecidableEq, Repr

def PartitionId.text (id : PartitionId) : String := s!"PartitionId({id.number.toNat})"

end Cogrouping
