import Cogrouping.Order.Comparators
import Cogrouping.Wire.Record

/-!
The order of records: the common criteria, then, between records of one source, the secondary criteria
of that source. Tuples are compared by their values. Records are compared as bytes: a field without a
comparator by its bytes alone, since those have the order of the values, and a field with a comparator
by the values read from it. The group order is the order by the group-by fields alone.
-/

namespace Cogrouping

structure SortKey where
  name : String
  type : DataType
  direction : Direction
  comparator : Option Comparator

namespace SortKey

def ofCriterion (comparators : Comparators) (criterion : Criterion) : Except Error SortKey := do
  let comparator ← match criterion.comparator with
    | none => .ok none
    | some name => (comparators.find name).map some
  if comparator.isNone && !criterion.type.isOrderable then
    throw (.unorderableField criterion.name)
  return { name := criterion.name, type := criterion.type, direction := criterion.direction,
           comparator }

def isSourceId (key : SortKey) : Bool := key.name == sourceIdName

def compareValues (key : SortKey) (left right : Value) : Except Error Ordering := do
  left.check key.name key.type
  right.check key.name key.type
  match key.comparator with
  | some comparator => return comparator left right
  | none =>
      match left.naturalOrder? right with
      | some ordering => return ordering
      | none => throw (.unorderableField key.name)

def compareEncoded (key : SortKey) (codec : FieldCodec) (left : Bytes) (leftOffset : Nat)
    (right : Bytes) (rightOffset : Nat) : Except Error (Ordering × Nat × Nat) :=
  match key.comparator with
  | some comparator => do
      let (leftValue, leftSize) ← codec.decode left leftOffset key.type
      let (rightValue, rightSize) ← codec.decode right rightOffset key.type
      return (comparator leftValue rightValue, leftSize, rightSize)
  | none =>
      match key.type with
      | .text => do
          let (leftBytes, leftSize) ← codec.textBytes left leftOffset
          let (rightBytes, rightSize) ← codec.textBytes right rightOffset
          return (Bytes.order leftBytes rightBytes, leftSize, rightSize)
      | .object _ => throw (.unorderableField key.name)
      | type => do
          let leftSize ← codec.skip left leftOffset type
          let rightSize ← codec.skip right rightOffset type
          return (Bytes.order ((left.drop leftOffset).take leftSize)
            ((right.drop rightOffset).take rightSize), leftSize, rightSize)

end SortKey

structure RecordOrder where
  plan : Plan
  codec : FieldCodec
  common : List SortKey
  secondary : Dictionary SourceId (List SortKey)

/-- How far a comparison of two records has come: the offsets it has reached, and the numbers of the
sources once it has passed them. -/
structure Progress where
  left : Nat
  right : Nat
  sources : Option (SourceId × SourceId)
  deriving DecidableEq, Repr

namespace RecordOrder

def ofPlan (plan : Plan) (codec : FieldCodec) (comparators : Comparators) :
    Except Error RecordOrder := do
  let common ← plan.commonCriteria.mapM (SortKey.ofCriterion comparators)
  let secondary ← plan.sources.values.mapM fun source => do
    let keys ← source.secondaryCriteria.mapM (SortKey.ofCriterion comparators)
    return (source.id, keys)
  return { plan, codec, common, secondary := .ofList secondary }

variable (order : RecordOrder)

def secondaryOf (id : SourceId) : List SortKey := (order.secondary.find? id).getD []

def compareCommon (left right : Tuple) (leftId rightId : SourceId) :
    Nat → List SortKey → List Slot → List Slot → Except Error Ordering
  | position, key :: keys, leftSlot :: leftSlots, rightSlot :: rightSlots => do
      let ascending ← match leftSlot, rightSlot with
        | .sourceId, .sourceId => .ok (compare leftId rightId)
        | .field leftPosition, .field rightPosition => do
            let leftValue ← left.require leftPosition
            let rightValue ← right.require rightPosition
            key.compareValues leftValue rightValue
        | _, _ => .error (.invariant (.sourceIdInOne position))
      match key.direction.apply ascending with
      | .eq => compareCommon left right leftId rightId (position + 1) keys leftSlots rightSlots
      | ordering => return ordering
  | _, _, _, _ => .ok .eq

def specificPosition (source : SourcePlan) (key : SortKey) : Except Error Nat :=
  match source.specific.indexOf? key.name >>= fun index => source.specificPositions[index]? with
  | some position => .ok position
  | none => .error (.invariant (.notSpecific key.name source.name))

def compareSecondary (source : SourcePlan) (left right : Tuple) :
    List SortKey → Except Error Ordering
  | [] => .ok .eq
  | key :: keys => do
      let position ← specificPosition source key
      let leftValue ← left.require position
      let rightValue ← right.require position
      let ascending ← key.compareValues leftValue rightValue
      match key.direction.apply ascending with
      | .eq => compareSecondary source left right keys
      | ordering => return ordering

def compareBy (keys : List SortKey) (withSecondary : Bool) (left right : Tuple) :
    Except Error Ordering := do
  let leftSource ← order.plan.sourceNamed left.schema.name
  let rightSource ← order.plan.sourceNamed right.schema.name
  let ordering ← compareCommon left right leftSource.id rightSource.id 0 keys
    leftSource.commonSlots rightSource.commonSlots
  if ordering = .eq && withSecondary && leftSource.id = rightSource.id then
    compareSecondary leftSource left right (order.secondaryOf leftSource.id)
  else return ordering

def compare (left right : Tuple) : Except Error Ordering :=
  order.compareBy order.common true left right

def compareCommonBytes (left right : Bytes) :
    Progress → List SortKey → Except Error (Ordering × Progress)
  | progress, [] => .ok (.eq, progress)
  | progress, key :: keys => do
      let (ascending, progress) ←
        if key.isSourceId then do
          let (leftId, leftSize) ← Varint.readSourceId left progress.left
          let (rightId, rightSize) ← Varint.readSourceId right progress.right
          pure (Ord.compare leftId rightId,
            Progress.mk (progress.left + leftSize) (progress.right + rightSize)
              (some (leftId, rightId)))
        else do
          let (ascending, leftSize, rightSize) ←
            key.compareEncoded order.codec left progress.left right progress.right
          pure (ascending, Progress.mk (progress.left + leftSize) (progress.right + rightSize)
            progress.sources)
      match key.direction.apply ascending with
      | .eq => compareCommonBytes left right progress keys
      | ordering => return (ordering, progress)

def sharedSource? (progress : Progress) : Option SourceId :=
  match progress.sources with
  | some (left, right) => if left = right then some left else none
  | none =>
      if order.plan.isMultiSource then none
      else order.plan.sources.values.head?.map SourcePlan.id

def compareSecondaryBytes (left right : Bytes) :
    Nat → Nat → List SortKey → Except Error Ordering
  | _, _, [] => .ok .eq
  | leftOffset, rightOffset, key :: keys => do
      let (ascending, leftSize, rightSize) ←
        key.compareEncoded order.codec left leftOffset right rightOffset
      match key.direction.apply ascending with
      | .eq =>
          compareSecondaryBytes left right (leftOffset + leftSize) (rightOffset + rightSize) keys
      | ordering => return ordering

def compareBytesBy (keys : List SortKey) (withSecondary : Bool) (left right : Bytes) :
    Except Error Ordering := do
  let (ordering, progress) ← order.compareCommonBytes left right ⟨0, 0, none⟩ keys
  if ordering = .eq && withSecondary then
    match order.sharedSource? progress with
    | some id =>
        order.compareSecondaryBytes left right progress.left progress.right (order.secondaryOf id)
    | none => return .eq
  else return ordering

def compareBytes (left right : Bytes) : Except Error Ordering :=
  order.compareBytesBy order.common true left right

end RecordOrder

structure GroupOrder where
  records : RecordOrder

def RecordOrder.groups (order : RecordOrder) : GroupOrder := ⟨order⟩

namespace GroupOrder

variable (order : GroupOrder)

def plan : Plan := order.records.plan

def size : Nat := order.plan.groupBy.length

def keys : List SortKey := order.records.common.take order.size

def compare (left right : Tuple) : Except Error Ordering :=
  order.records.compareBy order.keys false left right

def compareBytes (left right : Bytes) : Except Error Ordering :=
  order.records.compareBytesBy order.keys false left right

def fieldName (depth : Nat) : String := (order.records.common[depth]?.map SortKey.name).getD ""

def sameField (depth : Nat) (left right : Value) : Except Error Bool :=
  match order.records.common[depth]? with
  | none => .error (.invariant (.depthOutside depth))
  | some key => (key.compareValues left right).map (· == .eq)

end GroupOrder

end Cogrouping
