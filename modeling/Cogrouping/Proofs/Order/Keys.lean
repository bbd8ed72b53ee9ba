import Cogrouping.Order.Record
import Cogrouping.Proofs.Row
import Cogrouping.Proofs.Value
import Cogrouping.Proofs.Wire.OrderedFloat
import Cogrouping.Proofs.Wire.Varint

/-!
What a comparison by keys is, apart from where the values stand. Every value has bytes that sort as its
own order does, so that a key without a comparator compares bytes, and a list of keys compares lists of
cells from left to right.
-/

namespace Cogrouping

namespace Value

/-- Bytes that have the own order of the values of a type. -/
def sortBytes : Value → Bytes
  | int32 number => Varint.encode number.toInt64
  | int64 number => Varint.encode number
  | float32 number => OrderedFloat.encode32 number
  | float64 number => OrderedFloat.encode64 number
  | boolean truth => [if truth then 1 else 0]
  | text content => Utf8.encode content
  | constant symbol => Varint.encode (Int64.ofNat symbol.ordinal.toNat)
  | null => []
  | object _ => []

theorem naturalOrder?_eq {type : DataType} (orderable : type.isOrderable = true) {left right : Value}
    (leftConforms : left.conformsTo type = true) (rightConforms : right.conformsTo type = true) :
    left.naturalOrder? right = some (Bytes.order left.sortBytes right.sortBytes) := by
  rw [conformsTo_eq_true] at leftConforms rightConforms
  cases leftConforms with
  | int32 number =>
      cases rightConforms
      simp [naturalOrder?, sortBytes, Varint.order_encode]
  | int64 number =>
      cases rightConforms
      simp [naturalOrder?, sortBytes, Varint.order_encode]
  | float32 number =>
      cases rightConforms
      simp [naturalOrder?, sortBytes, OrderedFloat.order_encode32]
  | float64 number =>
      cases rightConforms
      simp [naturalOrder?, sortBytes, OrderedFloat.order_encode64]
  | boolean truth =>
      cases rightConforms with
      | boolean other => cases truth <;> cases other <;> rfl
  | text text =>
      cases rightConforms
      rfl
  | @constant type constant named inside =>
      cases rightConforms with
      | @constant _ other otherNamed otherInside =>
          have bound := constant.ordinal.toNat_lt
          have otherBound := other.ordinal.toNat_lt
          simp only [naturalOrder?, named, otherNamed, if_true, sortBytes, Varint.order_encode]
          rw [Varint.toInt_ofNat (by omega), Varint.toInt_ofNat (by omega)]
          exact congrArg some (compare_congr (by omega) (by omega))
  | absent name => simp [DataType.isOrderable] at orderable
  | object name json => simp [DataType.isOrderable] at orderable

end Value

namespace Cell

def sortBytes : Cell → Bytes
  | sourceId id => Varint.encodeSourceId id
  | value held => held.sortBytes

def held : Cell → Value
  | sourceId _ => .null
  | value held => held

end Cell

theorem SourceId.order_encode (left right : SourceId) :
    Bytes.order (Varint.encodeSourceId left) (Varint.encodeSourceId right) = compare left right := by
  have leftBound := left.number.toNat_lt
  have rightBound := right.number.toNat_lt
  rw [Varint.encodeSourceId, Varint.encodeSourceId, Varint.order_encode,
    Varint.toInt_ofNat (by omega), Varint.toInt_ofNat (by omega)]
  have below : ∀ {first second : UInt32},
      (first.toNat : Int) < (second.toNat : Int) ↔ first < second := by
    intro first second
    rw [UInt32.lt_iff_toNat_lt]
    omega
  have numbers : compare (left.number.toNat : Int) right.number.toNat =
      compare left.number right.number := compare_congr below below
  exact numbers

namespace SortKey

def ascending (key : SortKey) (left right : Cell) : Ordering :=
  match key.comparator with
  | some comparator => comparator left.held right.held
  | none => Bytes.order left.sortBytes right.sortBytes

def compareCells (key : SortKey) (left right : Cell) : Ordering :=
  key.direction.apply (key.ascending left right)

theorem compareCells_eq_eq {key : SortKey} {left right : Cell} :
    key.compareCells left right = .eq ↔ key.ascending left right = .eq := by
  rw [compareCells]
  cases key.direction <;> cases key.ascending left right <;> simp [Direction.apply]

theorem sortBytes_eq {key : SortKey} (plain : key.comparator = none) {left right : Cell}
    (equal : key.compareCells left right = .eq) : left.sortBytes = right.sortBytes := by
  rw [compareCells_eq_eq, ascending, plain] at equal
  exact Bytes.order_eq_eq.mp equal

def compareAll : List SortKey → List Cell → List Cell → Ordering
  | [] => fun _ _ => .eq
  | key :: keys => compareLex
      (fun left right => key.compareCells (left.headD (.value .null)) (right.headD (.value .null)))
      (fun left right => compareAll keys left.tail right.tail)

theorem compareAll_cons (key : SortKey) (keys : List SortKey) (left right : Cell)
    (lefts rights : List Cell) :
    compareAll (key :: keys) (left :: lefts) (right :: rights) =
      (key.compareCells left right).then (compareAll keys lefts rights) := rfl

theorem compareAll_append {keys : List SortKey} {left right : List Cell}
    (leftLong : keys.length ≤ left.length) (rightLong : keys.length ≤ right.length)
    (leftRest rightRest : List Cell) :
    compareAll keys (left ++ leftRest) (right ++ rightRest) = compareAll keys left right := by
  induction keys generalizing left right with
  | nil => rfl
  | cons key keys ih =>
      cases left with
      | nil => simp at leftLong
      | cons leftCell left =>
          cases right with
          | nil => simp at rightLong
          | cons rightCell right =>
              rw [List.cons_append, List.cons_append, compareAll_cons, compareAll_cons,
                ih (by simpa using leftLong) (by simpa using rightLong)]

end SortKey

end Cogrouping
