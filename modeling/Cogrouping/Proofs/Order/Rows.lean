import Cogrouping.Proofs.Order.Resolved

/-!
The order of tuples of a plan: by the cells of their common fields, and between tuples of one source by
the cells of the fields with a secondary order. Comparing tuples always succeeds with this order.
-/

namespace Cogrouping

namespace SortKey

theorem compareValues_eq {key : SortKey} {field : Field} (sorts : key.SortsBy field)
    {left right : Value} (leftConforms : left.conformsTo field.type = true)
    (rightConforms : right.conformsTo field.type = true) :
    key.compareValues left right = .ok (key.ascending (.value left) (.value right)) := by
  have leftChecked : left.check key.name key.type = .ok () := by
    rw [sorts.type]
    exact Value.check_eq_ok.mpr leftConforms
  have rightChecked : right.check key.name key.type = .ok () := by
    rw [sorts.type]
    exact Value.check_eq_ok.mpr rightConforms
  rw [compareValues, leftChecked, rightChecked, ok_bind, ok_bind, ascending]
  cases given : key.comparator with
  | some comparator => rfl
  | none =>
      have orderable : field.type.isOrderable = true := by
        rcases sorts.usable with some | orderable
        · simp [given] at some
        · exact orderable
      rw [Value.naturalOrder?_eq orderable leftConforms rightConforms]
      rfl

end SortKey

namespace RecordOrder

def compareSlots (left right : Tuple) (leftId rightId : SourceId) (position : Nat) (key : SortKey) :
    Slot → Slot → Except Error Ordering
  | .sourceId, .sourceId => .ok (Ord.compare leftId rightId)
  | .field leftPosition, .field rightPosition => do
      let leftValue ← left.require leftPosition
      let rightValue ← right.require rightPosition
      key.compareValues leftValue rightValue
  | _, _ => .error (.invariant (.sourceIdInOne position))

theorem compareCommon_cons (left right : Tuple) (leftId rightId : SourceId) (position : Nat)
    (key : SortKey) (keys : List SortKey) (leftSlot rightSlot : Slot)
    (leftSlots rightSlots : List Slot) :
    compareCommon left right leftId rightId position (key :: keys) (leftSlot :: leftSlots)
        (rightSlot :: rightSlots) =
      compareSlots left right leftId rightId position key leftSlot rightSlot >>= fun ascending =>
        match key.direction.apply ascending with
        | .eq => compareCommon left right leftId rightId (position + 1) keys leftSlots rightSlots
        | ordering => .ok ordering := by
  cases leftSlot <;> cases rightSlot <;> simp only [compareCommon, compareSlots, bind_assoc] <;> rfl

theorem compareSlots_eq {key : SortKey} {field : Field} (sorts : key.SortsBy field) {left right : Tuple}
    {leftSlot rightSlot : Slot} (leftGives : leftSlot.Gives left field)
    (rightGives : rightSlot.Gives right field) (leftId rightId : SourceId) (position : Nat) :
    compareSlots left right leftId rightId position key leftSlot rightSlot =
      .ok (key.ascending (leftSlot.cell left leftId) (rightSlot.cell right rightId)) := by
  cases leftGives with
  | sourceId marked =>
      cases rightGives with
      | sourceId =>
          simp [compareSlots, SortKey.ascending, sorts.marked marked, Slot.cell, Cell.sortBytes,
            SourceId.order_encode]
      | field unmarked => simp [unmarked] at marked
  | field unmarked leftHeld leftConforms =>
      cases rightGives with
      | sourceId marked => simp [unmarked] at marked
      | field _ rightHeld rightConforms =>
          rw [compareSlots, Tuple.require_eq_ok.mpr leftHeld, ok_bind,
            Tuple.require_eq_ok.mpr rightHeld, ok_bind, Slot.cell, leftHeld, Slot.cell, rightHeld]
          exact SortKey.compareValues_eq sorts leftConforms rightConforms

theorem compareCommon_eq {keys : List SortKey} {fields : List Field}
    (sorts : List.Forall₂ SortKey.SortsBy keys fields) {left right : Tuple}
    {leftSlots rightSlots : List Slot} (leftGive : List.Forall₂ (Slot.Gives left) fields leftSlots)
    (rightGive : List.Forall₂ (Slot.Gives right) fields rightSlots) (leftId rightId : SourceId)
    (leftRest rightRest : List Slot) (position : Nat) :
    compareCommon left right leftId rightId position keys (leftSlots ++ leftRest)
        (rightSlots ++ rightRest) =
      .ok (SortKey.compareAll keys (leftSlots.map (Slot.cell left leftId))
        (rightSlots.map (Slot.cell right rightId))) := by
  induction sorts generalizing leftSlots rightSlots position with
  | nil => simp [compareCommon, SortKey.compareAll]
  | @cons key field keys fields first _ ih =>
      obtain ⟨leftSlot, leftSlots, leftGives, leftLater, rfl⟩ := List.forall₂_cons_left_iff.mp leftGive
      obtain ⟨rightSlot, rightSlots, rightGives, rightLater, rfl⟩ :=
        List.forall₂_cons_left_iff.mp rightGive
      have later := ih leftLater rightLater (position + 1)
      rw [List.cons_append, List.cons_append, compareCommon_cons,
        compareSlots_eq first leftGives rightGives, ok_bind, List.map_cons, List.map_cons,
        SortKey.compareAll_cons, SortKey.compareCells]
      cases key.direction.apply (key.ascending (leftSlot.cell left leftId)
          (rightSlot.cell right rightId)) with
      | lt => rfl
      | gt => rfl
      | eq => exact later

variable {plan : Plan} {left right : Row plan}

structure Locates (source : SourcePlan) (key : SortKey) (slot : Slot) : Prop where
  found : ∃ position, slot = .field position ∧ specificPosition source key = .ok position
  feeds : ∃ field, key.SortsBy field ∧ Slot.Feeds source.schema field slot

theorem locates_leading {source : SourcePlan} (distinct : source.specific.names.Nodup)
    (feeds : List.Forall₂ (Slot.Feeds source.schema) source.specific.fields
      (source.specificPositions.map .field))
    {keys : List SortKey} {leading rest : List Field} (split : source.specific.fields = leading ++ rest)
    (sorts : List.Forall₂ SortKey.SortsBy keys leading) :
    List.Forall₂ (Locates source) keys ((source.specificPositions.map Slot.field).take keys.length) := by
  have sameLength := sorts.length_eq
  have enough : keys.length ≤ (source.specificPositions.map Slot.field).length := by
    rw [← feeds.length_eq, split, List.length_append]
    omega
  have lengths : keys.length = ((source.specificPositions.map Slot.field).take keys.length).length := by
    rw [List.length_take, Nat.min_eq_left enough]
  refine List.forall₂_of_length_eq_of_get lengths fun index insideKeys insideSlots => ?_
  have insideLeading : index < leading.length := sameLength ▸ insideKeys
  have field : source.specific.fields[index]? = some leading[index] := by
    rw [split, List.getElem?_append_left insideLeading, List.getElem?_eq_getElem insideLeading]
  have sortsBy : keys[index].SortsBy leading[index] := sorts.get insideKeys insideLeading
  obtain ⟨slot, atIndex, fed⟩ := feeds.getElem?_left field
  have place : source.specific.indexOf? keys[index].name = some index := by
    rw [Schema.indexOf?_eq_some distinct, Schema.names, List.getElem?_map, field, Option.map_some,
      sortsBy.name]
  obtain ⟨position, atPosition, rfl⟩ : ∃ position, source.specificPositions[index]? = some position ∧
      Slot.field position = slot := by simpa using atIndex
  have slots : ((source.specificPositions.map Slot.field).take keys.length).get ⟨index, insideSlots⟩ =
      .field position := by
    obtain ⟨within, held⟩ := List.getElem?_eq_some_iff.mp atPosition
    simp [held]
  rw [slots]
  refine ⟨⟨position, rfl, ?_⟩, ⟨leading[index], sortsBy, fed⟩⟩
  rw [specificPosition, List.get_eq_getElem, place]
  simp [atPosition]

theorem compareSecondary_eq (same : right.source = left.source) {keys : List SortKey}
    {slots : List Slot} (locates : List.Forall₂ (Locates left.source) keys slots) :
    compareSecondary left.source left.tuple right.tuple keys =
      .ok (SortKey.compareAll keys (left.cells slots) (right.cells slots)) := by
  induction locates with
  | nil => rfl
  | @cons key slot keys slots first _ ih =>
      obtain ⟨⟨position, rfl, located⟩, field, sorts, fed⟩ := first
      obtain ⟨leftValue, leftRequired, _, leftConforms, leftCell⟩ := left.require_of_feeds fed
      obtain ⟨rightValue, rightRequired, _, rightConforms, rightCell⟩ :=
        right.require_of_feeds (same ▸ fed)
      rw [compareSecondary, located, ok_bind, leftRequired, ok_bind, rightRequired, ok_bind,
        SortKey.compareValues_eq sorts leftConforms rightConforms, ok_bind, Row.cells, Row.cells,
        List.map_cons, List.map_cons, SortKey.compareAll_cons, SortKey.compareCells, leftCell, rightCell]
      cases key.direction.apply (key.ascending (.value leftValue) (.value rightValue)) with
      | lt => rfl
      | gt => rfl
      | eq => exact ih

def compareRows (order : RecordOrder) (left right : Row order.plan) : Ordering :=
  (SortKey.compareAll order.common left.commonCells right.commonCells).then
    (if left.id = right.id then
      SortKey.compareAll (order.secondaryOf left.id) left.specificCells right.specificCells
    else .eq)

variable {order : RecordOrder} {comparators : Comparators}

theorem id_eq_iff {left right : Row plan} : left.id = right.id ↔ right.source = left.source := by
  constructor
  · intro same
    exact right.planned.eq_of_id left.planned same.symm
  · intro same
    rw [Row.id, Row.id, same]

theorem compareAll_specificCells {source : SourcePlan} {keys : List SortKey}
    (fewer : keys.length ≤ source.specificPositions.length) {left right : Row plan}
    (leftSource : left.source = source) (rightSource : right.source = source) :
    SortKey.compareAll keys left.specificCells right.specificCells =
      SortKey.compareAll keys
        (left.cells ((source.specificPositions.map Slot.field).take keys.length))
        (right.cells ((source.specificPositions.map Slot.field).take keys.length)) := by
  have parts : ∀ row : Row plan, row.source = source → row.specificCells =
      row.cells ((source.specificPositions.map Slot.field).take keys.length) ++
        row.cells ((source.specificPositions.map Slot.field).drop keys.length) := by
    intro row sameSource
    rw [Row.cells, Row.cells, ← List.map_append, List.take_append_drop, Row.specificCells, sameSource,
      Row.cells]
  have long : ∀ row : Row plan, keys.length ≤
      (row.cells ((source.specificPositions.map Slot.field).take keys.length)).length := by
    intro row
    simp only [Row.cells, List.length_map, List.length_take]
    omega
  rw [parts left leftSource, parts right rightSource, SortKey.compareAll_append (long left) (long right)]

theorem secondary_fewer (sound : order.Sound comparators) (row : Row order.plan) :
    (order.secondaryOf row.id).length ≤ row.source.specificPositions.length := by
  obtain ⟨⟨leading, rest, split, sorts⟩, _⟩ := sound.secondary row.declared row.source row.planned
  have lengths := row.planned.sound.feedsSpecific.length_eq
  have sameLength := sorts.length_eq
  rw [split, List.length_append, List.length_map] at lengths
  rw [Row.id]
  omega

theorem compareSecondary_rows (sound : order.Sound comparators) {left right : Row order.plan}
    (same : right.source = left.source) :
    compareSecondary left.source left.tuple right.tuple (order.secondaryOf left.id) =
      .ok (SortKey.compareAll (order.secondaryOf left.id) left.specificCells right.specificCells) := by
  obtain ⟨⟨leading, rest, split, sorts⟩, _⟩ := sound.secondary left.declared left.source left.planned
  have locates :=
    locates_leading left.planned.sound.distinct left.planned.sound.feedsSpecific split sorts
  rw [compareAll_specificCells (secondary_fewer sound left) rfl same]
  exact compareSecondary_eq same locates

theorem compare_rows (sound : order.Sound comparators) (left right : Row order.plan) :
    order.compare left.tuple right.tuple = .ok (order.compareRows left right) := by
  have common := compareCommon_eq sound.common left.commonSlots_give right.commonSlots_give left.id
    right.id [] [] 0
  rw [List.append_nil, List.append_nil] at common
  rw [compare, compareBy, left.sourceNamed sound.plan, right.sourceNamed sound.plan, ok_bind, ok_bind,
    ← Row.id, ← Row.id, common, ok_bind, compareRows, Row.commonCells, Row.commonCells, Row.cells,
    Row.cells]
  cases SortKey.compareAll order.common (left.source.commonSlots.map (Slot.cell left.tuple left.id))
      (right.source.commonSlots.map (Slot.cell right.tuple right.id)) with
  | lt => rfl
  | gt => rfl
  | eq =>
      by_cases same : left.id = right.id
      · have secondary := compareSecondary_rows sound (id_eq_iff.mp same)
        simpa [same] using secondary
      · simp [same]

theorem compareBy_take (sound : order.Sound comparators) (depth : Nat) (left right : Row order.plan) :
    order.compareBy (order.common.take depth) false left.tuple right.tuple =
      .ok (SortKey.compareAll (order.common.take depth) left.commonCells right.commonCells) := by
  have sorts : List.Forall₂ SortKey.SortsBy (order.common.take depth)
      (order.plan.common.fields.take depth) := List.forall₂_take depth sound.common
  have common := compareCommon_eq sorts (List.forall₂_take depth left.commonSlots_give)
    (List.forall₂_take depth right.commonSlots_give) left.id right.id
    (left.source.commonSlots.drop depth) (right.source.commonSlots.drop depth) 0
  have long : ∀ row : Row order.plan, (order.common.take depth).length ≤
      ((row.source.commonSlots.take depth).map (Slot.cell row.tuple row.id)).length := by
    intro row
    rw [List.length_map, sorts.length_eq, (List.forall₂_take depth row.commonSlots_give).length_eq]
  rw [List.take_append_drop, List.take_append_drop,
    ← SortKey.compareAll_append (long left) (long right)
      ((left.source.commonSlots.drop depth).map (Slot.cell left.tuple left.id))
      ((right.source.commonSlots.drop depth).map (Slot.cell right.tuple right.id)),
    ← List.map_append, ← List.map_append, List.take_append_drop, List.take_append_drop] at common
  rw [compareBy, left.sourceNamed sound.plan, right.sourceNamed sound.plan, ok_bind, ok_bind, ← Row.id,
    ← Row.id, common, ok_bind]
  simp [Row.commonCells, Row.cells]

def compareGroups (order : RecordOrder) (left right : Row order.plan) : Ordering :=
  SortKey.compareAll order.groups.keys left.commonCells right.commonCells

theorem groups_compare_rows (sound : order.Sound comparators) (left right : Row order.plan) :
    order.groups.compare left.tuple right.tuple = .ok (order.compareGroups left right) :=
  compareBy_take sound order.groups.size left right

end RecordOrder

end Cogrouping
