import Cogrouping.Proofs.Partition
import Cogrouping.Proofs.Rollup.Keys

/-!
Groups stay together. Tuples whose keys agree down to the least rollup depth have the same bytes in the
hashed fields, from whatever source they are, and so they go to one partition.
-/

namespace Cogrouping

def Item.Keyed {codec : FieldCodec} (items : List (Item codec)) (key : GroupKey) : Prop :=
  ∀ depth item value, items[depth]? = some item → key.get? depth = some value →
    item.cell = .value value ∧ value.conformsTo item.field.type = true

theorem RecordCodec.Holds.keyed {codec : FieldCodec} {plan : Plan} (sound : plan.Sound) {tuple : Tuple}
    {source : SourcePlan} (named : plan.sourceNamed tuple.schema.name = .ok source) {key : GroupKey}
    (made : GroupKey.ofTuple plan tuple = .ok key) {items : List (Item codec)} {fields : List Field}
    {count : Nat} (inside : count ≤ plan.groupBy.length)
    (holds : Holds items fields ((source.commonSlots.take count).map (Slot.cell tuple source.id))) :
    Item.Keyed items key := by
  intro depth item value found held
  have cells := congrArg (·[depth]?) holds.cells
  simp only [List.getElem?_map, found, Option.map_some] at cells
  obtain ⟨slot, slotFound, taken⟩ := Option.map_eq_some_iff.mp cells.symm
  rw [List.getElem?_take] at slotFound
  obtain ⟨before, slotPlace⟩ := Option.ite_none_right_eq_some.mp slotFound
  obtain ⟨position, rfl, given⟩ := GroupKey.get?_of_ofTuple sound made named
    (Nat.lt_of_lt_of_le before inside) slotPlace
  rw [Slot.cell, ← given, held, Option.getD_some] at taken
  have fits := item.fits
  rw [← taken] at fits
  cases fits with
  | value _ conforms => exact ⟨taken.symm, conforms⟩

namespace RecordOrder

variable {comparators : Comparators} {order : RecordOrder} {codec : FieldCodec}
  {lefts rights : List (Item codec)} {leftKey rightKey : GroupKey} {depth : Nat}

theorem compareAll_of_agree (sound : order.Sound comparators)
    (leftFields : lefts.map Item.field = order.plan.common.fields.take (depth + 1))
    (rightFields : rights.map Item.field = order.plan.common.fields.take (depth + 1))
    (leftKeyed : Item.Keyed lefts leftKey) (rightKeyed : Item.Keyed rights rightKey)
    (agree : order.groups.AgreeThrough leftKey rightKey depth) :
    SortKey.compareAll (order.common.take (depth + 1)) (lefts.map Item.cell) (rights.map Item.cell) =
      .eq := by
  have lengths : ∀ {items : List (Item codec)},
      items.map Item.field = order.plan.common.fields.take (depth + 1) →
      (order.common.take (depth + 1)).length ≤ (items.map Item.cell).length := by
    intro items fields
    have sameLength := congrArg List.length fields
    have keys := sound.common.length_eq
    simp only [List.length_map, List.length_take] at sameLength ⊢
    omega
  rw [SortKey.compareAll_eq_eq (lengths leftFields) (lengths rightFields)]
  intro place key leftCell rightCell keyFound leftFound rightFound
  rw [List.getElem?_map] at leftFound rightFound
  obtain ⟨left, leftPlace, rfl⟩ := Option.map_eq_some_iff.mp leftFound
  obtain ⟨right, rightPlace, rfl⟩ := Option.map_eq_some_iff.mp rightFound
  rw [List.getElem?_take] at keyFound
  obtain ⟨before, keyPlace⟩ := Option.ite_none_right_eq_some.mp keyFound
  obtain ⟨leftValue, rightValue, leftHeld, rightHeld, same⟩ :=
    GroupOrder.agreeAt_eq_true.mp (agree place (Nat.le_of_lt_succ before))
  obtain ⟨leftCell, leftConforms⟩ := leftKeyed place left leftValue leftPlace leftHeld
  obtain ⟨rightCell, rightConforms⟩ := rightKeyed place right rightValue rightPlace rightHeld
  have fieldOf : ∀ {items : List (Item codec)} {item : Item codec},
      items.map Item.field = order.plan.common.fields.take (depth + 1) → items[place]? = some item →
      order.plan.common.fields[place]? = some item.field := by
    intro items item fields found
    rw [← List.getElem?_take_of_lt before, ← fields, List.getElem?_map, found, Option.map_some]
  have leftField := fieldOf leftFields leftPlace
  have rightField := fieldOf rightFields rightPlace
  obtain ⟨field, found, sorts⟩ := sound.common.getElem?_left keyPlace
  obtain rfl := Option.some.inj (leftField.symm.trans found)
  have sameField := Option.some.inj (rightField.symm.trans leftField)
  rw [sameField] at rightConforms
  rw [sameField_eq keyPlace sorts leftConforms rightConforms, Except.ok.injEq, beq_iff_eq] at same
  rw [SortKey.compareCells_eq_eq, leftCell, rightCell]
  exact same

end RecordOrder

namespace Partitioner

theorem exists_hashed {partitioner : Partitioner} (sound : partitioner.plan.Sound)
    (several : partitioner.count ≠ 1) {tuple : Tuple} {key : GroupKey}
    (keyed : GroupKey.ofTuple partitioner.plan tuple = .ok key) {buffers after : Buffers}
    {id : PartitionId} (assigned : outcome (partitioner.assign tuple) buffers = (.ok id, after)) :
    ∃ items : List (Item partitioner.codec), Item.Keyed items key ∧
      items.map Item.field =
        partitioner.plan.common.fields.take (partitioner.plan.minDepth + 1) ∧
      after.out = Item.join items ∧ id = partitioner.route after.out := by
  obtain ⟨source, named, _⟩ := bind_eq_ok.mp keyed
  obtain ⟨declared, planned, _⟩ := (Plan.sourceNamed_eq_ok sound).mp named
  have feeds := List.forall₂_take (partitioner.plan.minDepth + 1) planned.sound.feedsCommon
  rw [assign_named sound several named] at assigned
  obtain ⟨_, between, written, routed⟩ := outcome_bind_eq_ok.mp assigned
  obtain ⟨items, holds, out⟩ := RecordCodec.encodeSlots_eq_ok feeds written
  have inside : partitioner.plan.minDepth + 1 ≤ partitioner.plan.groupBy.length := by
    rw [sound.groupBy_length_eq]
    exact Nat.succ_le_succ sound.common.shallowest
  cases routed
  exact ⟨items, holds.keyed sound named keyed inside, holds.fields, out, rfl⟩

/-- Tuples whose keys agree down to the least rollup depth are assigned one partition, whatever the
buffers held before: where there is more than one, by the same bytes. -/
theorem assign_colocates {job : Job} {plan : Plan} {codec fields : FieldCodec}
    {comparators : Comparators} {order : RecordOrder} (built : Plan.build job = .ok plan)
    (ordered : RecordOrder.ofPlan plan codec comparators = .ok order) {count : UInt64}
    {seed : Option UInt64} {partitioner : Partitioner}
    (made : ofPlan plan fields count seed = .ok partitioner) {left right : Tuple}
    {leftKey rightKey : GroupKey} (leftKeyed : GroupKey.ofTuple plan left = .ok leftKey)
    (rightKeyed : GroupKey.ofTuple plan right = .ok rightKey)
    (agree : order.groups.AgreeThrough leftKey rightKey plan.minDepth)
    {leftBuffers rightBuffers leftAfter rightAfter : Buffers} {leftId rightId : PartitionId}
    (leftAssigned : outcome (partitioner.assign left) leftBuffers = (.ok leftId, leftAfter))
    (rightAssigned : outcome (partitioner.assign right) rightBuffers = (.ok rightId, rightAfter)) :
    leftId = rightId ∧ leftId.number.toNat < max count.toNat 1 ∧
      (1 < count → leftAfter.out = rightAfter.out ∧ leftId = partitioner.route leftAfter.out) := by
  obtain ⟨planSound, rfl⟩ := Plan.build_sound built
  obtain ⟨sound, rfl, -⟩ := RecordOrder.ofPlan_sound planSound ordered
  obtain ⟨rfl, plain⟩ := ofPlan_sound made
  have positive := max_positive count
  by_cases single : max count 1 = 1
  · have alone : ∀ {tuple : Tuple} {buffers after : Buffers} {id : PartitionId},
        outcome (assign ⟨order.plan, fields, max count 1, seed⟩ tuple) buffers = (.ok id, after) →
        id = ⟨0⟩ := by
      intro tuple buffers after id assigned
      rw [assign, if_pos single, outcome_pure] at assigned
      cases assigned
      rfl
    obtain rfl := alone leftAssigned
    obtain rfl := alone rightAssigned
    refine ⟨rfl, ?_, fun several => absurd several ?_⟩
    · exact Nat.lt_of_lt_of_le Nat.zero_lt_one (Nat.le_max_right _ _)
    · rw [UInt64.lt_iff_toNat_lt]
      have most := congrArg UInt64.toNat single
      have one : (1 : UInt64).toNat = 1 := rfl
      rw [toNat_max_one] at most
      omega
  · obtain ⟨lefts, leftItems, leftFields, leftOut, rfl⟩ :=
      exists_hashed sound.plan single leftKeyed leftAssigned
    obtain ⟨rights, rightItems, rightFields, rightOut, rfl⟩ :=
      exists_hashed sound.plan single rightKeyed rightAssigned
    have sameBytes : leftAfter.out = rightAfter.out := by
      rw [leftOut, rightOut]
      exact Item.join_eq_of_hashed sound (plain ((one_lt_iff positive).mpr single)) leftFields rightFields
        (RecordOrder.compareAll_of_agree sound leftFields rightFields leftItems rightItems agree)
    refine ⟨congrArg _ sameBytes, ?_, fun _ => ⟨sameBytes, rfl⟩⟩
    rw [← toNat_max_one]
    exact route_lt _ positive _

end Partitioner

/-! A page and a visit to it: the address is in the first place of the one and the last of the other. -/

namespace Sample

def partitioner : Partitioner :=
  valueOf (Partitioner.ofPlan plan fields 8 (some 1)) (by decide)

def pageKey : GroupKey := valueOf (GroupKey.ofTuple plan page) (by decide)

def visitKey : GroupKey := valueOf (GroupKey.ofTuple plan visit) (by decide)

theorem keys_agree : order.groups.AgreeThrough pageKey visitKey plan.minDepth := by
  intro depth inside
  obtain rfl : depth = 0 := Nat.le_zero.mp inside
  rfl

end Sample

theorem Partitioner.assign_colocates_sample :
    ∃ id pageAfter visitAfter,
      outcome (Sample.partitioner.assign Sample.page) ⟨[7], [8]⟩ = (.ok id, pageAfter) ∧
      outcome (Sample.partitioner.assign Sample.visit) ⟨[], [1, 2, 3]⟩ = (.ok id, visitAfter) ∧
      id.number.toNat < 8 ∧ pageAfter.out = visitAfter.out := by
  have sound : Sample.partitioner.plan.Sound := (Plan.build_sound Sample.built).1
  have pageEncoded : Sample.records.encode Sample.page =
      .ok (valueOf (Sample.records.encode Sample.page) (by decide +kernel)) := eq_valueOf _
  have visitEncoded : Sample.records.encode Sample.visit =
      .ok (valueOf (Sample.records.encode Sample.visit) (by decide +kernel)) := eq_valueOf _
  obtain ⟨pageId, pageAfter, pageAssigned⟩ :=
    Partitioner.exists_assigned sound pageEncoded ⟨[7], [8]⟩
  obtain ⟨visitId, visitAfter, visitAssigned⟩ :=
    Partitioner.exists_assigned sound visitEncoded ⟨[], [1, 2, 3]⟩
  have ordered : RecordOrder.ofPlan Sample.plan Sample.fields .empty = .ok Sample.order := eq_valueOf _
  have made : Partitioner.ofPlan Sample.plan Sample.fields 8 (some 1) = .ok Sample.partitioner :=
    eq_valueOf _
  have pageKeyed : GroupKey.ofTuple Sample.plan Sample.page = .ok Sample.pageKey := eq_valueOf _
  have visitKeyed : GroupKey.ofTuple Sample.plan Sample.visit = .ok Sample.visitKey := eq_valueOf _
  obtain ⟨rfl, bound, same⟩ := Partitioner.assign_colocates Sample.built ordered made pageKeyed
    visitKeyed Sample.keys_agree pageAssigned visitAssigned
  exact ⟨pageId, pageAfter, visitAfter, pageAssigned, visitAssigned, bound, (same (by decide)).1⟩

end Cogrouping
