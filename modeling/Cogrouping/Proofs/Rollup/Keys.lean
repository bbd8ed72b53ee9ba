import Cogrouping.Proofs.Order.Total
import Cogrouping.Proofs.Rollup.Walk

/-!
Group keys. A tuple makes a key if its source is declared and its group-by values may stand in their
fields, and keys differ exactly where the order by these fields does.
-/

namespace Cogrouping

/-- A tuple names a declared source and has, in the places of that source's fields, group-by values of
the declared types. -/
def Job.HasKey (job : Job) (tuple : Tuple) : Prop :=
  ∃ source ∈ job.sources, tuple.schema.name = source.schema.name ∧
    ∀ name ∈ job.groupBy, ∃ position field value, source.schema.fields[position]? = some field ∧
      field.name = name ∧ tuple.get? position = some value ∧ value.conformsTo field.type = true

def GroupKey.Fits (plan : Plan) (key : GroupKey) : Prop :=
  ∀ depth field, depth < plan.groupBy.length → plan.common.fields[depth]? = some field →
    ∃ value, key.get? depth = some value ∧ value.conformsTo field.type = true

namespace GroupKey

variable {plan : Plan} {declared : Source} {source : SourcePlan} {tuple : Tuple} {key : GroupKey}

theorem ofTuple_planned (sound : plan.Sound) (planned : plan.Planned declared source)
    (named : plan.sourceNamed tuple.schema.name = .ok source) :
    ofTuple plan tuple = .ok {
      tuple, groupBy := plan.groupBy
      positions := (source.commonSlots.take plan.groupBy.length).filterMap Slot.position? } := by
  have positions : (source.commonSlots.take plan.groupBy.length).mapM slotPosition =
      .ok ((source.commonSlots.take plan.groupBy.length).filterMap Slot.position?) := by
    rw [planned.groupSlots_eq sound, mapM_eq_ok, List.forall₂_map_left_iff, List.filterMap_map]
    simp [Slot.position?, List.filterMap_some, Function.comp_def, slotPosition, List.forall₂_same]
  rw [ofTuple, named, ok_bind, positions]
  rfl

theorem get?_of_ofTuple (sound : plan.Sound) (made : ofTuple plan tuple = .ok key)
    (named : plan.sourceNamed tuple.schema.name = .ok source) {depth : Nat}
    (inside : depth < plan.groupBy.length) {slot : Slot}
    (found : source.commonSlots[depth]? = some slot) :
    ∃ position, slot = .field position ∧ key.get? depth = tuple.get? position := by
  obtain ⟨declared, planned, _⟩ := (Plan.sourceNamed_eq_ok sound).mp named
  rw [ofTuple_planned sound planned named, Except.ok.injEq] at made
  have slots := congrArg (·[depth]?) (planned.groupSlots_eq sound)
  simp only [List.getElem?_take_of_lt inside, found, List.getElem?_map] at slots
  obtain ⟨position, atPosition, rfl⟩ := Option.map_eq_some_iff.mp slots.symm
  refine ⟨position, rfl, ?_⟩
  rw [← made, get?, atPosition]
  rfl

end GroupKey

namespace GroupOrder

variable (order : GroupOrder) (left right : GroupKey)

def agreeAt (depth : Nat) : Bool :=
  match left.get? depth, right.get? depth with
  | some leftValue, some rightValue =>
      match order.sameField depth leftValue rightValue with
      | .ok same => same
      | .error _ => false
  | _, _ => false

def AgreeThrough (depth : Nat) : Prop := ∀ place ≤ depth, order.agreeAt left right place = true

def differAt : Nat :=
  ((List.range (order.plan.maxDepth + 1)).find? fun depth => !order.agreeAt left right depth).elim
    (order.plan.maxDepth + 1) (max · order.plan.minDepth)

variable {order left right}

theorem agreeAt_eq_true {depth : Nat} : order.agreeAt left right depth = true ↔
    ∃ leftValue rightValue, left.get? depth = some leftValue ∧ right.get? depth = some rightValue ∧
      order.sameField depth leftValue rightValue = .ok true := by
  rw [agreeAt]
  cases left.get? depth with
  | none => simp
  | some leftValue =>
      cases right.get? depth with
      | none => simp
      | some rightValue =>
          cases compared : order.sameField depth leftValue rightValue <;> simp [compared]

theorem differAt_le_iff {depth : Nat} (shallow : order.plan.minDepth ≤ depth)
    (deep : depth ≤ order.plan.maxDepth) :
    order.differAt left right ≤ depth ↔ ¬order.AgreeThrough left right depth := by
  rw [differAt]
  cases found : (List.range (order.plan.maxDepth + 1)).find? fun depth =>
      !order.agreeAt left right depth with
  | none =>
      rw [List.find?_eq_none] at found
      have same : order.AgreeThrough left right depth := by
        intro place inside
        simpa using found place (List.mem_range.mpr (by omega))
      rw [Option.elim_none]
      exact iff_of_false (by omega) (not_not_intro same)
  | some first =>
      obtain ⟨differs, _, before⟩ := List.find?_range_eq_some.mp found
      rw [Option.elim_some]
      constructor
      · intro reached same
        have equal := same first (by omega)
        simp [equal] at differs
      · intro some
        by_contra later
        apply some
        intro place inside
        simpa using before place (by omega)

theorem minDepth_le_differAt (shallowest : order.plan.minDepth ≤ order.plan.maxDepth) :
    order.plan.minDepth ≤ order.differAt left right := by
  rw [differAt]
  cases (List.range (order.plan.maxDepth + 1)).find? fun depth => !order.agreeAt left right depth with
  | none => exact Nat.le_succ_of_le shallowest
  | some first => exact Nat.le_max_right _ _

theorem differAt_le (shallowest : order.plan.minDepth ≤ order.plan.maxDepth) :
    order.differAt left right ≤ order.plan.maxDepth + 1 := by
  rw [differAt]
  cases found : (List.range (order.plan.maxDepth + 1)).find? fun depth =>
      !order.agreeAt left right depth with
  | none => exact Nat.le_refl _
  | some first =>
      obtain ⟨_, inside, _⟩ := List.find?_range_eq_some.mp found
      rw [Option.elim_some]
      have bound := List.mem_range.mp inside
      omega

theorem differAt_eq_iff (shallowest : order.plan.minDepth ≤ order.plan.maxDepth) :
    order.differAt left right = order.plan.maxDepth + 1 ↔
      order.AgreeThrough left right order.plan.maxDepth := by
  have reached : order.differAt left right ≤ order.plan.maxDepth ↔ _ :=
    differAt_le_iff shallowest (Nat.le_refl _)
  have bound : order.differAt left right ≤ order.plan.maxDepth + 1 := differAt_le shallowest
  rw [← not_iff_not, ← reached]
  omega

end GroupOrder

namespace RecordOrder

variable {comparators : Comparators} {order : RecordOrder} {left right : GroupKey}

theorem sameField_eq {key : SortKey} {field : Field} {depth : Nat}
    (found : order.common[depth]? = some key) (sorts : key.SortsBy field) {leftValue rightValue : Value}
    (leftConforms : leftValue.conformsTo field.type = true)
    (rightConforms : rightValue.conformsTo field.type = true) :
    order.groups.sameField depth leftValue rightValue =
      .ok (key.ascending (.value leftValue) (.value rightValue) == .eq) := by
  have here : order.groups.records.common[depth]? = some key := found
  rw [GroupOrder.sameField, here]
  simp only [SortKey.compareValues_eq sorts leftConforms rightConforms, Except.map]

theorem sameField_fits (sound : order.Sound comparators) (leftFits : left.Fits order.plan)
    (rightFits : right.Fits order.plan) {depth : Nat} (inside : depth < order.plan.groupBy.length) :
    ∃ leftValue rightValue, left.get? depth = some leftValue ∧ right.get? depth = some rightValue ∧
      order.groups.sameField depth leftValue rightValue =
        .ok (order.groups.agreeAt left right depth) := by
  have within : depth < order.plan.common.fields.length :=
    Nat.lt_of_lt_of_le inside sound.plan.groupBy_length_le
  have found : order.plan.common.fields[depth]? = some order.plan.common.fields[depth] :=
    List.getElem?_eq_getElem within
  obtain ⟨leftValue, leftHeld, leftConforms⟩ := leftFits depth _ inside found
  obtain ⟨rightValue, rightHeld, rightConforms⟩ := rightFits depth _ inside found
  obtain ⟨key, keyPlace, sorts⟩ := sound.common.flip.getElem?_left found
  have compared := sameField_eq keyPlace sorts leftConforms rightConforms
  refine ⟨leftValue, rightValue, leftHeld, rightHeld, ?_⟩
  simp only [GroupOrder.agreeAt, leftHeld, rightHeld, compared]

theorem mismatchAmong_fits (sound : order.Sound comparators) (leftFits : left.Fits order.plan)
    (rightFits : right.Fits order.plan) {depths : List Nat}
    (inside : ∀ depth ∈ depths, depth < order.plan.groupBy.length) :
    (Rollup.Engine.ofOrder order.groups).mismatchAmong left right depths =
      .ok ((depths.find? fun depth => !order.groups.agreeAt left right depth).elim
        (order.plan.maxDepth + 1) (max · order.plan.minDepth)) := by
  induction depths with
  | nil => rfl
  | cons depth depths ih =>
      rw [List.forall_mem_cons] at inside
      obtain ⟨leftValue, rightValue, leftHeld, rightHeld, same⟩ :=
        sameField_fits sound leftFits rightFits inside.1
      have asked : (Rollup.Engine.ofOrder order.groups).order.sameField depth leftValue rightValue =
          .ok (order.groups.agreeAt left right depth) := same
      simp only [Rollup.Engine.mismatchAmong, leftHeld, rightHeld, asked, ok_bind]
      cases held : order.groups.agreeAt left right depth with
      | true =>
          rw [if_pos rfl, ih inside.2, List.find?_cons_of_neg (by simp [held])]
      | false =>
          rw [List.find?_cons_of_pos (by simp [held])]
          rfl

theorem tells_fits (sound : order.Sound comparators) :
    Rollup.Walking.Tells (Rollup.Engine.ofOrder order.groups) (GroupKey.Fits order.plan)
      order.groups.differAt := by
  intro left right leftFits rightFits
  refine mismatchAmong_fits sound leftFits rightFits fun depth member => ?_
  rw [sound.plan.groupBy_length_eq]
  exact List.mem_range.mp member

theorem outcome_walk (sound : order.Sound comparators) {ι σ ε : Type} [SortedGroups ι] [BoundedGroups ι]
    {handler : Handler σ ε} (unfailing : handler.Unfailing) {input : ι}
    {delivered : List (Tuple × List Tuple)} {keyed : List (GroupKey × List Tuple)}
    (delivers : Delivers input delivered) (keys : Rollup.Walking.Keyed order.plan delivered keyed)
    (fit : ∀ group ∈ keyed, group.1.Fits order.plan) (context : Context) (state : σ) :
    ∃ last, outcome (Rollup.Walking.run handler context) ⟨.ofOrder order.groups, input, state⟩ =
        (.ok ((((Rollup.Engine.ofOrder order.groups).trace order.groups.differAt context keyed).foldl
            Rollup.Stats.after {}).skip (handler.unreadAll state
              ((Rollup.Engine.ofOrder order.groups).trace order.groups.differAt context keyed))), last) ∧
      last.state = ((Rollup.Engine.ofOrder order.groups).trace order.groups.differAt context keyed).foldl
        handler.respond state := by
  let start : Rollup.Walk ι σ := ⟨.ofOrder order.groups, input, state⟩
  have begun : Delivers start.input delivered := delivers
  have tells : Rollup.Walking.Tells start.engine (GroupKey.Fits order.plan) order.groups.differAt :=
    tells_fits sound
  have awaits : start.engine.phase ≠ .done := by simp [start, Rollup.Engine.ofOrder]
  exact Rollup.Walking.outcome_run unfailing rfl begun keys fit tells awaits rfl context

end RecordOrder

structure KeyRow (plan : Plan) where
  tuple : Tuple
  declared : Source
  source : SourcePlan
  planned : plan.Planned declared source
  named : tuple.schema.name = declared.schema.name
  gives : List.Forall₂ (Slot.Gives tuple) (plan.common.fields.take plan.groupBy.length)
    (source.commonSlots.take plan.groupBy.length)

theorem Plan.Sound.exists_keyRow {plan : Plan} (sound : plan.Sound) {tuple : Tuple}
    (keyed : plan.job.HasKey tuple) : ∃ row : KeyRow plan, row.tuple = tuple := by
  obtain ⟨declared, member, named, values⟩ := keyed
  obtain ⟨source, planned⟩ := sound.exists_planned member
  have valid := planned.valid sound
  refine ⟨⟨tuple, declared, source, planned, named, ?_⟩, rfl⟩
  have feeds := List.forall₂_take plan.groupBy.length planned.sound.feedsCommon
  have grouped : ∀ field ∈ plan.common.fields.take plan.groupBy.length,
      field.name ∈ plan.job.groupBy ∧ field.isSourceId = false := fun field inside =>
    ⟨sound.grouped_names field inside, sound.grouped_unmarked field inside⟩
  refine ((List.forall₂_and_left _ _).mpr ⟨grouped, feeds⟩).imp ?_
  rintro field slot ⟨⟨groupedHere, unmarkedHere⟩, fed⟩
  cases fed with
  | sourceId marked => simp [unmarkedHere] at marked
  | @field position declaredField _ found sameName typed =>
      obtain ⟨other, otherField, value, otherFound, otherName, held, conforms⟩ := values _ groupedHere
      rw [← planned.sound.schema] at otherFound
      have place := (Schema.indexOf?_eq_some valid.distinct).mpr (by
        rw [Schema.names, List.getElem?_map, found, Option.map_some, sameName])
      have otherPlace := (Schema.indexOf?_eq_some valid.distinct).mpr (by
        rw [Schema.names, List.getElem?_map, otherFound, Option.map_some, otherName])
      obtain rfl := Option.some.inj (place.symm.trans otherPlace)
      obtain rfl := Option.some.inj (found.symm.trans otherFound)
      exact .field unmarkedHere held (typed ▸ conforms)

namespace KeyRow

variable {plan : Plan} (row : KeyRow plan)

def cells : List Cell :=
  (row.source.commonSlots.take plan.groupBy.length).map (Slot.cell row.tuple row.source.id)

theorem cells_fit : List.Forall₂ Cell.Fits (plan.common.fields.take plan.groupBy.length) row.cells := by
  rw [cells, List.forall₂_map_right_iff]
  exact row.gives.imp fun field slot gives => gives.fits row.source.id

def key : GroupKey where
  tuple := row.tuple
  positions := (row.source.commonSlots.take plan.groupBy.length).filterMap Slot.position?
  groupBy := plan.groupBy

theorem sourceNamed (sound : plan.Sound) :
    plan.sourceNamed row.tuple.schema.name = .ok row.source :=
  (Plan.sourceNamed_eq_ok sound).mpr ⟨row.declared, row.planned, row.named.symm⟩

theorem ofTuple_tuple (sound : plan.Sound) : GroupKey.ofTuple plan row.tuple = .ok row.key :=
  GroupKey.ofTuple_planned sound row.planned (row.sourceNamed sound)

theorem exists_value (sound : plan.Sound) {depth : Nat} {field : Field}
    (inside : depth < plan.groupBy.length) (found : plan.common.fields[depth]? = some field) :
    ∃ value, row.key.get? depth = some value ∧ row.cells[depth]? = some (.value value) ∧
      value.conformsTo field.type = true := by
  rw [← List.getElem?_take_of_lt inside] at found
  obtain ⟨slot, slotPlace, gives⟩ := row.gives.getElem?_left found
  rw [List.getElem?_take_of_lt inside] at slotPlace
  obtain ⟨position, rfl, taken⟩ := GroupKey.get?_of_ofTuple sound (row.ofTuple_tuple sound)
    (row.sourceNamed sound) inside slotPlace
  cases gives with
  | @field _ value unmarked held conforms =>
      refine ⟨value, taken.trans held, ?_, conforms⟩
      rw [cells, List.getElem?_map, List.getElem?_take_of_lt inside, slotPlace, Option.map_some,
        Slot.cell, held, Option.getD_some]

theorem key_fits (sound : plan.Sound) : row.key.Fits plan := by
  intro depth field inside found
  obtain ⟨value, held, _, conforms⟩ := row.exists_value sound inside found
  exact ⟨value, held, conforms⟩

end KeyRow

theorem Plan.Sound.exists_keyRows {plan : Plan} (sound : plan.Sound) {tuples : List Tuple}
    (keyed : ∀ tuple ∈ tuples, plan.job.HasKey tuple) :
    ∃ rows : List (KeyRow plan), rows.map KeyRow.tuple = tuples := by
  induction tuples with
  | nil => exact ⟨[], rfl⟩
  | cons tuple tuples ih =>
      rw [List.forall_mem_cons] at keyed
      obtain ⟨row, rfl⟩ := sound.exists_keyRow keyed.1
      obtain ⟨rows, rfl⟩ := ih keyed.2
      exact ⟨row :: rows, rfl⟩

theorem Plan.Sound.exists_keyed {plan : Plan} (sound : plan.Sound) {groups : List (Tuple × List Tuple)}
    (keyed : ∀ group ∈ groups, plan.job.HasKey group.1) : ∃ keys, Rollup.Walking.Keyed plan groups keys ∧
      ∀ group ∈ keys, group.1.Fits plan := by
  induction groups with
  | nil => exact ⟨[], .nil, by simp⟩
  | cons group groups ih =>
      rw [List.forall_mem_cons] at keyed
      obtain ⟨row, same⟩ := sound.exists_keyRow keyed.1
      obtain ⟨keys, made, fit⟩ := ih keyed.2
      refine ⟨(row.key, group.2) :: keys, .cons ⟨?_, rfl⟩ made, ?_⟩
      · rw [← same]
        exact row.ofTuple_tuple sound
      · exact List.forall_mem_cons.mpr ⟨row.key_fits sound, fit⟩

namespace RecordOrder

variable {comparators : Comparators} {order : RecordOrder}

def compareKeys (order : RecordOrder) (depth : Nat) (left right : KeyRow order.plan) : Ordering :=
  SortKey.compareAll (order.common.take depth) left.cells right.cells

theorem take_fields {depth : Nat} (inside : depth ≤ order.plan.groupBy.length) :
    (order.plan.common.fields.take order.plan.groupBy.length).take depth =
      order.plan.common.fields.take depth := by
  rw [List.take_take, Nat.min_eq_left inside]

theorem transCmp_compareKeys (sound : order.Sound comparators) (total : comparators.Total) {depth : Nat}
    (inside : depth ≤ order.plan.groupBy.length) : Std.TransCmp (order.compareKeys depth) := by
  have orders : List.Forall₂ SortKey.Orders (order.common.take depth)
      (order.plan.common.fields.take depth) :=
    List.forall₂_take depth (SortKey.orders_of_sorts sound.common (registered_common sound) total)
  rw [← take_fields inside] at orders
  have whole := SortKey.transCmp_compareAll orders
    ((order.plan.common.fields.take order.plan.groupBy.length).drop depth)
  rw [List.take_append_drop] at whole
  exact transCmp_preimage whole fun row : KeyRow order.plan =>
    (⟨row.cells, row.cells_fit⟩ :
      SortKey.Fitting (order.plan.common.fields.take order.plan.groupBy.length))

theorem keys_length_le (sound : order.Sound comparators) {depth : Nat}
    (inside : depth ≤ order.plan.groupBy.length) (row : KeyRow order.plan) :
    (order.common.take depth).length ≤ row.cells.length := by
  have fields := row.cells_fit.length_eq
  have keys := sound.common.length_eq
  rw [List.length_take] at fields ⊢
  omega

theorem compareBy_keys (sound : order.Sound comparators) {depth : Nat}
    (inside : depth ≤ order.plan.groupBy.length) (left right : KeyRow order.plan) :
    order.compareBy (order.common.take depth) false left.tuple right.tuple =
      .ok (order.compareKeys depth left right) := by
  have named : ∀ row : KeyRow order.plan,
      order.plan.sourceNamed row.tuple.schema.name = .ok row.source := fun row =>
    row.sourceNamed sound.plan
  have sorts : List.Forall₂ SortKey.SortsBy (order.common.take depth)
      (order.plan.common.fields.take depth) := List.forall₂_take depth sound.common
  have give : ∀ row : KeyRow order.plan, List.Forall₂ (Slot.Gives row.tuple)
      (order.plan.common.fields.take depth) (row.source.commonSlots.take depth) := by
    intro row
    have gives := List.forall₂_take depth row.gives
    rw [take_fields inside, List.take_take, Nat.min_eq_left inside] at gives
    exact gives
  have common := compareCommon_eq sorts (give left) (give right) left.source.id right.source.id
    (left.source.commonSlots.drop depth) (right.source.commonSlots.drop depth) 0
  rw [List.take_append_drop, List.take_append_drop] at common
  have parts : ∀ row : KeyRow order.plan, row.cells =
      (row.source.commonSlots.take depth).map (Slot.cell row.tuple row.source.id) ++
        row.cells.drop depth := by
    intro row
    have split := (List.take_append_drop depth row.cells).symm
    rw [KeyRow.cells, ← List.map_take, List.take_take, Nat.min_eq_left inside] at split
    exact split
  have long : ∀ row : KeyRow order.plan, (order.common.take depth).length ≤
      ((row.source.commonSlots.take depth).map (Slot.cell row.tuple row.source.id)).length := by
    intro row
    rw [List.length_map, sorts.length_eq, (give row).length_eq]
  rw [compareBy, named left, named right, ok_bind, ok_bind, common, ok_bind, compareKeys, parts left,
    parts right, SortKey.compareAll_append (long left) (long right)]
  simp

theorem agreeAt_keys (sound : order.Sound comparators) (left right : KeyRow order.plan) {depth : Nat}
    (inside : depth < order.plan.groupBy.length) : ∃ key leftCell rightCell,
      order.common[depth]? = some key ∧ left.cells[depth]? = some leftCell ∧ right.cells[depth]? = some rightCell ∧
      (order.groups.agreeAt left.key right.key depth = true ↔
        key.compareCells leftCell rightCell = .eq) := by
  have within : depth < order.plan.common.fields.length :=
    Nat.lt_of_lt_of_le inside sound.plan.groupBy_length_le
  have found : order.plan.common.fields[depth]? = some order.plan.common.fields[depth] :=
    List.getElem?_eq_getElem within
  obtain ⟨leftValue, leftHeld, leftCell, leftConforms⟩ := left.exists_value sound.plan inside found
  obtain ⟨rightValue, rightHeld, rightCell, rightConforms⟩ := right.exists_value sound.plan inside found
  obtain ⟨key, keyPlace, sorts⟩ := sound.common.flip.getElem?_left found
  refine ⟨key, _, _, keyPlace, leftCell, rightCell, ?_⟩
  simp only [GroupOrder.agreeAt, leftHeld, rightHeld, beq_iff_eq, SortKey.compareCells_eq_eq,
    sameField_eq keyPlace sorts leftConforms rightConforms]

theorem compareKeys_eq_eq (sound : order.Sound comparators) {depth : Nat}
    (inside : depth ≤ order.plan.groupBy.length) (left right : KeyRow order.plan) :
    order.compareKeys depth left right = .eq ↔
      ∀ place < depth, order.groups.agreeAt left.key right.key place = true := by
  rw [compareKeys, SortKey.compareAll_eq_eq (keys_length_le sound inside left)
    (keys_length_le sound inside right)]
  constructor
  · intro all place before
    obtain ⟨key, leftCell, rightCell, keyPlace, leftPlace, rightPlace, agree⟩ :=
      agreeAt_keys sound left right (Nat.lt_of_lt_of_le before inside)
    rw [← List.getElem?_take_of_lt before] at keyPlace
    exact agree.mpr (all place key leftCell rightCell keyPlace leftPlace rightPlace)
  · intro all place key leftCell rightCell keyPlace leftPlace rightPlace
    rw [List.getElem?_take] at keyPlace
    by_cases before : place < depth
    · rw [if_pos before] at keyPlace
      obtain ⟨sameKey, sameLeft, sameRight, keyFound, leftFound, rightFound, agree⟩ :=
        agreeAt_keys sound left right (Nat.lt_of_lt_of_le before inside)
      obtain rfl := Option.some.inj (keyPlace.symm.trans keyFound)
      obtain rfl := Option.some.inj (leftPlace.symm.trans leftFound)
      obtain rfl := Option.some.inj (rightPlace.symm.trans rightFound)
      exact agree.mp (all place before)
    · simp [before] at keyPlace

theorem agreeThrough_iff_compareKeys (sound : order.Sound comparators) (left right : KeyRow order.plan)
    {depth : Nat} (deep : depth ≤ order.plan.maxDepth) :
    order.groups.AgreeThrough left.key right.key depth ↔
      order.compareKeys (depth + 1) left right = .eq := by
  have size : order.plan.groupBy.length = order.plan.maxDepth + 1 := sound.plan.groupBy_length_eq
  rw [compareKeys_eq_eq sound (by omega), GroupOrder.AgreeThrough]
  exact forall_congr' fun place => by rw [Nat.lt_succ_iff]

theorem differAt_le_iff_compareKeys (sound : order.Sound comparators) (left right : KeyRow order.plan)
    {depth : Nat} (shallow : order.plan.minDepth ≤ depth) (deep : depth ≤ order.plan.maxDepth) :
    order.groups.differAt left.key right.key ≤ depth ↔
      order.compareKeys (depth + 1) left right ≠ .eq := by
  rw [ne_eq, ← agreeThrough_iff_compareKeys sound left right deep]
  exact GroupOrder.differAt_le_iff shallow deep

end RecordOrder

end Cogrouping
