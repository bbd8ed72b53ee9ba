import Cogrouping.Proofs.Order.Tuples
import Cogrouping.Proofs.Rollup.Nested
import Cogrouping.Proofs.Rollup.Rows
import Mathlib.Data.Set.List

/-!
Groups within the order of tuples. The group order begins the order of tuples, and it holds two tuples
equal where their keys agree in every field, which is where a walk finds no depth at which they differ.
So the tuples of a group, and those whose keys agree down to a depth, stand together in a sorted list.
-/

namespace Cogrouping.Sort

variable {α β : Type}

/-- The items of a kind are neighbours, with no other item between two of them. -/
def Together (kind : β → Prop) (items : List β) : Prop :=
  ∃ before block after, items = before ++ block ++ after ∧ (∀ item ∈ block, kind item) ∧
    ∀ item ∈ before ++ after, ¬kind item

namespace Together

variable {kind other : β → Prop} {items : List β}

theorem congr (together : Together kind items) (same : ∀ item ∈ items, kind item ↔ other item) :
    Together other items := by
  obtain ⟨before, block, after, rfl, inside, outside⟩ := together
  refine ⟨before, block, after, rfl, ?_, ?_⟩
  · intro item member
    exact (same item (by simp [member])).mp (inside item member)
  · intro item member
    have present : item ∈ before ++ block ++ after := by
      simp only [List.mem_append] at member ⊢
      tauto
    rw [← same item present]
    exact outside item member

theorem map {view : α → β} {items : List α} (together : Together (fun item => kind (view item)) items) :
    Together kind (items.map view) := by
  obtain ⟨before, block, after, rfl, inside, outside⟩ := together
  refine ⟨before.map view, block.map view, after.map view, by simp, ?_, ?_⟩
  · exact List.forall_mem_map.mpr inside
  · rw [← List.map_append]
    exact List.forall_mem_map.mpr outside

end Together

variable {order : α → α → Ordering} [Std.TransCmp order]

theorem together_of_pairwise {items : List α}
    (ascending : items.Pairwise fun left right => (order left right).isLE) (item : α) :
    Together (order item · = .eq) items := by
  obtain ⟨runs, cuts⟩ := exists_cuts ascending
  by_cases met : ∃ other ∈ items, order item other = .eq
  · obtain ⟨other, member, equal⟩ := met
    obtain ⟨run, inside, held⟩ := cuts.exists_run member
    have opens : order item run.first = .eq := Std.TransCmp.eq_trans equal (Std.OrientedCmp.eq_symm held)
    obtain ⟨earlier, later, rfl⟩ := List.append_of_mem inside
    have differs : ∀ another ∈ earlier ++ later, order another.first run.first ≠ .eq := by
      obtain ⟨-, ascends, apart⟩ := List.pairwise_append.mp cuts.ascending
      intro another here
      rcases List.mem_append.mp here with before | behind
      · simp [apart another before run List.mem_cons_self]
      · simp [Std.OrientedCmp.gt_of_lt (List.rel_of_pairwise_cons ascends behind)]
    refine ⟨earlier.flatMap Run.items, run.items, later.flatMap Run.items, ?_, ?_, ?_⟩
    · rw [← cuts.joined, List.flatMap_append, List.flatMap_cons, List.append_assoc]
    · intro other held
      exact Std.TransCmp.eq_trans opens (cuts.alike run inside other held)
    · rw [← List.flatMap_append]
      intro other outside equal
      obtain ⟨another, here, held⟩ := List.mem_flatMap.mp outside
      have cut : another ∈ earlier ++ run :: later := by
        simp only [List.mem_append, List.mem_cons] at here ⊢
        tauto
      refine differs another here (Std.TransCmp.eq_trans (cuts.alike another cut other held) ?_)
      exact Std.TransCmp.eq_trans (Std.OrientedCmp.eq_symm equal) opens
  · refine ⟨items, [], [], by simp, by simp, ?_⟩
    rw [List.append_nil]
    exact fun other member equal => met ⟨other, member, equal⟩

end Cogrouping.Sort

namespace Cogrouping

open Rollup

def Row.keyed {plan : Plan} (row : Row plan) : KeyRow plan where
  tuple := row.tuple
  declared := row.declared
  source := row.source
  planned := row.planned
  named := row.named
  gives := List.forall₂_take plan.groupBy.length row.commonSlots_give

namespace RecordOrder

/-- How two tuples compare as groups and as tuples, and what their keys have in common. -/
structure Refines (order : RecordOrder) (left right : Tuple) (grouping sorting : Ordering) : Prop where
  grouped : order.groups.compare left right = .ok grouping
  sorted : order.compare left right = .ok sorting
  begins : grouping ≠ .eq → sorting = grouping
  leftKey : GroupKey.ofTuple order.plan left = .ok (order.keyOf left)
  rightKey : GroupKey.ofTuple order.plan right = .ok (order.keyOf right)
  agrees : grouping = .eq ↔
    order.groups.AgreeThrough (order.keyOf left) (order.keyOf right) order.plan.maxDepth
  meets : grouping = .eq ↔
    (Engine.ofOrder order.groups).mismatch (order.keyOf left) (order.keyOf right) =
      .ok (order.plan.maxDepth + 1)

variable {comparators : Comparators} {order : RecordOrder}

theorem compareKeys_keyed (sound : order.Sound comparators) {depth : Nat}
    (inside : depth ≤ order.plan.groupBy.length) (left right : Row order.plan) :
    order.compareKeys depth left.keyed right.keyed = order.comparePrefix depth left right :=
  compareKeys_rows sound inside left right

theorem keyOf_keyed (sound : order.Sound comparators) (row : Row order.plan) :
    order.keyOf row.tuple = row.keyed.key := keyOf_row sound row.keyed

theorem agreeThrough_iff (sound : order.Sound comparators) (left right : Row order.plan) {depth : Nat}
    (deep : depth ≤ order.plan.maxDepth) :
    order.groups.AgreeThrough (order.keyOf left.tuple) (order.keyOf right.tuple) depth ↔
      order.comparePrefix (depth + 1) left right = .eq := by
  have size : order.plan.groupBy.length = order.plan.maxDepth + 1 := sound.plan.groupBy_length_eq
  rw [keyOf_keyed sound, keyOf_keyed sound, agreeThrough_iff_compareKeys sound _ _ deep,
    compareKeys_keyed sound (by omega)]

theorem compareGroups_eq (sound : order.Sound comparators) (left right : Row order.plan) :
    order.compareGroups left right = order.comparePrefix (order.plan.maxDepth + 1) left right := by
  rw [← sound.plan.groupBy_length_eq]
  rfl

theorem compareRows_split (depth : Nat) (left right : Row order.plan) :
    ∃ later, order.compareRows left right = (order.comparePrefix depth left right).then later := by
  obtain ⟨later, split⟩ := SortKey.compareAll_split (Nat.le_max_left depth order.common.length)
    order.common left.commonCells right.commonCells
  rw [List.take_of_length_le (Nat.le_max_right depth order.common.length)] at split
  rw [compareRows, split, Ordering.then_assoc]
  exact ⟨_, rfl⟩

theorem refines_rows (sound : order.Sound comparators) (left right : Row order.plan) :
    order.Refines left.tuple right.tuple (order.compareGroups left right)
      (order.compareRows left right) where
  grouped := groups_compare_rows sound left right
  sorted := compare_rows sound left right
  begins := by
    intro apart
    obtain ⟨later, split⟩ := compareRows_split order.groups.size left right
    have grouping : order.comparePrefix order.groups.size left right = order.compareGroups left right :=
      rfl
    rw [split, grouping]
    cases held : order.compareGroups left right with
    | lt => rfl
    | eq => exact absurd held apart
    | gt => rfl
  leftKey := by
    rw [keyOf_keyed sound]
    exact left.keyed.ofTuple_tuple sound.plan
  rightKey := by
    rw [keyOf_keyed sound]
    exact right.keyed.ofTuple_tuple sound.plan
  agrees := by
    rw [compareGroups_eq sound, agreeThrough_iff sound left right (Nat.le_refl _)]
  meets := by
    have told := tells_fits sound left.keyed.key right.keyed.key (left.keyed.key_fits sound.plan)
      (right.keyed.key_fits sound.plan)
    have deepest : order.groups.differAt left.keyed.key right.keyed.key = order.plan.maxDepth + 1 ↔
        order.groups.AgreeThrough left.keyed.key right.keyed.key order.plan.maxDepth :=
      GroupOrder.differAt_eq_iff sound.plan.common.shallowest
    rw [compareGroups_eq sound, ← agreeThrough_iff sound left right (Nat.le_refl _), keyOf_keyed sound,
      keyOf_keyed sound, told, Except.ok.injEq, deepest]

theorem together_rows (sound : order.Sound comparators) (total : comparators.Total)
    {rows : List (Row order.plan)}
    (ascending : rows.Pairwise fun left right => (order.compareRows left right).isLE) (depth : Nat)
    (row : Row order.plan) :
    Sort.Together (fun other => order.comparePrefix depth row other = .eq) rows := by
  have := transCmp_comparePrefix sound total depth
  exact Sort.together_of_pairwise (ascending.imp fun below => isLE_comparePrefix below depth) row

/-- Tuples of different groups compare as their groups do; and where tuples are sorted, those of a group
stand together, as do those whose keys agree down to some depth. -/
theorem compare_refines {job : Job} {plan : Plan} {codec : FieldCodec}
    (built : Plan.build job = .ok plan) (made : ofPlan plan codec comparators = .ok order)
    (total : comparators.Total) :
    (∀ left right, job.Admits left → job.Admits right →
      ∃ grouping sorting, order.Refines left right grouping sorting) ∧
    ∀ tuples : List Tuple, (∀ tuple ∈ tuples, job.Admits tuple) →
      (tuples.IsChain fun left right => order.compare left right ≠ .ok .gt) →
      ∀ tuple, job.Admits tuple →
        Sort.Together (fun other => order.groups.compare tuple other = .ok .eq) tuples ∧
        ∀ depth ≤ plan.maxDepth, Sort.Together (fun other =>
          order.groups.AgreeThrough (order.keyOf tuple) (order.keyOf other) depth) tuples := by
  obtain ⟨planSound, rfl⟩ := Plan.build_sound built
  obtain ⟨sound, rfl, -⟩ := ofPlan_sound planSound made
  constructor
  · intro left right leftAdmitted rightAdmitted
    obtain ⟨leftRow, rfl⟩ := planSound.exists_row leftAdmitted
    obtain ⟨rightRow, rfl⟩ := planSound.exists_row rightAdmitted
    exact ⟨_, _, refines_rows sound leftRow rightRow⟩
  · intro tuples admitted ascending tuple tupleAdmitted
    obtain ⟨row, rfl⟩ := planSound.exists_row tupleAdmitted
    obtain ⟨rows, rfl⟩ : tuples ∈ Set.range (List.map fun row : Row order.plan => row.tuple) := by
      rw [Set.range_list_map]
      exact fun tuple member => planSound.exists_row (admitted tuple member)
    have agrees : Sort.Agrees order.compare Row.tuple order.compareRows := compare_rows sound
    have := transCmp_compareRows sound total
    have sorted := agrees.pairwise ascending
    constructor
    · refine Sort.Together.map ((together_rows sound total sorted order.groups.size row).congr ?_)
      intro other _
      rw [groups_compare_rows sound, Except.ok.injEq]
      rfl
    · intro depth deep
      refine Sort.Together.map ((together_rows sound total sorted (depth + 1) row).congr ?_)
      intro other _
      exact (agreeThrough_iff sound row other deep).symm

end RecordOrder

theorem Visits.admits (url : String) (date n : Int32) : job.Admits (visit url date n) :=
  ⟨_, List.mem_singleton_self _, rfl, .cons rfl (.cons rfl (.cons rfl .nil))⟩

/-- Visits to one page stand together, and so do those to one page on one day. -/
theorem RecordOrder.compare_refines_visits :
    (∃ grouping sorting, Visits.order.Refines (Visits.visit "a" 1 1) (Visits.visit "a" 2 2) grouping
      sorting) ∧
    Sort.Together (fun other => Visits.order.groups.compare (Visits.visit "a" 1 1) other = .ok .eq)
      Visits.sorted ∧
    Sort.Together (fun other => Visits.order.groups.AgreeThrough
      (Visits.order.keyOf (Visits.visit "a" 1 1)) (Visits.order.keyOf other) 0) Visits.sorted := by
  have admitted : ∀ tuple ∈ Visits.sorted, Visits.job.Admits tuple := by
    simp [Visits.sorted, Visits.admits]
  have first : Visits.order.compare (Visits.visit "a" 1 0) (Visits.visit "a" 1 1) = .ok .eq := by
    decide +kernel
  have second : Visits.order.compare (Visits.visit "a" 1 1) (Visits.visit "a" 2 2) = .ok .lt := by
    decide +kernel
  have third : Visits.order.compare (Visits.visit "a" 2 2) (Visits.visit "b" 2 3) = .ok .lt := by
    decide +kernel
  have ascending : Visits.sorted.IsChain fun left right => Visits.order.compare left right ≠ .ok .gt := by
    simp [Visits.sorted, first, second, third]
  obtain ⟨refine, together⟩ :=
    RecordOrder.compare_refines (eq_valueOf _) (eq_valueOf _) Visits.total
  obtain ⟨group, depths⟩ := together Visits.sorted admitted ascending (Visits.visit "a" 1 1)
    (Visits.admits "a" 1 1)
  exact ⟨refine _ _ (Visits.admits "a" 1 1) (Visits.admits "a" 2 2), group, depths 0 (Nat.zero_le _)⟩

end Cogrouping
