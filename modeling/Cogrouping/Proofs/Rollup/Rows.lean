import Cogrouping.Proofs.Rollup.Keys
import Cogrouping.Proofs.Rollup.Trace

/-!
The keys of rows. A row makes the key of the tuple that is read back for it, so that the keys of rows
differ where their order by the leading common fields does.
-/

namespace Cogrouping

namespace Row

variable {plan : Plan} (row : Row plan)

def keyRow : KeyRow plan where
  tuple := row.stored
  declared := row.declared
  source := row.source
  planned := row.planned
  named := row.stored_named
  gives := List.forall₂_take plan.groupBy.length row.asStored.commonSlots_give

def key : GroupKey where
  tuple := row.stored
  positions := row.groupPositions
  groupBy := plan.groupBy

theorem ofTuple_stored (sound : plan.Sound) : GroupKey.ofTuple plan row.stored = .ok row.key :=
  row.keyRow.ofTuple_tuple sound

theorem key_fits (sound : plan.Sound) : row.key.Fits plan := row.keyRow.key_fits sound

theorem keyRow_cells : row.keyRow.cells = row.commonCells.take plan.groupBy.length := by
  rw [commonCells, cells, ← List.map_take]
  rfl

end Row

namespace RecordOrder

variable {comparators : Comparators} {order : RecordOrder}

theorem compareKeys_rows (sound : order.Sound comparators) {depth : Nat}
    (inside : depth ≤ order.plan.groupBy.length) (left right : Row order.plan) :
    order.compareKeys depth left.keyRow right.keyRow = order.comparePrefix depth left right := by
  have parts : ∀ row : Row order.plan, row.commonCells =
      row.keyRow.cells ++ row.commonCells.drop order.plan.groupBy.length := by
    intro row
    rw [row.keyRow_cells, List.take_append_drop]
  rw [comparePrefix, parts left, parts right, SortKey.compareAll_append
    (keys_length_le sound inside left.keyRow) (keys_length_le sound inside right.keyRow), compareKeys]

theorem differAt_le_iff_comparePrefix (sound : order.Sound comparators) (left right : Row order.plan)
    {depth : Nat} (shallow : order.plan.minDepth ≤ depth) (deep : depth ≤ order.plan.maxDepth) :
    order.groups.differAt left.key right.key ≤ depth ↔
      order.comparePrefix (depth + 1) left right ≠ .eq := by
  have inside : depth + 1 ≤ order.plan.groupBy.length := by
    rw [sound.plan.groupBy_length_eq]
    omega
  rw [← compareKeys_rows sound inside]
  exact differAt_le_iff_compareKeys sound left.keyRow right.keyRow shallow deep

end RecordOrder

end Cogrouping
