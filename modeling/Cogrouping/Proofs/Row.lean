import Cogrouping.Proofs.Plan
import Cogrouping.Tuple

/-!
Tuples seen through a plan. What the slots of a source take from a tuple stands in the fields of its
record, and it fits these fields if the tuple's values may stand in the fields of the source.
-/

namespace Cogrouping

inductive Cell
  | sourceId (id : SourceId)
  | value (value : Value)

inductive Cell.Fits (field : Field) : Cell → Prop
  | sourceId (id : SourceId) : field.isSourceId = true → Fits field (.sourceId id)
  | value {value : Value} : field.isSourceId = false → value.conformsTo field.type = true →
      Fits field (.value value)

def Slot.cell (tuple : Tuple) (source : SourceId) : Slot → Cell
  | .field position => .value ((tuple.get? position).getD .null)
  | .sourceId => .sourceId source

inductive Slot.Gives (tuple : Tuple) (field : Field) : Slot → Prop
  | sourceId : field.isSourceId = true → Gives tuple field .sourceId
  | field {position : Nat} {value : Value} : field.isSourceId = false →
      tuple.get? position = some value → value.conformsTo field.type = true →
      Gives tuple field (.field position)

theorem Slot.Gives.fits {tuple : Tuple} {field : Field} {slot : Slot} (gives : slot.Gives tuple field)
    (source : SourceId) : (slot.cell tuple source).Fits field := by
  cases gives with
  | sourceId marked => exact .sourceId source marked
  | field unmarked held conforms =>
      rw [cell, held]
      exact .value unmarked conforms

theorem Tuple.require_eq_ok {tuple : Tuple} {position : Nat} {value : Value} :
    tuple.require position = .ok value ↔ tuple.get? position = some value := by
  rw [Tuple.require]
  cases tuple.get? position <;> simp

theorem Tuple.set_eq_ok {tuple next : Tuple} {position : Nat} {value : Value} :
    tuple.set position value = .ok next ↔ position < tuple.size ∧ next = tuple.put position value := by
  unfold Tuple.set
  split
  · rename_i inside
    simp only [Except.ok.injEq, inside, true_and]
    exact eq_comm
  · rename_i outside
    simp [outside]

theorem Tuple.eq_of_parts {left right : Tuple} (schema : left.schema = right.schema)
    (values : left.values = right.values) : left = right := by
  obtain ⟨leftSchema, leftValues, _⟩ := left
  obtain ⟨rightSchema, rightValues, _⟩ := right
  cases schema
  cases values
  rfl

/-- A tuple of a planned source, with values that may stand in the source's fields. -/
structure Row (plan : Plan) where
  tuple : Tuple
  declared : Source
  source : SourcePlan
  planned : plan.Planned declared source
  named : tuple.schema.name = declared.schema.name
  conforms : List.Forall₂ (fun field value => value.conformsTo field.type = true)
    source.schema.fields tuple.values

namespace Plan.Sound

variable {plan : Plan}

theorem grouped_names (sound : plan.Sound) :
    ∀ field ∈ plan.common.fields.take plan.groupBy.length, field.name ∈ plan.job.groupBy := by
  intro field member
  rw [List.prefix_iff_eq_take.mp sound.common.leading, Schema.names, ← List.map_take, ← sound.groupBy]
  exact List.mem_map_of_mem member

theorem grouped_unmarked (sound : plan.Sound) :
    ∀ field ∈ plan.common.fields.take plan.groupBy.length, field.isSourceId = false := by
  intro field member
  have apart : field.name ≠ sourceIdName := fun same =>
    sound.common.unmarked (same ▸ sound.grouped_names field member)
  simp [Field.isSourceId, apart]

theorem groupBy_length_le (sound : plan.Sound) : plan.groupBy.length ≤ plan.common.fields.length := by
  have short := sound.common.leading.length_le
  rw [Schema.names, List.length_map] at short
  rw [sound.groupBy]
  exact short

theorem groupBy_length_eq (sound : plan.Sound) : plan.groupBy.length = plan.maxDepth + 1 := by
  rw [sound.groupBy, sound.common.deepest]

end Plan.Sound

def Slot.position? : Slot → Option Nat
  | .field position => some position
  | .sourceId => none

theorem Plan.Planned.groupSlots_eq {plan : Plan} {declared : Source} {source : SourcePlan}
    (planned : plan.Planned declared source) (sound : plan.Sound) :
    source.commonSlots.take plan.groupBy.length =
      ((source.commonSlots.take plan.groupBy.length).filterMap Slot.position?).map .field := by
  have feeds := List.forall₂_take plan.groupBy.length planned.sound.feedsCommon
  have unmarked := sound.grouped_unmarked
  generalize source.commonSlots.take plan.groupBy.length = slots at feeds ⊢
  generalize plan.common.fields.take plan.groupBy.length = fields at feeds unmarked
  induction feeds with
  | nil => rfl
  | cons first _ ih =>
      rw [List.forall_mem_cons] at unmarked
      cases first with
      | sourceId marked => simp [unmarked.1] at marked
      | field => exact congrArg (Slot.field _ :: ·) (ih unmarked.2)

namespace Row

variable {plan : Plan} (row : Row plan)

def id : SourceId := row.source.id

def cells (slots : List Slot) : List Cell := slots.map (Slot.cell row.tuple row.id)

def commonCells : List Cell := row.cells row.source.commonSlots

def specificCells : List Cell := row.cells (row.source.specificPositions.map .field)

def stored : Tuple where
  schema := row.source.schema
  values := row.tuple.values
  complete := row.conforms.length_eq.symm

theorem stored_named : row.stored.schema.name = row.declared.schema.name := by
  have schema : row.stored.schema = row.source.schema := rfl
  rw [schema, row.planned.sound.schema]

def asStored : Row plan :=
  { row with tuple := row.stored, named := row.stored_named, conforms := row.conforms }

theorem stored_eq (carried : row.tuple.schema = row.source.schema) : row.stored = row.tuple :=
  Tuple.eq_of_parts carried.symm rfl

theorem sourceNamed (sound : plan.Sound) :
    plan.sourceNamed row.tuple.schema.name = .ok row.source :=
  (Plan.sourceNamed_eq_ok sound).mpr ⟨row.declared, row.planned, row.named.symm⟩

theorem require_of_feeds {field : Field} {position : Nat}
    (feeds : Slot.Feeds row.source.schema field (.field position)) :
    ∃ value, row.tuple.require position = .ok value ∧ field.isSourceId = false ∧
      value.conformsTo field.type = true ∧
      Slot.cell row.tuple row.id (.field position) = .value value := by
  cases feeds with
  | field unmarked found named typed =>
      obtain ⟨value, atPosition, conforms⟩ := row.conforms.getElem?_left found
      refine ⟨value, Tuple.require_eq_ok.mpr atPosition, unmarked, typed ▸ conforms, ?_⟩
      rw [Slot.cell, Tuple.get?, atPosition, Option.getD_some]

theorem position_lt {field : Field} {position : Nat}
    (feeds : Slot.Feeds row.source.schema field (.field position)) : position < row.tuple.size := by
  obtain ⟨value, required, _⟩ := row.require_of_feeds feeds
  obtain ⟨inside, _⟩ := List.getElem?_eq_some_iff.mp (Tuple.require_eq_ok.mp required)
  exact inside

theorem gives_of_feeds {field : Field} {slot : Slot} (feeds : slot.Feeds row.source.schema field) :
    slot.Gives row.tuple field := by
  cases feeds with
  | sourceId marked => exact .sourceId marked
  | field unmarked found named typed =>
      obtain ⟨value, held, conforms⟩ := row.conforms.getElem?_left found
      exact .field unmarked held (typed ▸ conforms)

theorem cells_fit {fields : List Field} {slots : List Slot}
    (feeds : List.Forall₂ (Slot.Feeds row.source.schema) fields slots) :
    List.Forall₂ Cell.Fits fields (row.cells slots) := by
  rw [cells, List.forall₂_map_right_iff]
  exact feeds.imp fun field slot fed => (row.gives_of_feeds fed).fits row.id

theorem commonSlots_give :
    List.Forall₂ (Slot.Gives row.tuple) plan.common.fields row.source.commonSlots :=
  row.planned.sound.feedsCommon.imp fun _ _ fed => row.gives_of_feeds fed

theorem commonCells_fit : List.Forall₂ Cell.Fits plan.common.fields row.commonCells :=
  row.cells_fit row.planned.sound.feedsCommon

theorem specificCells_fit : List.Forall₂ Cell.Fits row.source.specific.fields row.specificCells :=
  row.cells_fit row.planned.sound.feedsSpecific

def groupPositions : List Nat :=
  (row.source.commonSlots.take plan.groupBy.length).filterMap Slot.position?

end Row

end Cogrouping
