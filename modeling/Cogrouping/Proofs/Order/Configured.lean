import Cogrouping.Proofs.Order.Rows

/-!
The order that a job asks for, read off its description by field names alone, and that the order made
from the job's plan is this one.
-/

namespace Cogrouping

namespace Job

variable (comparators : Comparators)

def compareValues (comparator : Option String) (left right : Value) : Option Ordering :=
  match comparator with
  | some name => (comparators.byName.find? name).map fun order => order left right
  | none => left.naturalOrder? right

/-- The order of two tuples by an entry. The values are looked up by name in each tuple's own schema;
the comparator of the entry goes before the one declared on the field. -/
def compareEntry (leftId rightId : SourceId) (left right : Tuple) : SortEntry → Option Ordering
  | .sourceId direction => some (direction.apply (compare leftId rightId))
  | .field name direction comparator => do
      let declared ← left.schema.find? name
      let leftValue ← left.find? name
      let rightValue ← right.find? name
      let ascending ← compareValues comparators (comparator.orElse fun _ => declared.comparator)
        leftValue rightValue
      return direction.apply ascending

def compareEntries (leftId rightId : SourceId) (left right : Tuple) : List SortEntry → Option Ordering
  | [] => some .eq
  | entry :: rest => do
      let first ← compareEntry comparators leftId rightId left right entry
      let later ← compareEntries leftId rightId left right rest
      return first.then later

variable (job : Job)

def configuredEntries : List SortEntry :=
  if job.orderBy.entries = [] then job.groupBy.map fun name => .field name .ascending none
  else job.orderBy.entries

/-- The order of two tuples of sources with given numbers: by the configured entries, then by source if
there are several and no entry says where, then by the secondary order of the source they share. -/
def configuredOrder (leftId rightId : SourceId) (left right : Tuple) : Option Ordering := do
  let common ← compareEntries comparators leftId rightId left right job.configuredEntries
  let sources :=
    if 2 ≤ job.sources.length ∧ ∀ entry ∈ job.configuredEntries, entry.isSourceId = false then
      compare leftId rightId
    else .eq
  let secondary ← compareEntries comparators leftId rightId left right
    (if leftId = rightId then (job.secondaryOrderBy.find? leftId).elim [] SortOrder.entries else [])
  return common.then (sources.then secondary)

variable {comparators job}

theorem compareEntries_append {leftId rightId : SourceId} {left right : Tuple}
    (entries others : List SortEntry) :
    compareEntries comparators leftId rightId left right (entries ++ others) = do
      let first ← compareEntries comparators leftId rightId left right entries
      let later ← compareEntries comparators leftId rightId left right others
      return first.then later := by
  induction entries with
  | nil =>
      rw [List.nil_append, compareEntries]
      cases compareEntries comparators leftId rightId left right others <;> rfl
  | cons entry entries ih =>
      rw [List.cons_append, compareEntries, compareEntries, ih]
      cases compareEntry comparators leftId rightId left right entry with
      | none => rfl
      | some first =>
          cases compareEntries comparators leftId rightId left right entries with
          | none => rfl
          | some second =>
              cases compareEntries comparators leftId rightId left right others with
              | none => rfl
              | some third => simp [Ordering.then_assoc]

theorem configuredEntries_eq : job.configuredEntries = (Layout.effectiveOrder job).entries := by
  rw [configuredEntries, Layout.effectiveOrder, SortOrder.isEmpty]
  by_cases empty : job.orderBy.entries = []
  · simp [empty]
  · simp [empty]

theorem appendsSourceId_iff : Layout.appendsSourceId job = true ↔
    2 ≤ job.sources.length ∧ ∀ entry ∈ job.configuredEntries, entry.isSourceId = false := by
  simp [Layout.appendsSourceId, SortOrder.hasSourceId, configuredEntries_eq]

theorem compareEntries_common {leftId rightId : SourceId} {left right : Tuple} :
    compareEntries comparators leftId rightId left right (Layout.commonEntries job) = do
      let common ← compareEntries comparators leftId rightId left right job.configuredEntries
      return common.then
        (if 2 ≤ job.sources.length ∧ ∀ entry ∈ job.configuredEntries, entry.isSourceId = false then
          compare leftId rightId
        else .eq) := by
  rw [Layout.commonEntries, ← configuredEntries_eq, compareEntries_append]
  cases compareEntries comparators leftId rightId left right job.configuredEntries with
  | none => rfl
  | some common =>
      by_cases appends : Layout.appendsSourceId job = true
      · rw [if_pos appends, if_pos (appendsSourceId_iff.mp appends)]
        simp [compareEntries, compareEntry, Direction.apply]
      · rw [if_neg appends, if_neg fun several => appends (appendsSourceId_iff.mpr several)]
        rfl

end Job

inductive Row.Taken {plan : Plan} (row : Row plan) : SortEntry → Cell → Prop
  | sourceId (direction : Direction) : Taken row (.sourceId direction) (.sourceId row.id)
  | field {name : String} {direction : Direction} {comparator : Option String} {declared : Field}
      {value : Value} : row.tuple.schema.find? name = some declared →
      row.tuple.find? name = some value → value.conformsTo declared.type = true →
      Taken row (.field name direction comparator) (.value value)

inductive SortEntry.Means (left right : Schema) : SortEntry → Field → Prop
  | sourceId (direction : Direction) : Means left right (.sourceId direction) .sourceId
  | field {name : String} {direction : Direction} {comparator : Option String} {field : Field} :
      (SortEntry.field name direction comparator).fieldIn? left = some field →
      (SortEntry.field name direction comparator).fieldIn? right = some field →
      Means left right (.field name direction comparator) field

namespace RecordOrder

open Job

variable {comparators : Comparators} {plan : Plan} {left right : Row plan}

theorem compareValues_eq {key : SortKey} {field : Field} (sorts : key.SortsBy field)
    (resolved : comparators.resolve field.comparator = .ok key.comparator) {leftValue rightValue : Value}
    (leftConforms : leftValue.conformsTo field.type = true)
    (rightConforms : rightValue.conformsTo field.type = true) :
    Job.compareValues comparators field.comparator leftValue rightValue =
      some (key.ascending (.value leftValue) (.value rightValue)) := by
  cases named : field.comparator with
  | none =>
      rw [named, Comparators.resolve, Except.ok.injEq] at resolved
      have orderable : field.type.isOrderable = true := by simpa [← resolved] using sorts.usable
      rw [compareValues, Value.naturalOrder?_eq orderable leftConforms rightConforms,
        SortKey.ascending, ← resolved]
      rfl
  | some name =>
      rw [named, Comparators.resolve, Comparators.find] at resolved
      cases found : comparators.byName.find? name with
      | none => simp [found, Except.map] at resolved
      | some comparator =>
          simp only [found, Except.map, Except.ok.injEq] at resolved
          simp only [compareValues, found, Option.map_some, SortKey.ascending, ← resolved, Cell.held]

theorem compareEntry_eq {entry : SortEntry} {field : Field} {key : SortKey} {leftCell rightCell : Cell}
    (means : entry.Means left.tuple.schema right.tuple.schema field)
    (renders : key.Renders comparators entry field) (leftTaken : left.Taken entry leftCell)
    (rightTaken : right.Taken entry rightCell) :
    compareEntry comparators left.id right.id left.tuple right.tuple entry =
      some (key.compareCells leftCell rightCell) := by
  obtain ⟨sorts, direction, resolved⟩ := renders
  cases means with
  | sourceId =>
      cases leftTaken
      cases rightTaken
      have plain : key.comparator = none := sorts.marked rfl
      rw [compareEntry, SortKey.compareCells, direction, SortKey.ascending, plain]
      simp only [Cell.sortBytes, SourceId.order_encode]
      rfl
  | @field name _ comparator _ leftField rightField =>
      obtain ⟨leftDeclared, leftKnown, _, leftType, compared⟩ := SortEntry.fieldIn?_eq_some.mp leftField
      obtain ⟨rightDeclared, rightKnown, _, rightType, _⟩ := SortEntry.fieldIn?_eq_some.mp rightField
      cases leftTaken with
      | @field _ _ _ _ leftValue leftFound leftHeld leftConforms =>
          cases rightTaken with
          | @field _ _ _ _ rightValue rightFound rightHeld rightConforms =>
              obtain rfl := Option.some.inj (leftKnown.symm.trans leftFound)
              obtain rfl := Option.some.inj (rightKnown.symm.trans rightFound)
              rw [← leftType] at leftConforms
              rw [← rightType] at rightConforms
              have ascending := compareValues_eq sorts resolved leftConforms rightConforms
              have stated : field.comparator = comparator.orElse fun _ => leftDeclared.comparator :=
                compared
              rw [stated] at ascending
              simp only [compareEntry, leftFound, leftHeld, rightHeld, ascending, Option.bind_eq_bind,
                Option.bind_some, SortKey.compareCells, direction]
              rfl

theorem compareEntries_eq {entries : List SortEntry} {keys : List SortKey}
    (renders : List.Forall₂ (fun entry key => ∃ field,
      entry.Means left.tuple.schema right.tuple.schema field ∧ key.Renders comparators entry field)
      entries keys) {leftCells rightCells : List Cell}
    (leftTaken : List.Forall₂ left.Taken entries leftCells)
    (rightTaken : List.Forall₂ right.Taken entries rightCells) :
    compareEntries comparators left.id right.id left.tuple right.tuple entries =
      some (SortKey.compareAll keys leftCells rightCells) := by
  induction renders generalizing leftCells rightCells with
  | nil => rfl
  | @cons entry key entries keys first _ ih =>
      obtain ⟨leftCell, leftCells, leftFirst, leftRest, rfl⟩ := List.forall₂_cons_left_iff.mp leftTaken
      obtain ⟨rightCell, rightCells, rightFirst, rightRest, rfl⟩ :=
        List.forall₂_cons_left_iff.mp rightTaken
      obtain ⟨field, means, rendered⟩ := first
      rw [compareEntries, compareEntry_eq means rendered leftFirst rightFirst, ih leftRest rightRest]
      rfl

theorem taken_of_means {row : Row plan} (sound : plan.Sound)
    (own : row.tuple.schema = row.source.schema) {entries : List SortEntry} {fields : List Field}
    (mean : List.Forall₂ (SortEntry.Means row.source.schema row.source.schema) entries fields)
    {slots : List Slot} (feeds : List.Forall₂ (Slot.Feeds row.source.schema) fields slots) :
    List.Forall₂ row.Taken entries (row.cells slots) := by
  have valid := row.planned.valid sound
  induction mean generalizing slots with
  | nil =>
      rw [List.forall₂_nil_left_iff.mp feeds]
      exact .nil
  | @cons entry field entries fields first _ ih =>
      obtain ⟨slot, slots, fed, feedsRest, rfl⟩ := List.forall₂_cons_left_iff.mp feeds
      refine .cons ?_ (ih feedsRest)
      cases first with
      | sourceId direction =>
          cases fed with
          | sourceId => exact .sourceId direction
          | field unmarked => simp [Field.isSourceId, Field.sourceId] at unmarked
      | @field name direction comparator _ found _ =>
          have unmarked := SortEntry.unmarked_of_fieldIn? valid found
          obtain ⟨_, _, named, _⟩ := SortEntry.fieldIn?_eq_some.mp found
          cases fed with
          | sourceId marked => simp [unmarked] at marked
          | @field position declared _ atPosition sameName typed =>
              obtain ⟨value, held, conforms⟩ := row.conforms.getElem?_left atPosition
              have declaredName : declared.name = name := sameName.trans named
              have known := Schema.find?_of_mem valid.distinct (List.mem_of_getElem? atPosition)
              have place : row.source.schema.indexOf? name = some position := by
                rw [Schema.indexOf?_eq_some valid.distinct, Schema.names, List.getElem?_map, atPosition,
                  Option.map_some, declaredName]
              have cell : Slot.cell row.tuple row.id (.field position) = .value value := by
                rw [Slot.cell, Tuple.get?, held, Option.getD_some]
              rw [cell]
              refine .field ?_ ?_ conforms
              · rw [own, ← declaredName, known]
              · rw [Tuple.find?, own, place]
                exact held

theorem means_of_common {sources : List Source} {leftSource rightSource : Source}
    (leftMember : leftSource ∈ sources) (rightMember : rightSource ∈ sources) {entry : SortEntry}
    {field : Field} (stands : Layout.CommonField sources entry field) :
    entry.Means leftSource.schema rightSource.schema field := by
  cases stands with
  | sourceId direction => exact .sourceId direction
  | field orderable declared =>
      exact .field (declared leftSource leftMember) (declared rightSource rightMember)

theorem means_of_secondary {schema common : Schema} (valid : schema.Valid) {entry : SortEntry}
    {field : Field} (stands : Layout.SecondaryField schema common entry field) :
    entry.Means schema schema field := by
  cases entry with
  | sourceId direction =>
      have unmarked := SortEntry.unmarked_of_fieldIn? valid stands.declared
      obtain ⟨_, _, named, _⟩ := SortEntry.fieldIn?_eq_some.mp stands.declared
      simp [Field.isSourceId, named, SortEntry.name] at unmarked
  | field name direction comparator => exact .field stands.declared stands.declared

theorem taken_secondary {order : RecordOrder} (sound : order.Sound comparators) {row : Row order.plan}
    (own : row.tuple.schema = row.source.schema) :
    List.Forall₂ row.Taken (Plan.secondaryOrder order.plan.job row.id).entries
      (row.cells ((row.source.specificPositions.map Slot.field).take
        (order.secondaryOf row.id).length)) := by
  have valid := row.planned.valid sound.plan
  obtain ⟨leading, split, stand, _⟩ := row.planned.sound.secondary
  have sameLength : (order.secondaryOf row.id).length = leading.length :=
    ((sound.secondary row.declared row.source row.planned).2.length_eq.symm).trans stand.length_eq
  have feeds := List.forall₂_take leading.length row.planned.sound.feedsSpecific
  rw [split, List.take_left] at feeds
  rw [sameLength, Row.id, row.planned.sound.id]
  exact taken_of_means sound.plan own (stand.imp fun _ _ => means_of_secondary valid) feeds

theorem compareEntries_secondary {order : RecordOrder} (sound : order.Sound comparators)
    {left right : Row order.plan} (leftOwn : left.tuple.schema = left.source.schema)
    (rightOwn : right.tuple.schema = right.source.schema) (same : left.id = right.id) :
    compareEntries comparators left.id right.id left.tuple right.tuple
        (Plan.secondaryOrder order.plan.job left.id).entries =
      some (SortKey.compareAll (order.secondaryOf left.id) left.specificCells right.specificCells) := by
  have sameSource := id_eq_iff.mp same
  have valid := left.planned.valid sound.plan
  have leftTaken := taken_secondary sound leftOwn
  have rightTaken := taken_secondary sound rightOwn
  rw [← same, sameSource] at rightTaken
  rw [compareAll_specificCells (secondary_fewer sound left) rfl sameSource]
  have renders := (sound.secondary left.declared left.source left.planned).2
  rw [← left.planned.sound.id] at renders
  refine compareEntries_eq (renders.imp fun entry key => ?_) leftTaken rightTaken
  rintro ⟨field, stands, rendered⟩
  refine ⟨field, ?_, rendered⟩
  rw [leftOwn, rightOwn, sameSource]
  exact means_of_secondary valid stands

theorem configuredOrder_rows {order : RecordOrder} (sound : order.Sound comparators)
    {left right : Row order.plan} (leftOwn : left.tuple.schema = left.source.schema)
    (rightOwn : right.tuple.schema = right.source.schema) :
    order.plan.job.configuredOrder comparators left.id right.id left.tuple right.tuple =
      some (order.compareRows left right) := by
  have stand := sound.plan.common.stand
  have common : compareEntries comparators left.id right.id left.tuple right.tuple
      (Layout.commonEntries order.plan.job) =
      some (SortKey.compareAll order.common left.commonCells right.commonCells) := by
    have taken : ∀ row : Row order.plan, row.tuple.schema = row.source.schema →
        List.Forall₂ row.Taken (Layout.commonEntries order.plan.job) row.commonCells := by
      intro row own
      refine taken_of_means sound.plan own (stand.imp fun entry field stands => ?_)
        row.planned.sound.feedsCommon
      rw [row.planned.sound.schema]
      exact means_of_common row.planned.inJob row.planned.inJob stands
    refine compareEntries_eq (sound.commonEntries.imp fun entry key => ?_) (taken left leftOwn)
      (taken right rightOwn)
    rintro ⟨field, stands, renders⟩
    refine ⟨field, ?_, renders⟩
    rw [leftOwn, rightOwn, left.planned.sound.schema, right.planned.sound.schema]
    exact means_of_common left.planned.inJob right.planned.inJob stands
  rw [compareEntries_common] at common
  obtain ⟨first, configured, whole⟩ := Option.bind_eq_some_iff.mp common
  have secondaryEntries : (order.plan.job.secondaryOrderBy.find? left.id).elim [] SortOrder.entries =
      (Plan.secondaryOrder order.plan.job left.id).entries := by
    rw [Plan.secondaryOrder]
    cases order.plan.job.secondaryOrderBy.find? left.id <;> rfl
  have joined := Option.some.inj whole
  rw [configuredOrder, configured, secondaryEntries, compareRows, ← joined]
  by_cases same : left.id = right.id
  · rw [if_pos same, if_pos same, compareEntries_secondary sound leftOwn rightOwn same]
    simp [Ordering.then_assoc]
  · rw [if_neg same, if_neg same]
    simp [compareEntries]

/-- Comparing two tuples of declared sources gives the order that the job asks for by field names. -/
theorem compare_eq_configured {job : Job} {plan : Plan} {codec : FieldCodec} {order : RecordOrder}
    (built : Plan.build job = .ok plan)
    (resolved : RecordOrder.ofPlan plan codec comparators = .ok order) {leftSource rightSource : Source}
    (leftDeclared : leftSource ∈ job.sources) (rightDeclared : rightSource ∈ job.sources)
    {left right : Tuple} (leftCarries : left.schema = leftSource.schema)
    (rightCarries : right.schema = rightSource.schema)
    (leftConforms : ∀ entry ∈ left.schema.fields.zip left.values,
      entry.2.conformsTo entry.1.type = true)
    (rightConforms : ∀ entry ∈ right.schema.fields.zip right.values,
      entry.2.conformsTo entry.1.type = true) :
    ∃ ordering,
      job.configuredOrder comparators leftSource.id rightSource.id left right = some ordering ∧
      order.compare left right = .ok ordering := by
  obtain ⟨planSound, rfl⟩ := Plan.build_sound built
  obtain ⟨sound, rfl, rfl⟩ := ofPlan_sound planSound resolved
  have rows : ∀ {tuple : Tuple} {declared : Source}, declared ∈ order.plan.job.sources →
      tuple.schema = declared.schema →
      (∀ entry ∈ tuple.schema.fields.zip tuple.values, entry.2.conformsTo entry.1.type = true) →
      ∃ row : Row order.plan, row.tuple = tuple ∧ row.id = declared.id ∧
        row.tuple.schema = row.source.schema := by
    intro tuple declared member carries conforms
    obtain ⟨source, planned⟩ := planSound.exists_planned member
    have ownSchema : tuple.schema = source.schema := carries.trans planned.sound.schema.symm
    have conform : List.Forall₂ (fun field value => value.conformsTo field.type = true)
        source.schema.fields tuple.values := by
      rw [← ownSchema, List.forall₂_iff_zip]
      exact ⟨tuple.complete.symm, fun {field value} member => conforms (field, value) member⟩
    exact ⟨⟨tuple, declared, source, planned, congrArg Schema.name carries, conform⟩, rfl,
      planned.sound.id, ownSchema⟩
  obtain ⟨leftRow, rfl, leftId, leftOwn⟩ := rows leftDeclared leftCarries leftConforms
  obtain ⟨rightRow, rfl, rightId, rightOwn⟩ := rows rightDeclared rightCarries rightConforms
  refine ⟨order.compareRows leftRow rightRow, ?_, compare_rows sound leftRow rightRow⟩
  rw [← leftId, ← rightId]
  exact configuredOrder_rows sound leftOwn rightOwn

end RecordOrder

namespace Ranked

def towns : Schema := ⟨"towns", [⟨"name", .text, none⟩]⟩

def trips : Schema := ⟨"trips", [⟨"cost", .int64, some "parity"⟩, ⟨"name", .text, none⟩]⟩

def job : Job :=
  { sources := [⟨⟨1⟩, towns⟩, ⟨⟨2⟩, trips⟩]
    orderBy := ⟨[.field "name" .descending none]⟩
    groupBy := ["name"]
    secondaryOrderBy := Dictionary.ofList [(⟨2⟩, ⟨[.field "cost" .descending none]⟩)] }

def parity : Comparator
  | .int64 left, .int64 right => compare (left.toInt % 2) (right.toInt % 2)
  | _, _ => .eq

def comparators : Comparators := Comparators.empty.register "parity" parity

def plan : Plan := valueOf (Plan.build job) (by decide +kernel)

def fields : FieldCodec := valueOf (FieldCodec.ofPlan plan .standard 100) (by decide +kernel)

def order : RecordOrder := valueOf (RecordOrder.ofPlan plan fields comparators) (by decide +kernel)

def trip (cost : Int64) : Tuple := ⟨trips, [.int64 cost, .text "a"], rfl⟩

end Ranked

/-- Of two trips to one town the one at an odd cost is first, though it is the cheaper one. -/
theorem RecordOrder.compare_eq_configured_trips :
    (∃ ordering,
      Ranked.job.configuredOrder Ranked.comparators ⟨2⟩ ⟨2⟩ (Ranked.trip 3) (Ranked.trip 4) =
        some ordering ∧
      Ranked.order.compare (Ranked.trip 3) (Ranked.trip 4) = .ok ordering) ∧
    Ranked.order.compare (Ranked.trip 3) (Ranked.trip 4) = .ok .lt := by
  have declared : (⟨⟨2⟩, Ranked.trips⟩ : Source) ∈ Ranked.job.sources := by decide
  constructor
  · exact RecordOrder.compare_eq_configured (eq_valueOf _) (eq_valueOf _) declared declared rfl rfl
      (by decide) (by decide)
  · decide +kernel

end Cogrouping
