import Cogrouping.Proofs.Order.Configured
import Mathlib.Data.Option.Basic

/-!
A plan splits the fields of every source. What is common to all sources and what is specific to one
together take each field of the source once, and every criterion stands at the place of its field.
-/

namespace Cogrouping

/-- The entries that records of all sources are sorted by: those that the job gives, and the source
behind them if there are several sources and no entry marks where they are sorted. -/
def Job.commonOrder (job : Job) : List SortEntry :=
  job.configuredEntries ++
    if 2 ≤ job.sources.length ∧ ∀ entry ∈ job.configuredEntries, entry.isSourceId = false then
      [.sourceId .ascending]
    else []

theorem Job.commonOrder_eq (job : Job) : job.commonOrder = Layout.commonEntries job := by
  rw [commonOrder, Layout.commonEntries, configuredEntries_eq]
  by_cases appends : Layout.appendsSourceId job = true
  · have several := appendsSourceId_iff.mp appends
    rw [configuredEntries_eq] at several
    rw [if_pos appends, if_pos several]
  · have single := fun several => appends (appendsSourceId_iff.mpr several)
    rw [configuredEntries_eq] at single
    rw [if_neg appends, if_neg single]

namespace Criterion

/-- A criterion compares, in the direction of an entry, what stands at a place in a field. -/
structure Describes (place : Nat) (entry : SortEntry) (field : Field) (criterion : Criterion) : Prop where
  position : criterion.position = place
  name : criterion.name = field.name
  type : criterion.type = field.type
  comparator : criterion.comparator = field.comparator
  direction : criterion.direction = entry.direction

structure Follow (entries : List SortEntry) (fields : List Field) (criteria : List Criterion) : Prop where
  length : criteria.length = entries.length
  describes : ∀ place (criterion : Criterion), criteria[place]? = some criterion → ∃ entry field,
    entries[place]? = some entry ∧ fields[place]? = some field ∧ criterion.Describes place entry field

theorem describes_ofFields {entries : List SortEntry} {fields : List Field} {position place : Nat}
    {criterion : Criterion}
    (found : (ofFields position fields (entries.map SortEntry.direction))[place]? = some criterion) :
    ∃ entry field, entries[place]? = some entry ∧ fields[place]? = some field ∧
      criterion.Describes (position + place) entry field := by
  induction fields generalizing entries position place with
  | nil => simp [ofFields] at found
  | cons field fields ih =>
      cases entries with
      | nil => simp [ofFields] at found
      | cons entry entries =>
          rw [List.map_cons, ofFields] at found
          cases place with
          | zero =>
              cases found
              exact ⟨entry, field, rfl, rfl, ⟨rfl, rfl, rfl, rfl, rfl⟩⟩
          | succ place =>
              obtain ⟨other, behind, atEntry, atField, describes⟩ := ih found
              rw [Nat.add_assoc, Nat.add_comm 1] at describes
              exact ⟨other, behind, atEntry, atField, describes⟩

theorem length_ofFields {position : Nat} {fields : List Field} {directions : List Direction}
    (enough : directions.length ≤ fields.length) :
    (ofFields position fields directions).length = directions.length := by
  induction fields generalizing position directions with
  | nil =>
      have none : directions = [] := List.eq_nil_of_length_eq_zero (by simpa using enough)
      subst none
      rfl
  | cons field fields ih =>
      cases directions with
      | nil => rfl
      | cons direction directions =>
          rw [ofFields, List.length_cons, List.length_cons, ih (by simpa using enough)]

theorem follow_ofFields {entries : List SortEntry} {fields : List Field}
    (enough : entries.length ≤ fields.length) :
    Follow entries fields (ofFields 0 fields (entries.map SortEntry.direction)) := by
  constructor
  · rw [length_ofFields (by simpa using enough), List.length_map]
  · intro place criterion found
    obtain ⟨entry, field, atEntry, atField, describes⟩ := describes_ofFields found
    rw [Nat.zero_add] at describes
    exact ⟨entry, field, atEntry, atField, describes⟩

end Criterion

namespace Slot

variable {schema : Schema} {fields : List Field} {slots : List Slot}

theorem names_of_feeds (feeds : List.Forall₂ (Feeds schema) fields slots) :
    (slots.filterMap position?).map (schema.names[·]?) =
      ((fields.filter (!·.isSourceId)).map Field.name).map some := by
  induction feeds with
  | nil => rfl
  | cons first _ ih =>
      cases first with
      | sourceId marked =>
          rw [List.filter_cons_of_neg (by simpa using marked), ← ih]
          rfl
      | @field position declared unmarked found named _ =>
          have name : schema.names[position]? = some declared.name := by
            rw [Schema.names, List.getElem?_map, found]
            rfl
          rw [List.filter_cons_of_pos (by simpa using unmarked), List.map_cons, List.map_cons, ← ih,
            ← named, ← name]
          rfl

theorem positions_nodup (feeds : List.Forall₂ (Feeds schema) fields slots)
    (distinct : (fields.map Field.name).Nodup) : (slots.filterMap position?).Nodup := by
  refine .of_map (schema.names[·]?) ?_
  rw [names_of_feeds feeds]
  exact (distinct.sublist (List.filter_sublist.map _)).map (Option.some_injective _)

theorem position_lt_of_feeds (feeds : List.Forall₂ (Feeds schema) fields slots) {position : Nat}
    (member : position ∈ slots.filterMap position?) : position < schema.size := by
  obtain ⟨slot, inside, placed⟩ := List.mem_filterMap.mp member
  obtain ⟨field, _, fed⟩ := feeds.exists_left inside
  cases fed with
  | sourceId => simp [position?] at placed
  | field _ found =>
      cases placed
      exact (List.getElem?_eq_some_iff.mp found).1

theorem sourceId_iff_of_feeds (feeds : List.Forall₂ (Feeds schema) fields slots) {place : Nat} :
    slots[place]? = some .sourceId ↔ (fields.map Field.name)[place]? = some sourceIdName := by
  rw [List.getElem?_map, Option.map_eq_some_iff]
  constructor
  · intro found
    obtain ⟨field, atPlace, fed⟩ := feeds.flip.getElem?_left found
    cases fed with
    | sourceId marked => exact ⟨field, atPlace, by simpa [Field.isSourceId] using marked⟩
  · rintro ⟨field, atPlace, named⟩
    obtain ⟨slot, found, fed⟩ := feeds.getElem?_left atPlace
    cases fed with
    | sourceId => exact found
    | field unmarked => simp [Field.isSourceId, named] at unmarked

end Slot

theorem Layout.common_names {sources : List Source} (nonempty : sources ≠ []) {entries : List SortEntry}
    {fields : List Field} (stand : List.Forall₂ (CommonField sources) entries fields) :
    fields.map Field.name = entries.map SortEntry.name := by
  rw [← List.forall₂_eq_eq_eq, List.forall₂_map_left_iff, List.forall₂_map_right_iff]
  refine (stand.imp fun entry field stands => ?_).flip
  cases stands with
  | sourceId => rfl
  | field _ declared =>
      obtain ⟨source, member⟩ := List.exists_mem_of_ne_nil _ nonempty
      obtain ⟨_, _, named, _⟩ := SortEntry.fieldIn?_eq_some.mp (declared source member)
      exact named

/-- The fields of a source stand in its common slots and its specific part, each in one of them. -/
structure SourcePlan.Splits (plan : Plan) (order : List SortEntry) (source : SourcePlan) : Prop where
  whole : (source.commonSlots.filterMap Slot.position? ++ source.specificPositions).Perm
    (List.range source.schema.size)
  common : List.Forall₂ (Slot.Feeds source.schema) plan.common.fields source.commonSlots
  specific : List.Forall₂ (Slot.Feeds source.schema) source.specific.fields
    (source.specificPositions.map .field)
  marked : ∀ place, source.commonSlots[place]? = some .sourceId ↔ plan.sourceIdPosition? = some place
  ordered : ∃ leading,
    List.Forall₂ (fun entry field => entry.fieldIn? source.schema = some field) order leading ∧
    source.specific.fields = leading ++ source.schema.fields.filter fun field =>
      field.name ∉ plan.common.names ∧ field.name ∉ order.map SortEntry.name
  criteria : Criterion.Follow order source.specific.fields source.secondaryCriteria

def SourcePlan.slots (source : SourcePlan) : List Slot :=
  source.commonSlots ++ source.specificPositions.map .field

theorem SourcePlan.positions_slots (source : SourcePlan) : source.slots.filterMap Slot.position? =
    source.commonSlots.filterMap Slot.position? ++ source.specificPositions := by
  rw [slots, List.filterMap_append, List.filterMap_map]
  congr 1
  exact List.filterMap_some

namespace Plan

def recordFields (plan : Plan) (source : SourcePlan) : List Field :=
  plan.common.fields ++ source.specific.fields

structure Orders (job : Job) (plan : Plan) : Prop where
  names : plan.common.names = job.commonOrder.map SortEntry.name
  distinct : plan.common.names.Nodup
  criteria : Criterion.Follow job.commonOrder plan.common.fields plan.commonCriteria
  several : sourceIdName ∈ plan.common.names ↔ 2 ≤ job.sources.length
  marked : ∀ place, plan.sourceIdPosition? = some place ↔ plan.common.names[place]? = some sourceIdName
  placed : ∀ place direction, job.configuredEntries[place]? = some (.sourceId direction) →
    plan.sourceIdPosition? = some place
  last : 2 ≤ job.sources.length → (∀ entry ∈ job.configuredEntries, entry.isSourceId = false) →
    plan.sourceIdPosition? = some job.configuredEntries.length ∧
      plan.common.size = job.configuredEntries.length + 1
  groupBy : plan.groupBy = job.groupBy ∧ plan.groupBy = plan.common.names.take plan.groupBy.length
  behind : ∀ place, plan.sourceIdPosition? = some place → plan.groupBy.length ≤ place
  depths : plan.minDepth ≤ plan.maxDepth ∧ plan.maxDepth + 1 = plan.groupBy.length ∧
    plan.maxDepth < plan.common.size

/-- A plan has the common fields of its job, and splits the fields of each of its sources. -/
structure Splits (job : Job) (plan : Plan) : Prop where
  orders : plan.Orders job
  splits : ∀ declared ∈ job.sources, ∃ source, plan.source? declared.id = some source ∧
    source.id = declared.id ∧ source.schema = declared.schema ∧
    source.Splits plan (secondaryOrder job declared.id).entries
  only : ∀ id source, plan.source? id = some source → ∃ declared ∈ job.sources, declared.id = id

namespace Sound

variable {plan : Plan}

theorem common_names (sound : plan.Sound) :
    plan.common.names = (Layout.commonEntries plan.job).map SortEntry.name :=
  Layout.common_names sound.declared.nonempty sound.common.stand

theorem common_distinct (sound : plan.Sound) : plan.common.names.Nodup :=
  sound.common_names ▸ sound.common.distinct

theorem exists_planned_of_found (sound : plan.Sound) {id : SourceId} {source : SourcePlan}
    (found : plan.source? id = some source) :
    ∃ declared, plan.Planned declared source ∧ source.id = id := by
  obtain ⟨declared, planned⟩ :=
    sound.exists_declared (List.mem_map_of_mem (Dictionary.find?_eq_some.mp found))
  refine ⟨declared, planned, ?_⟩
  obtain ⟨sources, stand, same⟩ := sound.sources
  have distinct : ((sources.map fun source => (source.id, source)).map Prod.fst).Nodup := by
    rw [List.map_map]
    exact sound.planned_ids stand
  rw [source?, same, Dictionary.find?_ofList distinct] at found
  obtain ⟨other, _, equal⟩ := List.mem_map.mp found
  cases equal
  rfl

theorem sourceIdPosition?_eq_some (sound : plan.Sound) (place : Nat) :
    plan.sourceIdPosition? = some place ↔ plan.common.names[place]? = some sourceIdName := by
  rw [sound.sourceIdPosition]
  exact Schema.indexOf?_eq_some sound.common_distinct

theorem sourceIdPosition?_lt (sound : plan.Sound) {place : Nat} (marks : plan.sourceIdPosition? = some place) :
    place < plan.common.fields.length := by
  have named := (sound.sourceIdPosition?_eq_some place).mp marks
  have inside := (List.getElem?_eq_some_iff.mp named).1
  rwa [Schema.names, List.length_map] at inside

theorem orders (sound : plan.Sound) : plan.Orders plan.job := by
  have names := sound.common_names
  have marked := sound.sourceIdPosition?_eq_some
  have leading := List.prefix_iff_eq_take.mp sound.common.leading
  rw [← plan.job.commonOrder_eq] at names
  constructor
  · exact names
  · exact sound.common_distinct
  · rw [sound.criteria, Job.commonOrder_eq]
    exact Criterion.follow_ofFields (Nat.le_of_eq sound.common.stand.length_eq)
  · exact sound.marked_iff
  · exact marked
  · intro place direction found
    have inside := (List.getElem?_eq_some_iff.mp found).1
    rw [marked, names, List.getElem?_map, Job.commonOrder, List.getElem?_append_left inside, found]
    rfl
  · intro several unmarked
    have appended : plan.job.commonOrder = plan.job.configuredEntries ++ [.sourceId .ascending] := by
      rw [Job.commonOrder, if_pos ⟨several, unmarked⟩]
    rw [appended, List.map_append] at names
    constructor
    · rw [marked, names, List.getElem?_append_right (by simp)]
      simp [SortEntry.name]
    · simpa [Schema.names, Schema.size] using congrArg List.length names
  · exact ⟨sound.groupBy, sound.groupBy ▸ leading⟩
  · intro place position
    rw [marked] at position
    by_contra early
    have grouped : plan.common.names[place]? = plan.job.groupBy[place]? := by
      rw [leading, List.getElem?_take_of_lt (by rw [← sound.groupBy]; omega)]
    exact sound.common.unmarked (List.mem_of_getElem? (grouped.symm.trans position))
  · have short := sound.groupBy_length_le
    have deepest := sound.groupBy_length_eq
    refine ⟨sound.common.shallowest, deepest.symm, ?_⟩
    rw [Schema.size]
    omega

end Sound

namespace Planned

variable {plan : Plan} {declared : Source} {source : SourcePlan}

theorem specific_apart (planned : plan.Planned declared source) :
    ∀ field ∈ source.specific.fields, field.name ∉ plan.common.names := by
  obtain ⟨leading, same, stand, _⟩ := planned.sound.secondary
  rw [same]
  intro field member
  rcases List.mem_append.mp member with ordered | remaining
  · obtain ⟨entry, _, stands⟩ := stand.exists_left ordered
    exact stands.apart
  · simp only [Layout.remainingFields, List.mem_filter, Bool.and_eq_true, Bool.not_eq_true'] at remaining
    rw [← Schema.contains_eq_true, remaining.2.1]
    exact Bool.false_ne_true

theorem feeds (planned : plan.Planned declared source) :
    List.Forall₂ (Slot.Feeds source.schema) (plan.recordFields source) source.slots :=
  List.rel_append planned.sound.feedsCommon planned.sound.feedsSpecific

theorem distinct_names (sound : plan.Sound) (planned : plan.Planned declared source) :
    ((plan.recordFields source).map Field.name).Nodup := by
  rw [recordFields, List.map_append]
  refine sound.common_distinct.append planned.sound.distinct ?_
  intro name common specific
  obtain ⟨field, member, rfl⟩ := List.mem_map.mp specific
  exact planned.specific_apart field member common

theorem distinct_positions (sound : plan.Sound) (planned : plan.Planned declared source) :
    (source.slots.filterMap Slot.position?).Nodup :=
  Slot.positions_nodup planned.feeds (planned.distinct_names sound)

theorem whole (sound : plan.Sound) (planned : plan.Planned declared source) :
    (source.commonSlots.filterMap Slot.position? ++ source.specificPositions).Perm
      (List.range source.schema.size) := by
  rw [← source.positions_slots]
  refine (List.perm_ext_iff_of_nodup (planned.distinct_positions sound) List.nodup_range).mpr ?_
  intro position
  rw [List.mem_range]
  constructor
  · exact Slot.position_lt_of_feeds planned.feeds
  · intro inside
    exact List.mem_filterMap.mpr ⟨_, planned.sound.covers position inside, rfl⟩

theorem splits (sound : plan.Sound) (planned : plan.Planned declared source) :
    source.Splits plan (secondaryOrder plan.job declared.id).entries := by
  obtain ⟨leading, same, stand, criteria⟩ := planned.sound.secondary
  have declaredIn : List.Forall₂ (fun entry field => entry.fieldIn? source.schema = some field)
      (secondaryOrder plan.job declared.id).entries leading := stand.imp fun _ _ each => each.declared
  have names : (secondaryOrder plan.job declared.id).entries.map SortEntry.name =
      leading.map Field.name := by
    rw [← List.forall₂_eq_eq_eq, List.forall₂_map_left_iff, List.forall₂_map_right_iff]
    refine declaredIn.imp fun entry field found => ?_
    obtain ⟨_, _, named, _⟩ := SortEntry.fieldIn?_eq_some.mp found
    exact named.symm
  constructor
  · exact planned.whole sound
  · exact planned.sound.feedsCommon
  · exact planned.sound.feedsSpecific
  · intro place
    rw [sound.sourceIdPosition?_eq_some]
    exact Slot.sourceId_iff_of_feeds planned.sound.feedsCommon
  · refine ⟨leading, declaredIn, ?_⟩
    rw [same, names, Layout.remainingFields]
    congr 2
    funext field
    rw [Bool.eq_iff_iff]
    simp [← Schema.contains_eq_true]
  · have enough := Nat.le_of_eq stand.length_eq
    rw [criteria, same, ← Criterion.ofFields_append (by simpa using enough)]
    refine Criterion.follow_ofFields ?_
    rw [List.length_append]
    omega

end Planned

/-- A plan that can be built splits the fields of its job's sources without loss. -/
theorem splits_of_build {job : Job} {plan : Plan} (built : build job = .ok plan) : plan.Splits job := by
  obtain ⟨sound, rfl⟩ := build_sound built
  constructor
  · exact sound.orders
  · intro declared member
    obtain ⟨source, planned⟩ := sound.exists_planned member
    refine ⟨source, ?_, planned.sound.id, planned.sound.schema, planned.splits sound⟩
    rw [← planned.sound.id]
    exact planned.found
  · intro id source found
    obtain ⟨declared, planned, same⟩ := sound.exists_planned_of_found found
    exact ⟨declared, planned.inJob, planned.sound.id.symm.trans same⟩

end Plan

namespace Crawl

def pages : Schema :=
  ⟨"pages", [⟨"body", .text, none⟩, ⟨"url", .text, none⟩, ⟨"fetched", .int64, none⟩, ⟨"size", .int32, none⟩]⟩

def links : Schema := ⟨"links", [⟨"fetched", .int64, none⟩, ⟨"anchor", .text, none⟩, ⟨"url", .text, none⟩]⟩

def job : Job :=
  { sources := [⟨⟨1⟩, pages⟩, ⟨⟨2⟩, links⟩]
    orderBy := ⟨[.field "url" .ascending none, .sourceId .ascending, .field "fetched" .descending none]⟩
    groupBy := ["url"]
    secondaryOrderBy := Dictionary.ofList [(⟨1⟩, ⟨[.field "size" .descending none]⟩)] }

def plan : Plan := valueOf (Plan.build job) (by decide +kernel)

end Crawl

/-- The sources declare the common fields in other places, and one of them has a secondary order. -/
theorem Plan.splits_of_build_crawl :
    Crawl.plan.Splits Crawl.job ∧
      (Crawl.plan.source? ⟨1⟩).map SourcePlan.commonSlots = some [.field 1, .sourceId, .field 2] ∧
      (Crawl.plan.source? ⟨1⟩).map SourcePlan.specificPositions = some [3, 0] ∧
      (Crawl.plan.source? ⟨2⟩).map SourcePlan.commonSlots = some [.field 2, .sourceId, .field 0] :=
  ⟨splits_of_build (eq_valueOf _), by decide +kernel, by decide +kernel, by decide +kernel⟩

end Cogrouping
