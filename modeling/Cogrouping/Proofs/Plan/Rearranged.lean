import Cogrouping.Order.Record
import Cogrouping.Partition
import Cogrouping.Proofs.Plan.WellFormed
import Mathlib.Data.List.Perm.Basic

/-!
Jobs that declare the same sources in another order. What is common to all sources is asked of each of
them, what is specific is found by the id of its source, and enum types are found by name: the plan
differs in nothing but the job it was made from.
-/

namespace Cogrouping

namespace Layout

variable {sources others : List Source}

theorem CommonField.perm (same : sources.Perm others) {entry : SortEntry} {field : Field}
    (stands : CommonField sources entry field) : CommonField others entry field := by
  cases stands with
  | sourceId direction several => exact .sourceId direction (same.length_eq ▸ several)
  | field orderable declared =>
      exact .field orderable fun source member => declared source (same.mem_iff.mpr member)

theorem entryFields_perm (same : sources.Perm others) (nonempty : sources ≠ []) {seen : List String}
    {entries : List SortEntry} {fields : List Field}
    (found : entryFields sources seen entries = .ok fields) :
    entryFields others seen entries = .ok fields := by
  obtain ⟨stand, distinct, apart⟩ := (entryFields_eq_ok nonempty).mp found
  have nonemptyToo : others ≠ [] := by
    rintro rfl
    exact nonempty same.eq_nil
  refine (entryFields_eq_ok nonemptyToo).mpr ⟨stand.imp fun _ _ stands => stands.perm same, distinct,
    apart⟩

theorem checkSources_perm (same : sources.Perm others) (checked : checkSources [] [] sources = .ok ()) :
    checkSources [] [] others = .ok () := by
  obtain ⟨apart, distinctIds, distinctSchemas⟩ := checkSources_eq_ok.mp checked
  refine checkSources_eq_ok.mpr ⟨fun source member => apart source (same.mem_iff.mpr member), ?_, ?_⟩
  · exact (same.map Source.id).nodup distinctIds
  · exact (same.map (·.schema.name)).nodup distinctSchemas

variable {job : Job}

theorem checkSecondaryIds_perm (same : job.sources.Perm others) {ids : List SourceId}
    (checked : checkSecondaryIds job ids = .ok ()) :
    checkSecondaryIds { job with sources := others } ids = .ok () := by
  refine checkSecondaryIds_eq_ok.mpr fun id member => ?_
  obtain ⟨source, inside, named⟩ := checkSecondaryIds_eq_ok.mp checked id member
  exact ⟨source, same.mem_iff.mp inside, named⟩

theorem appendsSourceId_perm (same : job.sources.Perm others) :
    appendsSourceId { job with sources := others } = appendsSourceId job := by
  rw [appendsSourceId, appendsSourceId, same.length_eq]
  rfl

theorem commonOf_perm (same : job.sources.Perm others) (fields : List Field) :
    commonOf { job with sources := others } fields = commonOf job fields := by
  rw [commonOf, commonOf, appendsSourceId_perm same]

theorem Steps.perm (same : job.sources.Perm others) {fields : List Field} {minDepth : Nat}
    {parts : List (SourceId × SpecificPart)} (steps : Steps job fields minDepth parts) :
    ∃ moved, parts.Perm moved ∧ Steps { job with sources := others } fields minDepth moved := by
  obtain ⟨moved, specific, back⟩ :=
    List.perm_comp_forall₂ same.symm (specificParts_eq_ok.mp steps.specific)
  refine ⟨moved, back.symm, ?_⟩
  constructor
  · intro empty
    have none : others = [] := empty
    rw [none] at same
    exact steps.nonempty same.eq_nil
  · exact checkSources_perm same steps.checked
  · exact steps.ordered
  · exact entryFields_perm same steps.nonempty steps.entries
  · rw [commonOf_perm same]
    exact steps.grouped
  · exact steps.shallowest
  · exact checkSecondaryIds_perm same steps.secondary
  · rw [commonOf_perm same]
    exact specificParts_eq_ok.mpr specific

end Layout

namespace Plan

variable {job : Job} {others : List Source}

theorem collectEnums_perm {fields moved : List Field} (same : fields.Perm moved)
    {types : Dictionary String EnumType} (found : collectEnums fields ∅ = .ok types) :
    collectEnums moved ∅ = .ok types := by
  obtain ⟨agree, alike⟩ := exists_collectEnums.mp ⟨types, found⟩
  obtain ⟨others, foundToo⟩ := exists_collectEnums.mpr
    ⟨fun field member => agree field (same.mem_iff.mpr member),
      fun left leftMember right rightMember => alike left (same.mem_iff.mpr leftMember) right
        (same.mem_iff.mpr rightMember)⟩
  have equal : types = others := by
    refine Dictionary.eq_of_mem_iff fun ⟨name, type⟩ => ?_
    rw [← Dictionary.find?_eq_some, ← Dictionary.find?_eq_some, collectEnums_find? found,
      collectEnums_find? foundToo]
    simp only [same.mem_iff]
  rw [foundToo, equal]

theorem lookup_eq_some {α β : Type} [BEq α] [LawfulBEq α] {entries : List (α × β)}
    (distinct : (entries.map Prod.fst).Nodup) {key : α} {value : β} :
    entries.lookup key = some value ↔ (key, value) ∈ entries := by
  rw [List.lookup_eq_some_iff]
  constructor
  · rintro ⟨before, after, rfl, _⟩
    simp
  · intro member
    obtain ⟨before, after, rfl⟩ := List.append_of_mem member
    refine ⟨before, after, rfl, fun entry earlier => bne_iff_ne.mpr fun same => ?_⟩
    rw [List.map_append] at distinct
    exact List.disjoint_of_nodup_append distinct (List.mem_map_of_mem earlier)
      (same ▸ List.mem_cons_self)

theorem lookup_perm {α β : Type} [BEq α] [LawfulBEq α] {entries moved : List (α × β)}
    (same : entries.Perm moved) (distinct : (entries.map Prod.fst).Nodup) (key : α) :
    moved.lookup key = entries.lookup key := by
  apply Option.ext
  intro value
  rw [lookup_eq_some distinct, lookup_eq_some ((same.map Prod.fst).nodup distinct), same.mem_iff]

theorem part_ids {layout : Layout} (sound : layout.Sound job) :
    layout.specific.map Prod.fst = job.sources.map Source.id := by
  rw [← List.forall₂_eq_eq_eq, List.forall₂_map_left_iff, List.forall₂_map_right_iff]
  exact (sound.specific.imp fun _ _ facts => facts.1).flip

theorem planned_ids {layout : Layout} (sound : layout.Sound job) {planned : List SourcePlan}
    (made : job.sources.mapM (sourcePlan layout) = .ok planned) :
    planned.map SourcePlan.id = job.sources.map Source.id := by
  rw [← List.forall₂_eq_eq_eq, List.forall₂_map_left_iff, List.forall₂_map_right_iff]
  refine (((List.forall₂_and_left _ _).mpr ⟨fun _ member => member, mapM_eq_ok.mp made⟩).imp ?_).flip
  rintro declared source ⟨member, done⟩
  exact (sourcePlan_sound sound member done).id

/-- The same sources in another order have the same plan. -/
theorem build_perm (same : job.sources.Perm others) {plan : Plan} (built : build job = .ok plan) :
    build { job with sources := others } =
      .ok { plan with job := { job with sources := others } } := by
  obtain ⟨layout, laid, built⟩ := bind_eq_ok.mp built
  obtain ⟨enumTypes, collected, built⟩ := bind_eq_ok.mp built
  obtain ⟨planned, sources, built⟩ := bind_eq_ok.mp built
  cases built
  have sound := Layout.ofJob_sound laid
  have distinct := sound.sources.distinctIds
  have ids := planned_ids sound sources
  have partIds := part_ids sound
  obtain ⟨fields, minDepth, parts, steps, rfl⟩ := Layout.ofJob_eq_ok.mp laid
  obtain ⟨moved, back, stepsToo⟩ := steps.perm same
  have laidToo := Layout.ofJob_eq_ok.mpr ⟨fields, minDepth, moved, stepsToo, rfl⟩
  have sameLayout : Layout.assembled { job with sources := others } fields minDepth moved =
      { Layout.assembled job fields minDepth parts with specific := moved } := by
    rw [Layout.assembled, Layout.assembled, Layout.commonOf_perm same,
      Layout.appendsSourceId_perm same]
    rfl
  have samePlans : sourcePlan { Layout.assembled job fields minDepth parts with specific := moved } =
      sourcePlan (Layout.assembled job fields minDepth parts) := by
    funext source
    have found := lookup_perm back (partIds ▸ distinct) source.id
    simp only [sourcePlan, Layout.assembled, found]
  obtain ⟨plannedToo, stand, backPlanned⟩ :=
    List.perm_comp_forall₂ same.symm (mapM_eq_ok.mp sources)
  have entries : (planned.map fun source => (source.id, source)).map Prod.fst =
      job.sources.map Source.id := by
    rw [← ids, List.map_map]
    rfl
  have sameSources : Dictionary.ofList (plannedToo.map fun source => (source.id, source)) =
      Dictionary.ofList (planned.map fun source => (source.id, source)) :=
    (Dictionary.ofList_eq_of_perm (backPlanned.symm.map _) (entries ▸ distinct)).symm
  rw [build, laidToo, ok_bind, sameLayout,
    collectEnums_perm (same.flatMap_right _) collected, ok_bind, samePlans, mapM_eq_ok.mpr stand,
    ok_bind, sameSources]
  rfl

end Plan

namespace RecordOrder

variable (order other : RecordOrder)

theorem compareCommonBytes_congr (codec : other.codec = order.codec) (left right : Bytes)
    (progress : Progress) (keys : List SortKey) :
    other.compareCommonBytes left right progress keys =
      order.compareCommonBytes left right progress keys := by
  induction keys generalizing progress with
  | nil => rfl
  | cons key keys ih =>
      rw [compareCommonBytes, compareCommonBytes, codec]
      simp only [ih]

theorem compareSecondaryBytes_congr (codec : other.codec = order.codec) (left right : Bytes)
    (leftOffset rightOffset : Nat) (keys : List SortKey) :
    other.compareSecondaryBytes left right leftOffset rightOffset keys =
      order.compareSecondaryBytes left right leftOffset rightOffset keys := by
  induction keys generalizing leftOffset rightOffset with
  | nil => rfl
  | cons key keys ih =>
      rw [compareSecondaryBytes, compareSecondaryBytes, codec]
      simp only [ih]

theorem compareBytesBy_congr (codec : other.codec = order.codec)
    (sources : other.plan.sources = order.plan.sources) (secondary : other.secondary = order.secondary)
    (keys : List SortKey) (withSecondary : Bool) (left right : Bytes) :
    other.compareBytesBy keys withSecondary left right =
      order.compareBytesBy keys withSecondary left right := by
  simp only [compareBytesBy, compareCommonBytes_congr order other codec,
    compareSecondaryBytes_congr order other codec, sharedSource?, secondaryOf, Plan.isMultiSource,
    sources, secondary]
  rfl

end RecordOrder

namespace Plan

structure Agrees (plan other : Plan) : Prop where
  fields : ∀ objects limit,
    FieldCodec.ofPlan other objects limit = FieldCodec.ofPlan plan objects limit
  encode : ∀ fields tuple,
    (RecordCodec.mk other fields).encode tuple = (RecordCodec.mk plan fields).encode tuple
  decode : ∀ fields record,
    (RecordCodec.mk other fields).decode record = (RecordCodec.mk plan fields).decode record
  orders : ∀ fields comparators, RecordOrder.ofPlan other fields comparators =
    (RecordOrder.ofPlan plan fields comparators).map fun order => { order with plan := other }
  compare : ∀ order : RecordOrder, order.plan = plan → ∀ left right,
    { order with plan := other }.compare left right = order.compare left right
  compareBytes : ∀ order : RecordOrder, order.plan = plan → ∀ left right,
    { order with plan := other }.compareBytes left right = order.compareBytes left right
  compareGroups : ∀ order : RecordOrder, order.plan = plan → ∀ left right,
    { order with plan := other }.groups.compare left right = order.groups.compare left right
  compareGroupBytes : ∀ order : RecordOrder, order.plan = plan → ∀ left right,
    { order with plan := other }.groups.compareBytes left right =
      order.groups.compareBytes left right
  partitioners : ∀ fields count seed, Partitioner.ofPlan other fields count seed =
    (Partitioner.ofPlan plan fields count seed).map fun partitioner =>
      { partitioner with plan := other }
  assign : ∀ partitioner : Partitioner, partitioner.plan = plan → ∀ tuple,
    { partitioner with plan := other }.assign tuple = partitioner.assign tuple

theorem agrees_of_job (plan : Plan) (job : Job) : plan.Agrees { plan with job } := by
  constructor
  · intro objects limit
    rfl
  · intro fields tuple
    rfl
  · intro fields record
    rfl
  · intro fields comparators
    simp only [RecordOrder.ofPlan, map_bind_eq]
    rfl
  · rintro order rfl left right
    rfl
  · rintro order rfl left right
    let other : RecordOrder := { order with plan := { order.plan with job } }
    exact RecordOrder.compareBytesBy_congr order other rfl rfl rfl order.common true left right
  · rintro order rfl left right
    rfl
  · rintro order rfl left right
    let other : RecordOrder := { order with plan := { order.plan with job } }
    exact RecordOrder.compareBytesBy_congr order other rfl rfl rfl order.groups.keys false left right
  · intro fields count seed
    simp only [Partitioner.ofPlan]
    split
    · rw [map_bind_eq]
      rfl
    · rfl
  · rintro partitioner rfl tuple
    rfl

/-- The order in which a job declares its sources has no part in its plan: whether there is one, and
all of it but the job itself. -/
theorem build_rearranged (job : Job) {sources : List Source} (same : job.sources.Perm sources) :
    ((∃ plan, build job = .ok plan) ↔ ∃ plan, build { job with sources } = .ok plan) ∧
      ∀ plan, build job = .ok plan →
        build { job with sources } = .ok { plan with job := { job with sources } } ∧
          plan.Agrees { plan with job := { job with sources } } := by
  refine ⟨⟨?_, ?_⟩, ?_⟩
  · rintro ⟨plan, built⟩
    exact ⟨_, build_perm same built⟩
  · rintro ⟨plan, built⟩
    have back : { job with sources }.sources.Perm job.sources := same.symm
    exact ⟨_, build_perm back built⟩
  · intro plan built
    exact ⟨build_perm same built, plan.agrees_of_job _⟩

end Plan

def Crawl.turned : Job := { Crawl.job with sources := [⟨⟨2⟩, Crawl.links⟩, ⟨⟨1⟩, Crawl.pages⟩] }

theorem Plan.build_rearranged_crawl :
    ((∃ plan, Plan.build Crawl.job = .ok plan) ↔ ∃ plan, Plan.build Crawl.turned = .ok plan) ∧
      Plan.build Crawl.turned = .ok { Crawl.plan with job := Crawl.turned } ∧
      Crawl.plan.Agrees { Crawl.plan with job := Crawl.turned } := by
  have swapped : Crawl.job.sources.Perm [⟨⟨2⟩, Crawl.links⟩, ⟨⟨1⟩, Crawl.pages⟩] := .swap _ _ _
  obtain ⟨both, rearranged⟩ := Plan.build_rearranged Crawl.job swapped
  exact ⟨both, rearranged Crawl.plan (eq_valueOf _)⟩

end Cogrouping
