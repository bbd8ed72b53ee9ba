import Cogrouping.Proofs.Plan.Split

/-!
Jobs that have a plan. Being well formed is said of a job's own fields, source by source and entry by
entry, and it is exactly what building a plan checks.
-/

namespace Cogrouping

namespace Job

/-- What all sources can be sorted by: their ids if there are several, or a field that each of them
declares with one type and, unless the entry names a comparator, with one comparator. -/
inductive Sortable (sources : List Source) : SortEntry → Prop
  | sourceId (direction : Direction) : 2 ≤ sources.length → Sortable sources (.sourceId direction)
  | field {name : String} {direction : Direction} {comparator : Option String} (type : DataType)
      (compared : Option String) :
      (∀ source ∈ sources, ∃ declared ∈ source.schema.fields, declared.name = name ∧
        declared.type = type ∧ (comparator.orElse fun _ => declared.comparator) = compared) →
      (∀ codec, type = .object codec → compared.isSome = true) →
      Sortable sources (.field name direction comparator)

inductive SortableBeyond (common : List String) (schema : Schema) : SortEntry → Prop
  | field {name : String} {direction : Direction} {comparator : Option String} (declared : Field) :
      declared ∈ schema.fields → declared.name = name → name ∉ common →
      (∀ codec, declared.type = .object codec →
        (comparator.orElse fun _ => declared.comparator).isSome = true) →
      SortableBeyond common schema (.field name direction comparator)

def Declares (job : Job) (type : EnumType) : Prop :=
  ∃ source ∈ job.sources, ∃ field ∈ source.schema.fields, field.type = .enumeration type

structure WellFormed (job : Job) : Prop where
  sources : job.sources ≠ []
  schemas : ∀ source ∈ job.sources, source.schema.Valid
  distinctIds : (job.sources.map Source.id).Nodup
  distinctSchemas : (job.sources.map (·.schema.name)).Nodup
  ordered : job.configuredEntries ≠ []
  distinctEntries : (job.configuredEntries.map SortEntry.name).Nodup
  sortable : ∀ entry ∈ job.configuredEntries, Sortable job.sources entry
  grouped : job.groupBy ≠ []
  unmarked : sourceIdName ∉ job.groupBy
  leading : job.groupBy <+: job.commonOrder.map SortEntry.name
  rollup : ∀ field, job.rollupFrom = some field → field ∈ job.groupBy
  secondary : ∀ id order, job.secondaryOrderBy.find? id = some order →
    ∃ source ∈ job.sources, source.id = id ∧ (order.entries.map SortEntry.name).Nodup ∧
      ∀ entry ∈ order.entries,
        SortableBeyond (job.commonOrder.map SortEntry.name) source.schema entry
  enums : ∀ first second, job.Declares first → job.Declares second → first.name = second.name →
    first = second

end Job

namespace Layout

theorem orderable_iff {field : Field} :
    Orderable field ↔ ∀ codec, field.type = .object codec → field.comparator.isSome = true := by
  rw [Orderable]
  cases field.type with
  | object codec => simp [DataType.isOrderable]
  | _ => simp [DataType.isOrderable]

theorem exists_commonField {sources : List Source}
    (valid : ∀ source ∈ sources, source.schema.Valid) {entry : SortEntry} :
    (∃ field, CommonField sources entry field) ↔ Job.Sortable sources entry := by
  constructor
  · rintro ⟨field, stands⟩
    cases stands with
    | sourceId direction several => exact .sourceId direction several
    | field orderable declaredIn =>
        refine .field field.type field.comparator ?_ (orderable_iff.mp orderable)
        intro source member
        obtain ⟨declared, known, _, typed, compared⟩ :=
          SortEntry.fieldIn?_eq_some.mp (declaredIn source member)
        exact ⟨declared, Schema.mem_of_find? known, Schema.name_of_find? known, typed.symm,
          compared.symm⟩
  · intro sortable
    cases sortable with
    | sourceId direction several => exact ⟨.sourceId, .sourceId direction several⟩
    | @field name direction comparator type compared declaredIn usable =>
        refine ⟨⟨name, type, compared⟩, .field (orderable_iff.mpr usable) fun source member => ?_⟩
        obtain ⟨declared, inside, rfl, rfl, rfl⟩ := declaredIn source member
        have known := Schema.find?_of_mem (valid source member).distinct inside
        exact SortEntry.fieldIn?_eq_some.mpr ⟨declared, known, rfl, rfl, rfl⟩

theorem exists_secondaryField {schema common : Schema} (valid : schema.Valid) {entry : SortEntry} :
    (∃ field, SecondaryField schema common entry field) ↔
      Job.SortableBeyond common.names schema entry := by
  constructor
  · rintro ⟨field, declaredIn, orderable, apart⟩
    have unmarked := SortEntry.unmarked_of_fieldIn? valid declaredIn
    obtain ⟨declared, known, named, typed, compared⟩ := SortEntry.fieldIn?_eq_some.mp declaredIn
    cases entry with
    | sourceId direction => simp [Field.isSourceId, named, SortEntry.name] at unmarked
    | field name direction comparator =>
        refine .field declared (Schema.mem_of_find? known) (Schema.name_of_find? known) ?_ ?_
        · rw [named] at apart
          exact apart
        · intro codec object
          have usable := orderable_iff.mp orderable codec (typed.trans object)
          rw [compared] at usable
          exact usable
  · intro sortable
    cases sortable with
    | @field name direction comparator declared inside named apart usable =>
        refine ⟨{ declared with comparator := comparator.orElse fun _ => declared.comparator }, ?_,
          orderable_iff.mpr usable, ?_⟩
        · have known := Schema.find?_of_mem valid.distinct inside
          rw [named] at known
          exact SortEntry.fieldIn?_eq_some.mpr ⟨declared, known, named, rfl, rfl⟩
        · exact named.symm ▸ apart

theorem secondary_names {schema common : Schema} {entries : List SortEntry} {fields : List Field}
    (stand : List.Forall₂ (SecondaryField schema common) entries fields) :
    fields.map Field.name = entries.map SortEntry.name := by
  rw [← List.forall₂_eq_eq_eq, List.forall₂_map_left_iff, List.forall₂_map_right_iff]
  refine (stand.imp fun entry field stands => ?_).flip
  obtain ⟨_, _, named, _⟩ := SortEntry.fieldIn?_eq_some.mp stands.declared
  exact named

theorem exists_specificPart {schema common : Schema} (valid : schema.Valid) {order : SortOrder} :
    (∃ part, specificPart schema common order = .ok part) ↔
      (order.entries.map SortEntry.name).Nodup ∧
        ∀ entry ∈ order.entries, Job.SortableBeyond common.names schema entry := by
  have made : (∃ part, specificPart schema common order = .ok part) ↔
      ∃ leading, secondaryFields schema common [] order.entries = .ok leading := by
    constructor
    · rintro ⟨part, found⟩
      obtain ⟨leading, ordered, _⟩ := bind_eq_ok.mp found
      exact ⟨leading, ordered⟩
    · rintro ⟨leading, ordered⟩
      exact ⟨_, bind_eq_ok.mpr ⟨leading, ordered, rfl⟩⟩
  have entries : (∀ entry ∈ order.entries, Job.SortableBeyond common.names schema entry) ↔
      ∃ leading, List.Forall₂ (SecondaryField schema common) order.entries leading := by
    rw [List.exists_forall₂]
    exact forall₂_congr fun entry _ => (exists_secondaryField valid).symm
  rw [made, entries]
  constructor
  · rintro ⟨leading, found⟩
    obtain ⟨distinct, _, rfl, stand⟩ := (secondaryFields_eq_ok valid (by simp)).mp found
    rw [secondary_names stand] at distinct
    exact ⟨distinct, leading, stand⟩
  · rintro ⟨distinct, leading, stand⟩
    rw [← secondary_names stand] at distinct
    exact ⟨leading, (secondaryFields_eq_ok valid (by simp)).mpr ⟨distinct, leading, rfl, stand⟩⟩

theorem exists_specificParts {job : Job} {common : Schema} {sources : List Source} :
    (∃ parts, specificParts job common sources = .ok parts) ↔ ∀ source ∈ sources,
      ∃ part, specificPart source.schema common (Plan.secondaryOrder job source.id) = .ok part := by
  simp only [specificParts_eq_ok, List.exists_forall₂]
  refine forall₂_congr fun source _ => ?_
  constructor
  · rintro ⟨part, _, made⟩
    exact ⟨part.2, made⟩
  · rintro ⟨part, made⟩
    exact ⟨(source.id, part), rfl, made⟩

theorem exists_ofJob {job : Job} :
    (∃ layout, ofJob job = .ok layout) ↔
      job.sources ≠ [] ∧ checkSources [] [] job.sources = .ok () ∧
        (effectiveOrder job).entries ≠ [] ∧
        ∃ fields, entryFields job.sources [] (effectiveOrder job).entries = .ok fields ∧
          checkGroupBy job.groupBy (commonOf job fields) = .ok () ∧
          (∃ depth, rollupDepth job = .ok depth) ∧
          checkSecondaryIds job job.secondaryOrderBy.keys = .ok () ∧
          ∃ parts, specificParts job (commonOf job fields) job.sources = .ok parts := by
  constructor
  · rintro ⟨layout, found⟩
    obtain ⟨fields, minDepth, parts, steps, _⟩ := ofJob_eq_ok.mp found
    exact ⟨steps.nonempty, steps.checked, steps.ordered, fields, steps.entries, steps.grouped,
      ⟨minDepth, steps.shallowest⟩, steps.secondary, parts, steps.specific⟩
  · rintro ⟨nonempty, checked, ordered, fields, entries, grouped, ⟨minDepth, shallowest⟩, secondary,
      parts, specific⟩
    exact ⟨_, ofJob_eq_ok.mpr ⟨fields, minDepth, parts,
      ⟨nonempty, checked, ordered, entries, grouped, shallowest, secondary, specific⟩, rfl⟩⟩

end Layout

namespace Plan

theorem exists_locate {schema : Schema} {name : String} (known : name ∈ schema.names) :
    ∃ position, locate schema name = .ok position := by
  have found : (schema.indexOf? name).isSome = true := by
    obtain ⟨field, inside, named⟩ := List.mem_map.mp known
    rw [Schema.indexOf?, List.findIdx?_isSome]
    exact List.any_eq_true.mpr ⟨field, inside, beq_iff_eq.mpr named⟩
  obtain ⟨position, place⟩ := Option.isSome_iff_exists.mp found
  exact ⟨position, by rw [locate, place]⟩

theorem exists_sourcePlan {job : Job} {layout : Layout} (sound : layout.Sound job) {source : Source}
    (member : source ∈ job.sources) : ∃ planned, sourcePlan layout source = .ok planned := by
  obtain ⟨entry, inside, sameId, part⟩ := sound.specific.exists_right member
  have listed : layout.specific.lookup source.id ≠ none := by
    intro absent
    have differs := List.lookup_eq_none_iff.mp absent entry inside
    simp [sameId] at differs
  obtain ⟨found, looked⟩ := Option.ne_none_iff_exists'.mp listed
  have specific := specific_of_lookup sound member looked
  have commonSlots : ∃ slots, layout.common.fields.mapM (commonSlot source.schema) = .ok slots := by
    simp only [mapM_eq_ok, List.exists_forall₂]
    intro field common
    obtain ⟨entry, _, stands⟩ := sound.common.stand.exists_left common
    rw [commonSlot]
    cases stands with
    | sourceId => exact ⟨.sourceId, rfl⟩
    | field _ declaredIn =>
        obtain ⟨declared, known, named, _⟩ := SortEntry.fieldIn?_eq_some.mp (declaredIn source member)
        have name : field.name ∈ source.schema.names := by
          rw [named, ← Schema.name_of_find? known]
          exact List.mem_map_of_mem (Schema.mem_of_find? known)
        obtain ⟨position, located⟩ := exists_locate name
        rw [located]
        split
        · exact ⟨_, rfl⟩
        · exact ⟨_, rfl⟩
  have positions : ∃ positions,
      found.schema.fields.mapM (fun field => locate source.schema field.name) = .ok positions := by
    simp only [mapM_eq_ok, List.exists_forall₂]
    intro field inside
    obtain ⟨declared, known, named, _⟩ := specific.declared field inside
    exact exists_locate (named ▸ List.mem_map_of_mem known)
  obtain ⟨slots, slotsMade⟩ := commonSlots
  obtain ⟨places, placesMade⟩ := positions
  rw [sourcePlan, looked]
  simp only [slotsMade, placesMade, ok_bind]
  exact ⟨_, rfl⟩

theorem exists_sourcePlans {job : Job} {layout : Layout} (laid : Layout.ofJob job = .ok layout) :
    ∃ sources, job.sources.mapM (sourcePlan layout) = .ok sources := by
  simp only [mapM_eq_ok, List.exists_forall₂]
  exact fun source member => exists_sourcePlan (Layout.ofJob_sound laid) member

theorem exists_collectEnums {fields : List Field} {before : Dictionary String EnumType} :
    (∃ found, collectEnums fields before = .ok found) ↔
      (∀ field ∈ fields, ∀ type known, field.type = .enumeration type →
        before.find? type.name = some known → known = type) ∧
      ∀ left ∈ fields, ∀ right ∈ fields, ∀ first second, left.type = .enumeration first →
        right.type = .enumeration second → first.name = second.name → first = second := by
  constructor
  · rintro ⟨found, collected⟩
    obtain ⟨keeps, finds⟩ := collectEnums_sound collected
    constructor
    · intro field inside type known typed held
      exact Option.some.inj ((keeps _ _ held).symm.trans (finds field inside type typed))
    · intro left leftInside right rightInside first second leftTyped rightTyped same
      have leftFound := finds left leftInside first leftTyped
      rw [same, finds right rightInside second rightTyped] at leftFound
      exact (Option.some.inj leftFound).symm
  · induction fields generalizing before with
    | nil => exact fun _ => ⟨before, rfl⟩
    | cons field rest ih =>
        rintro ⟨agree, alike⟩
        rw [List.forall_mem_cons] at agree
        have alikeRest := fun left inside right rightInside =>
          alike left (List.mem_cons_of_mem _ inside) right (List.mem_cons_of_mem _ rightInside)
        rw [collectEnums]
        cases typed : field.type with
        | enumeration type =>
            cases held : before.find? type.name with
            | some known =>
                have same := agree.1 type known typed held
                simp only [held, same, if_true]
                exact ih ⟨agree.2, alikeRest⟩
            | none =>
                simp only [held]
                refine ih ⟨?_, alikeRest⟩
                intro later inside other known otherTyped found
                by_cases same : other.name = type.name
                · rw [same, Dictionary.find?_insert_self] at found
                  cases found
                  exact alike field List.mem_cons_self later (List.mem_cons_of_mem _ inside) _ _ typed
                    otherTyped same.symm
                · rw [Dictionary.find?_insert_of_ne same] at found
                  exact agree.2 later inside other known otherTyped found
        | _ => exact ih ⟨agree.2, alikeRest⟩

theorem exists_build_iff_layout {job : Job} :
    (∃ plan, build job = .ok plan) ↔ (∃ layout, Layout.ofJob job = .ok layout) ∧
      ∃ found, collectEnums (job.sources.flatMap (·.schema.fields)) ∅ = .ok found := by
  constructor
  · rintro ⟨plan, built⟩
    obtain ⟨layout, laid, built⟩ := bind_eq_ok.mp built
    obtain ⟨found, collected, _⟩ := bind_eq_ok.mp built
    exact ⟨⟨layout, laid⟩, found, collected⟩
  · rintro ⟨⟨layout, laid⟩, found, collected⟩
    obtain ⟨sources, made⟩ := exists_sourcePlans laid
    rw [build, laid, ok_bind, collected, ok_bind, made]
    exact ⟨_, rfl⟩

end Plan

namespace Job

variable {job : Job}

theorem mem_keys_iff {id : SourceId} :
    id ∈ job.secondaryOrderBy.keys ↔ ∃ order, job.secondaryOrderBy.find? id = some order := by
  simp [Dictionary.keys, Dictionary.find?_eq_some]

theorem secondary_iff (distinct : (job.sources.map Source.id).Nodup) {common : List String} :
    ((∀ id ∈ job.secondaryOrderBy.keys, ∃ source ∈ job.sources, source.id = id) ∧
      ∀ source ∈ job.sources,
        ((Plan.secondaryOrder job source.id).entries.map SortEntry.name).Nodup ∧
          ∀ entry ∈ (Plan.secondaryOrder job source.id).entries,
            SortableBeyond common source.schema entry) ↔
    ∀ id order, job.secondaryOrderBy.find? id = some order →
      ∃ source ∈ job.sources, source.id = id ∧ (order.entries.map SortEntry.name).Nodup ∧
        ∀ entry ∈ order.entries, SortableBeyond common source.schema entry := by
  constructor
  · rintro ⟨known, sortable⟩ id order found
    obtain ⟨source, member, rfl⟩ := known id (mem_keys_iff.mpr ⟨order, found⟩)
    have here := sortable source member
    rw [Plan.secondaryOrder, found] at here
    exact ⟨source, member, rfl, here⟩
  · intro sortable
    constructor
    · intro id member
      obtain ⟨order, found⟩ := mem_keys_iff.mp member
      obtain ⟨source, inside, same, _⟩ := sortable id order found
      exact ⟨source, inside, same⟩
    · intro source member
      rw [Plan.secondaryOrder]
      cases found : job.secondaryOrderBy.find? source.id with
      | none => simp [SortOrder.empty]
      | some order =>
          obtain ⟨other, inside, same, sorts⟩ := sortable source.id order found
          obtain rfl := List.inj_on_of_nodup_map distinct inside member same
          exact sorts

theorem exists_entryFields (nonempty : job.sources ≠ [])
    (valid : ∀ source ∈ job.sources, source.schema.Valid) {entries : List SortEntry} :
    (∃ fields, Layout.entryFields job.sources [] entries = .ok fields) ↔
      (entries.map SortEntry.name).Nodup ∧ ∀ entry ∈ entries, Sortable job.sources entry := by
  have each : (∀ entry ∈ entries, Sortable job.sources entry) ↔
      ∃ fields, List.Forall₂ (Layout.CommonField job.sources) entries fields := by
    rw [List.exists_forall₂]
    exact forall₂_congr fun entry _ => (Layout.exists_commonField valid).symm
  rw [each]
  constructor
  · rintro ⟨fields, found⟩
    obtain ⟨stand, distinct, _⟩ := (Layout.entryFields_eq_ok nonempty).mp found
    exact ⟨distinct, fields, stand⟩
  · rintro ⟨distinct, fields, stand⟩
    exact ⟨fields, (Layout.entryFields_eq_ok nonempty).mpr ⟨stand, distinct, by simp⟩⟩

theorem commonOf_names (nonempty : job.sources ≠ [])
    (valid : ∀ source ∈ job.sources, source.schema.Valid) {fields : List Field}
    (found : Layout.entryFields job.sources [] (Layout.effectiveOrder job).entries = .ok fields) :
    (Layout.commonOf job fields).names = job.commonOrder.map SortEntry.name := by
  obtain ⟨stand, distinct, _⟩ := (Layout.entryFields_eq_ok nonempty).mp found
  rw [commonOrder_eq, ← Layout.common_names nonempty (Layout.appended_sound nonempty valid stand distinct).1]
  rfl

theorem exists_layout_of_wellFormed (formed : job.WellFormed) :
    ∃ layout, Layout.ofJob job = .ok layout := by
  obtain ⟨fields, entries⟩ := (exists_entryFields formed.sources formed.schemas).mpr
    ⟨formed.distinctEntries, formed.sortable⟩
  rw [configuredEntries_eq] at entries
  have names := commonOf_names formed.sources formed.schemas entries
  obtain ⟨known, sortable⟩ := (secondary_iff formed.distinctIds).mpr formed.secondary
  refine Layout.exists_ofJob.mpr ⟨formed.sources, ?_, ?_, fields, entries, ?_, ?_, ?_, ?_⟩
  · refine Layout.checkSources_eq_ok.mpr ⟨fun source member => ?_, formed.distinctIds,
      formed.distinctSchemas⟩
    exact ⟨formed.schemas source member, List.not_mem_nil, List.not_mem_nil⟩
  · exact configuredEntries_eq ▸ formed.ordered
  · exact Layout.checkGroupBy_eq_ok.mpr ⟨formed.grouped, formed.unmarked, names ▸ formed.leading⟩
  · exact Layout.exists_rollupDepth.mpr formed.rollup
  · exact Layout.checkSecondaryIds_eq_ok.mpr known
  · refine Layout.exists_specificParts.mpr fun source member => ?_
    rw [Layout.exists_specificPart (formed.schemas source member), names]
    exact sortable source member

end Job

/-- Exactly the well-formed jobs have a plan. -/
theorem Plan.exists_build_iff_wellFormed (job : Job) :
    (∃ plan, Plan.build job = .ok plan) ↔ job.WellFormed := by
  rw [exists_build_iff_layout, exists_collectEnums]
  constructor
  · rintro ⟨laid, _, enums⟩
    obtain ⟨nonempty, checked, ordered, fields, entries, grouping, rollup, ids, parts⟩ :=
      Layout.exists_ofJob.mp laid
    obtain ⟨apart, distinctIds, distinctSchemas⟩ := Layout.checkSources_eq_ok.mp checked
    have schemas := fun source member => (apart source member).1
    have names := Job.commonOf_names nonempty schemas entries
    obtain ⟨grouped, unmarked, leading⟩ := Layout.checkGroupBy_eq_ok.mp grouping
    rw [← Job.configuredEntries_eq] at ordered entries
    obtain ⟨distinctEntries, sortable⟩ := (Job.exists_entryFields nonempty schemas).mp ⟨fields, entries⟩
    constructor
    · exact nonempty
    · exact schemas
    · exact distinctIds
    · exact distinctSchemas
    · exact ordered
    · exact distinctEntries
    · exact sortable
    · exact grouped
    · exact unmarked
    · exact names ▸ leading
    · exact Layout.exists_rollupDepth.mp rollup
    · refine (Job.secondary_iff distinctIds).mp ⟨Layout.checkSecondaryIds_eq_ok.mp ids, ?_⟩
      intro source member
      have made := Layout.exists_specificParts.mp parts source member
      rw [Layout.exists_specificPart (schemas source member), names] at made
      exact made
    · rintro first second ⟨left, leftMember, leftField, leftInside, leftTyped⟩
        ⟨right, rightMember, rightField, rightInside, rightTyped⟩ same
      exact enums leftField (List.mem_flatMap.mpr ⟨left, leftMember, leftInside⟩) rightField
        (List.mem_flatMap.mpr ⟨right, rightMember, rightInside⟩) _ _ leftTyped rightTyped same
  · intro formed
    refine ⟨Job.exists_layout_of_wellFormed formed, ?_, ?_⟩
    · intro field _ type known _ found
      exact absurd (Dictionary.find?_eq_some.mp found) List.not_mem_nil
    · intro left leftInside right rightInside first second leftTyped rightTyped same
      obtain ⟨leftSource, leftMember, leftField⟩ := List.mem_flatMap.mp leftInside
      obtain ⟨rightSource, rightMember, rightField⟩ := List.mem_flatMap.mp rightInside
      exact formed.enums first second ⟨leftSource, leftMember, left, leftField, leftTyped⟩
        ⟨rightSource, rightMember, right, rightField, rightTyped⟩ same

end Cogrouping
