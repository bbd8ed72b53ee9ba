import Cogrouping.Plan
import Cogrouping.Proofs.Dictionary
import Cogrouping.Proofs.Layout

/-!
What a plan establishes about its job. Every source is planned with slots that feed the common fields
from fields of the same name and type, and the slots together reach every field of the source.
-/

namespace Cogrouping

/-- A slot takes the value of a field from tuples of a schema. -/
inductive Slot.Feeds (schema : Schema) (field : Field) : Slot → Prop
  | sourceId : field.isSourceId = true → Feeds schema field .sourceId
  | field {position : Nat} {declared : Field} : field.isSourceId = false →
      schema.fields[position]? = some declared → declared.name = field.name →
      declared.type = field.type → Feeds schema field (.field position)

namespace SourcePlan

structure Sound (common : Schema) (order : SortOrder) (declared : Source) (source : SourcePlan) :
    Prop where
  id : source.id = declared.id
  schema : source.schema = declared.schema
  feedsCommon : List.Forall₂ (Slot.Feeds source.schema) common.fields source.commonSlots
  feedsSpecific : List.Forall₂ (Slot.Feeds source.schema) source.specific.fields
    (source.specificPositions.map .field)
  covers : ∀ position < source.schema.size,
    .field position ∈ source.commonSlots ++ source.specificPositions.map .field
  distinct : source.specific.names.Nodup
  secondary : ∃ leading, source.specific.fields =
      leading ++ Layout.remainingFields source.schema common leading ∧
    List.Forall₂ (Layout.SecondaryField source.schema common) order.entries leading ∧
    source.secondaryCriteria = Criterion.ofFields 0 leading (order.entries.map SortEntry.direction)

end SourcePlan

theorem Criterion.ofFields_append {position : Nat} {leading rest : List Field}
    {directions : List Direction} (long : directions.length ≤ leading.length) :
    Criterion.ofFields position (leading ++ rest) directions =
      Criterion.ofFields position leading directions := by
  induction leading generalizing position directions with
  | nil =>
      have none : directions = [] := List.eq_nil_of_length_eq_zero (by simpa using long)
      subst none
      cases rest <;> rfl
  | cons field leading ih =>
      cases directions with
      | nil => rfl
      | cons direction directions =>
          rw [List.cons_append, ofFields, ofFields, ih (by simpa using long)]

namespace Plan

theorem locate_sound {schema : Schema} {name : String} {position : Nat}
    (found : locate schema name = .ok position) : schema.indexOf? name = some position := by
  rw [locate] at found
  cases place : schema.indexOf? name with
  | none => simp [place] at found
  | some first =>
      simp only [place, Except.ok.injEq] at found
      rw [found]

theorem feeds_of_locate {schema : Schema} {field declared : Field} {position : Nat}
    (valid : schema.Valid) (known : schema.find? field.name = some declared)
    (typed : declared.type = field.type) (found : locate schema field.name = .ok position) :
    Slot.Feeds schema field (.field position) := by
  have named := Schema.name_of_find? known
  have place := locate_sound found
  have atPosition : schema.fields[position]? = some declared := by
    rw [Schema.find?_eq_getElem?, place] at known
    exact known
  have unmarked := valid.unmarked (Schema.mem_of_find? known)
  rw [Field.isSourceId, named] at unmarked
  exact .field unmarked atPosition named typed

theorem commonSlot_sound {sources : List Source} {source : Source} {entry : SortEntry} {field : Field}
    {slot : Slot} (member : source ∈ sources) (valid : source.schema.Valid)
    (stands : Layout.CommonField sources entry field)
    (found : commonSlot source.schema field = .ok slot) : Slot.Feeds source.schema field slot := by
  cases stands with
  | sourceId direction several =>
      cases found
      exact .sourceId rfl
  | field orderable declared =>
      obtain ⟨original, known, named, typed, _⟩ := SortEntry.fieldIn?_eq_some.mp (declared source member)
      rw [← named] at known
      have unmarked := SortEntry.unmarked_of_fieldIn? valid (declared source member)
      simp only [commonSlot, unmarked, Bool.false_eq_true, if_false] at found
      cases located : locate source.schema field.name with
      | error cause => simp [located, Except.map] at found
      | ok position =>
          simp only [located, Except.map, Except.ok.injEq] at found
          exact found ▸ feeds_of_locate valid known typed.symm located

theorem slots_cover {schema common specific : Schema} {commonSlots specificSlots : List Slot}
    (valid : schema.Valid)
    (covers : ∀ field ∈ schema.fields, field.name ∉ common.names → field.name ∈ specific.names)
    (feedsCommon : List.Forall₂ (Slot.Feeds schema) common.fields commonSlots)
    (feedsSpecific : List.Forall₂ (Slot.Feeds schema) specific.fields specificSlots) :
    ∀ position < schema.size, .field position ∈ commonSlots ++ specificSlots := by
  intro position inside
  have reaches : ∀ {fields : List Field} {slots : List Slot},
      List.Forall₂ (Slot.Feeds schema) fields slots →
      schema.fields[position].name ∈ fields.map Field.name → Slot.field position ∈ slots := by
    intro fields slots feeds named
    obtain ⟨field, member, same⟩ := List.mem_map.mp named
    obtain ⟨slot, slotMember, fed⟩ := feeds.exists_right member
    cases fed with
    | sourceId marked =>
        have reserved : schema.fields[position].name = sourceIdName := by
          rw [← same]
          simpa [Field.isSourceId] using marked
        exact absurd (reserved ▸ List.mem_map_of_mem (List.getElem_mem inside)) valid.unreserved
    | @field other declared _ found sameName _ =>
        have sameNames : schema.names[position]? = schema.names[other]? := by
          rw [Schema.names, List.getElem?_map, List.getElem?_map, found,
            List.getElem?_eq_getElem inside, Option.map_some, Option.map_some, sameName, same]
        have within : position < schema.names.length := by
          rw [Schema.names, List.length_map]
          exact inside
        exact (List.getElem?_inj within valid.distinct).mp sameNames ▸ slotMember
  rw [List.mem_append]
  by_cases shared : schema.fields[position].name ∈ common.names
  · exact .inl (reaches feedsCommon shared)
  · exact .inr (reaches feedsSpecific (covers _ (List.getElem_mem inside) shared))

theorem specific_of_lookup {job : Job} {layout : Layout} (sound : layout.Sound job) {source : Source}
    (member : source ∈ job.sources) {part : SpecificPart}
    (looked : layout.specific.lookup source.id = some part) :
    Layout.SpecificPart.Sound source.schema layout.common
      ((job.secondaryOrderBy.find? source.id).getD .empty) part := by
  obtain ⟨before, after, split, _⟩ := List.lookup_eq_some_iff.mp looked
  have inside : (source.id, part) ∈ layout.specific := by simp [split]
  obtain ⟨other, otherMember, same, holds⟩ := sound.specific.exists_left inside
  have distinct := sound.sources.distinctIds
  exact List.inj_on_of_nodup_map distinct otherMember member same.symm ▸ holds

theorem sourcePlan_sound {job : Job} {layout : Layout} {declared : Source} {source : SourcePlan}
    (sound : layout.Sound job) (member : declared ∈ job.sources)
    (found : sourcePlan layout declared = .ok source) :
    SourcePlan.Sound layout.common ((job.secondaryOrderBy.find? declared.id).getD .empty) declared
      source := by
  have valid := sound.sources.valid declared member
  rw [sourcePlan] at found
  cases looked : layout.specific.lookup declared.id with
  | none => simp [looked] at found
  | some part =>
      simp only [looked] at found
      obtain ⟨commonSlots, slots, found⟩ := bind_eq_ok.mp found
      obtain ⟨specificPositions, positions, found⟩ := bind_eq_ok.mp found
      cases found
      have specific := specific_of_lookup sound member looked
      have feedsCommon : List.Forall₂ (Slot.Feeds declared.schema) layout.common.fields commonSlots := by
        have standing : ∀ field ∈ layout.common.fields,
            ∃ entry, Layout.CommonField job.sources entry field := fun field inside =>
          (sound.common.stand.exists_left inside).imp fun _ stands => stands.2
        refine ((List.forall₂_and_left _ _).mpr ⟨standing, mapM_eq_ok.mp slots⟩).imp ?_
        rintro field slot ⟨⟨entry, stands⟩, done⟩
        exact commonSlot_sound member valid stands done
      have feedsSpecific : List.Forall₂ (Slot.Feeds declared.schema) part.schema.fields
          (specificPositions.map .field) := by
        rw [List.forall₂_map_right_iff]
        refine ((List.forall₂_and_left _ _).mpr ⟨specific.declared, mapM_eq_ok.mp positions⟩).imp ?_
        rintro field position ⟨⟨original, inside, named, typed⟩, done⟩
        have known := Schema.find?_of_mem valid.distinct inside
        rw [named] at known
        exact feeds_of_locate valid known typed done
      obtain ⟨leading, same, stand⟩ := specific.ordered
      have directions := specific.directions
      exact {
        id := rfl
        schema := rfl
        feedsCommon, feedsSpecific
        covers := slots_cover valid specific.covers feedsCommon feedsSpecific
        distinct := specific.distinct
        secondary := by
          refine ⟨leading, same, stand, ?_⟩
          rw [same, directions]
          exact Criterion.ofFields_append (by simp [stand.length_eq]) }

theorem collectEnums_sound {fields : List Field} {before after : Dictionary String EnumType}
    (found : collectEnums fields before = .ok after) :
    (∀ name type, before.find? name = some type → after.find? name = some type) ∧
      ∀ field ∈ fields, ∀ type, field.type = .enumeration type →
        after.find? type.name = some type := by
  induction fields generalizing before with
  | nil =>
      cases found
      exact ⟨fun _ _ old => old, by simp⟩
  | cons field rest ih =>
      rw [collectEnums] at found
      rw [List.forall_mem_cons]
      cases typed : field.type with
      | enumeration type =>
          simp only [typed] at found
          cases known : before.find? type.name with
          | some other =>
              simp only [known] at found
              by_cases same : other = type
              · rw [if_pos same] at found
                obtain ⟨keeps, finds⟩ := ih found
                refine ⟨keeps, fun later equal => ?_, finds⟩
                cases equal
                exact keeps _ _ (same ▸ known)
              · simp [same] at found
          | none =>
              simp only [known] at found
              obtain ⟨keeps, finds⟩ := ih found
              refine ⟨fun name old held => keeps _ _ ?_, fun later equal => ?_, finds⟩
              · refine (Dictionary.find?_insert_of_ne ?_).mpr held
                intro same
                rw [same, known] at held
                simp at held
              · cases equal
                exact keeps _ _ (Dictionary.find?_insert_self before type.name type)
      | _ =>
          simp only [typed] at found
          obtain ⟨keeps, finds⟩ := ih found
          exact ⟨keeps, by simp, finds⟩

theorem collectEnums_only {fields : List Field} {before after : Dictionary String EnumType}
    (found : collectEnums fields before = .ok after) {name : String} {type : EnumType}
    (held : after.find? name = some type) :
    before.find? name = some type ∨
      ∃ field ∈ fields, field.type = .enumeration type ∧ type.name = name := by
  induction fields generalizing before with
  | nil =>
      cases found
      exact .inl held
  | cons field rest ih =>
      have later : ∀ {between}, collectEnums rest between = .ok after →
          between.find? name = some type ∨
            ∃ other ∈ field :: rest, other.type = .enumeration type ∧ type.name = name := by
        intro between found
        refine (ih found).imp_right ?_
        rintro ⟨other, inside, facts⟩
        exact ⟨other, List.mem_cons_of_mem _ inside, facts⟩
      rw [collectEnums] at found
      cases typed : field.type with
      | enumeration declared =>
          simp only [typed] at found
          cases known : before.find? declared.name with
          | some other =>
              simp only [known] at found
              by_cases same : other = declared
              · rw [if_pos same] at found
                exact later found
              · simp [same] at found
          | none =>
              simp only [known] at found
              rcases later found with inserted | declaredLater
              · by_cases same : name = declared.name
                · rw [same, Dictionary.find?_insert_self] at inserted
                  cases inserted
                  exact .inr ⟨field, List.mem_cons_self, typed, same.symm⟩
                · exact .inl ((Dictionary.find?_insert_of_ne same).mp inserted)
              · exact .inr declaredLater
      | _ =>
          simp only [typed] at found
          exact later found

theorem collectEnums_find? {fields : List Field} {types : Dictionary String EnumType}
    (found : collectEnums fields ∅ = .ok types) {name : String} {type : EnumType} :
    types.find? name = some type ↔
      ∃ field ∈ fields, field.type = .enumeration type ∧ type.name = name := by
  constructor
  · intro held
    rcases collectEnums_only found held with old | declared
    · exact absurd (Dictionary.find?_eq_some.mp old) List.not_mem_nil
    · exact declared
  · rintro ⟨field, member, typed, rfl⟩
    exact (collectEnums_sound found).2 field member type typed

def secondaryOrder (job : Job) (id : SourceId) : SortOrder :=
  (job.secondaryOrderBy.find? id).getD .empty

structure Sound (plan : Plan) : Prop where
  declared : Layout.SoundSources plan.job.sources
  common : Layout.SoundCommon plan.job plan.common plan.minDepth plan.maxDepth
  criteria : plan.commonCriteria = Criterion.ofFields 0 plan.common.fields
    ((Layout.commonEntries plan.job).map SortEntry.direction)
  groupBy : plan.groupBy = plan.job.groupBy
  sourceIdPosition : plan.sourceIdPosition? = plan.common.indexOf? sourceIdName
  sources : ∃ planned, List.Forall₂
    (fun declared => SourcePlan.Sound plan.common (secondaryOrder plan.job declared.id) declared)
    plan.job.sources planned ∧
    plan.sources = .ofList (planned.map fun source => (source.id, source))
  enums : ∀ source ∈ plan.job.sources, ∀ field ∈ source.schema.fields, ∀ type,
    field.type = .enumeration type → plan.enumTypes.find? type.name = some type

theorem build_sound {job : Job} {plan : Plan} (built : build job = .ok plan) :
    plan.Sound ∧ plan.job = job := by
  obtain ⟨layout, laid, built⟩ := bind_eq_ok.mp built
  obtain ⟨enumTypes, collected, built⟩ := bind_eq_ok.mp built
  obtain ⟨planned, sources, built⟩ := bind_eq_ok.mp built
  cases built
  have sound := Layout.ofJob_sound laid
  refine ⟨?_, rfl⟩
  constructor
  · exact sound.sources
  · exact sound.common
  · exact congrArg (Criterion.ofFields 0 layout.common.fields) sound.directions
  · exact sound.groupBy
  · rfl
  · refine ⟨planned, ?_, rfl⟩
    have members := (List.forall₂_and_left _ _).mpr ⟨fun _ member => member, mapM_eq_ok.mp sources⟩
    exact members.imp fun declared source facts => sourcePlan_sound sound facts.1 facts.2
  · intro source member field inside type typed
    refine (collectEnums_sound collected).2 field ?_ type typed
    exact List.mem_flatMap.mpr ⟨source, member, inside⟩

namespace Sound

variable {plan : Plan}

theorem planned_ids (sound : plan.Sound) {planned : List SourcePlan} (stand : List.Forall₂
    (fun declared => SourcePlan.Sound plan.common (secondaryOrder plan.job declared.id) declared)
    plan.job.sources planned) : (planned.map SourcePlan.id).Nodup := by
  have ids : planned.map SourcePlan.id = plan.job.sources.map Source.id := by
    rw [← List.forall₂_eq_eq_eq, List.forall₂_map_left_iff, List.forall₂_map_right_iff]
    exact (stand.imp fun _ _ each => each.id).flip
  exact ids ▸ sound.declared.distinctIds

theorem mem_values (sound : plan.Sound) : ∃ planned, List.Forall₂
    (fun declared => SourcePlan.Sound plan.common (secondaryOrder plan.job declared.id) declared)
    plan.job.sources planned ∧ plan.sources.values.Perm planned ∧
      ∀ source ∈ planned, plan.source? source.id = some source := by
  obtain ⟨planned, stand, same⟩ := sound.sources
  have distinct : ((planned.map fun source => (source.id, source)).map Prod.fst).Nodup := by
    rw [List.map_map]
    exact sound.planned_ids stand
  refine ⟨planned, stand, ?_, fun source member => ?_⟩
  · rw [same, Dictionary.values]
    have entries := (Dictionary.ofList_perm distinct).map Prod.snd
    rw [List.map_map] at entries
    exact entries.trans (.of_eq (List.map_id planned))
  · rw [source?, same, Dictionary.find?_ofList distinct]
    exact List.mem_map_of_mem member

end Sound

/-- A source of a plan, and the declaration it was planned from. -/
structure Planned (plan : Plan) (declared : Source) (source : SourcePlan) : Prop where
  inJob : declared ∈ plan.job.sources
  sound : SourcePlan.Sound plan.common (secondaryOrder plan.job declared.id) declared source
  inPlan : source ∈ plan.sources.values
  found : plan.source? source.id = some source

namespace Sound

variable {plan : Plan}

theorem exists_planned (sound : plan.Sound) {declared : Source} (member : declared ∈ plan.job.sources) :
    ∃ source, plan.Planned declared source := by
  obtain ⟨planned, stand, values, found⟩ := sound.mem_values
  obtain ⟨source, inside, each⟩ := stand.exists_right member
  exact ⟨source, member, each, values.mem_iff.mpr inside, found source inside⟩

theorem exists_declared (sound : plan.Sound) {source : SourcePlan}
    (member : source ∈ plan.sources.values) : ∃ declared, plan.Planned declared source := by
  obtain ⟨planned, stand, values, found⟩ := sound.mem_values
  have inside := values.mem_iff.mp member
  obtain ⟨declared, declaredInside, each⟩ := stand.exists_left inside
  exact ⟨declared, declaredInside, each, member, found source inside⟩

theorem distinct_ids (sound : plan.Sound) : (plan.sources.values.map SourcePlan.id).Nodup := by
  obtain ⟨planned, stand, values, _⟩ := sound.mem_values
  exact (values.map SourcePlan.id).nodup_iff.mpr (sound.planned_ids stand)

theorem isMultiSource_eq (sound : plan.Sound) :
    plan.isMultiSource = decide (2 ≤ plan.job.sources.length) := by
  obtain ⟨planned, stand, values, _⟩ := sound.mem_values
  have sameLength := values.length_eq.trans stand.length_eq.symm
  rw [Dictionary.values, List.length_map] at sameLength
  rw [isMultiSource, sameLength]

theorem marked_iff (sound : plan.Sound) :
    sourceIdName ∈ plan.common.names ↔ 2 ≤ plan.job.sources.length := by
  have stand := sound.common.stand
  constructor
  · intro marked
    obtain ⟨field, inside, named⟩ := List.mem_map.mp marked
    obtain ⟨entry, _, stands⟩ := stand.exists_left inside
    cases stands with
    | sourceId direction several => exact several
    | field orderable declared =>
        obtain ⟨source, member⟩ := List.exists_mem_of_ne_nil _ sound.declared.nonempty
        have unmarked := SortEntry.unmarked_of_fieldIn? (sound.declared.valid source member)
          (declared source member)
        simp [Field.isSourceId, named] at unmarked
  · intro several
    have marker : ∃ direction, SortEntry.sourceId direction ∈ Layout.commonEntries plan.job := by
      rw [Layout.commonEntries]
      by_cases placed : (Layout.effectiveOrder plan.job).hasSourceId = true
      · obtain ⟨entry, inside, marks⟩ := List.any_eq_true.mp placed
        cases entry with
        | field name direction comparator => simp [SortEntry.isSourceId] at marks
        | sourceId direction => exact ⟨direction, List.mem_append_left _ inside⟩
      · have appends : Layout.appendsSourceId plan.job = true := by
          simp [Layout.appendsSourceId, several, placed]
        exact ⟨.ascending, by simp [appends]⟩
    obtain ⟨direction, inside⟩ := marker
    obtain ⟨field, member, stands⟩ := stand.exists_right inside
    cases stands with
    | sourceId => exact List.mem_map_of_mem member

end Sound

namespace Planned

variable {plan : Plan} {declared other : Source} {source otherSource : SourcePlan}

theorem eq_of_id (planned : plan.Planned declared source) (otherPlanned : plan.Planned other otherSource)
    (same : source.id = otherSource.id) : source = otherSource := by
  have found := planned.found
  rw [same, otherPlanned.found] at found
  exact (Option.some.inj found).symm

theorem eq_of_name (sound : plan.Sound) (planned : plan.Planned declared source)
    (otherPlanned : plan.Planned other otherSource)
    (same : declared.schema.name = other.schema.name) : source = otherSource := by
  have declaredSame := List.inj_on_of_nodup_map sound.declared.distinctSchemas planned.inJob
    otherPlanned.inJob same
  refine planned.eq_of_id otherPlanned ?_
  rw [planned.sound.id, otherPlanned.sound.id, declaredSame]

theorem head?_of_single (sound : plan.Sound) (planned : plan.Planned declared source)
    (single : ¬2 ≤ plan.job.sources.length) : plan.sources.values.head? = some source := by
  obtain ⟨others, stand, values, _⟩ := sound.mem_values
  have sameLength := values.length_eq.trans stand.length_eq.symm
  cases all : plan.sources.values with
  | nil =>
      have member := planned.inPlan
      rw [all] at member
      exact absurd member List.not_mem_nil
  | cons first rest =>
      rw [all, List.length_cons] at sameLength
      have none : rest = [] := List.eq_nil_of_length_eq_zero (by omega)
      have member := planned.inPlan
      rw [all, none, List.mem_singleton] at member
      rw [member, List.head?_cons]

theorem valid (sound : plan.Sound) (planned : plan.Planned declared source) : source.schema.Valid := by
  rw [planned.sound.schema]
  exact sound.declared.valid declared planned.inJob

end Planned

theorem sourceNamed_eq_ok {plan : Plan} (sound : plan.Sound) {name : String} {source : SourcePlan} :
    plan.sourceNamed name = .ok source ↔
      ∃ declared, plan.Planned declared source ∧ declared.schema.name = name := by
  rw [sourceNamed]
  cases found : plan.sources.values.find? (·.schema.name == name) with
  | none =>
      simp only [reduceCtorEq, false_iff]
      rintro ⟨declared, planned, named⟩
      have absent := List.find?_eq_none.mp found source planned.inPlan
      rw [planned.sound.schema, named] at absent
      simp at absent
  | some first =>
      obtain ⟨declared, planned⟩ := sound.exists_declared (List.mem_of_find?_eq_some found)
      have named : declared.schema.name = name := by
        rw [← planned.sound.schema]
        simpa using List.find?_some found
      constructor
      · intro same
        cases same
        exact ⟨declared, planned, named⟩
      · rintro ⟨other, otherPlanned, otherNamed⟩
        exact congrArg Except.ok (planned.eq_of_name sound otherPlanned (named.trans otherNamed.symm))

end Plan

end Cogrouping
