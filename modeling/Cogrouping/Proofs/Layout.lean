import Cogrouping.Layout
import Cogrouping.Proofs.Paired
import Cogrouping.Proofs.Schema

/-!
What the layout of a job establishes about its sources. Every entry of the common order stands for one
field that all sources declare alike, and every field of a source is common or specific to it.
-/

namespace Cogrouping

namespace SortEntry

/-- The field that an entry stands for in a schema: the one declared under its name, with the
comparator of the entry if it names one. -/
def fieldIn? (entry : SortEntry) (schema : Schema) : Option Field :=
  (schema.find? entry.name).map fun declared =>
    { declared with comparator := entry.comparator.orElse fun _ => declared.comparator }

theorem fieldIn?_eq_some {entry : SortEntry} {schema : Schema} {field : Field} :
    entry.fieldIn? schema = some field ↔
      ∃ declared, schema.find? entry.name = some declared ∧ field.name = entry.name ∧
        field.type = declared.type ∧
        field.comparator = entry.comparator.orElse fun _ => declared.comparator := by
  rw [fieldIn?, Option.map_eq_some_iff]
  constructor
  · rintro ⟨declared, found, rfl⟩
    have named := Schema.name_of_find? found
    exact ⟨declared, found, named, rfl, rfl⟩
  · rintro ⟨declared, found, named, typed, compared⟩
    refine ⟨declared, found, ?_⟩
    have sameName := (Schema.name_of_find? found).trans named.symm
    rw [sameName, ← typed, ← compared]

theorem unmarked_of_fieldIn? {entry : SortEntry} {schema : Schema} (valid : schema.Valid)
    {field : Field} (found : entry.fieldIn? schema = some field) : field.isSourceId = false := by
  obtain ⟨declared, known, named, _⟩ := fieldIn?_eq_some.mp found
  have sameName := named.trans (Schema.name_of_find? known).symm
  have unmarked := valid.unmarked (Schema.mem_of_find? known)
  rw [Field.isSourceId] at unmarked ⊢
  rw [sameName, unmarked]

end SortEntry

namespace Layout

def Orderable (field : Field) : Prop :=
  field.type.isOrderable = true ∨ field.comparator.isSome = true

theorem checkOrderable_eq_ok {field : Field} : checkOrderable field = .ok () ↔ Orderable field := by
  rw [checkOrderable, Orderable, ← Bool.or_eq_true]
  split
  · rename_i orderable
    simp [orderable]
  · rename_i unorderable
    simp [unorderable]

theorem checkAgreement_eq_ok {first : Field} {name : String} {comparator : Option String}
    {sources : List Source} :
    checkAgreement first name comparator sources = .ok () ↔
      ∀ source ∈ sources, ∃ field, source.schema.find? name = some field ∧ field.type = first.type ∧
        (comparator = none → field.comparator = first.comparator) := by
  induction sources with
  | nil => simp [checkAgreement]
  | cons source rest ih =>
      rw [checkAgreement, List.forall_mem_cons]
      cases found : source.schema.find? name with
      | none => simp
      | some field =>
          simp only [Option.some.injEq, exists_eq_left']
          by_cases typed : first.type = field.type
          · rw [if_neg (not_not_intro typed)]
            cases comparator with
            | some comparator => simp [ih, typed]
            | none =>
                by_cases compared : first.comparator = field.comparator
                · simp [ih, typed, compared]
                · have other : ¬field.comparator = first.comparator := fun same => compared same.symm
                  simp [compared, other]
          · have other : ¬field.type = first.type := fun same => typed same.symm
            simp [typed, other]

theorem commonField_eq_ok {sources : List Source} (nonempty : sources ≠ []) {name : String}
    {direction : Direction} {comparator : Option String} {field : Field} :
    commonField sources name comparator = .ok field ↔ Orderable field ∧ ∀ source ∈ sources,
      (SortEntry.field name direction comparator).fieldIn? source.schema = some field := by
  cases sources with
  | nil => exact absurd rfl nonempty
  | cons source rest =>
      rw [List.forall_mem_cons]
      cases first : source.schema.find? name with
      | none => simp [commonField, SortEntry.fieldIn?, SortEntry.name, first]
      | some declared =>
          simp only [commonField, first]
          constructor
          · intro found
            obtain ⟨_, agreed, found⟩ := bind_eq_ok.mp found
            obtain ⟨_, orderable, found⟩ := bind_eq_ok.mp found
            cases found
            refine ⟨checkOrderable_eq_ok.mp orderable, ?_, ?_⟩
            · exact SortEntry.fieldIn?_eq_some.mpr ⟨declared, first, rfl, rfl, rfl⟩
            · intro other member
              obtain ⟨field, otherFound, typed, compared⟩ := checkAgreement_eq_ok.mp agreed other member
              refine SortEntry.fieldIn?_eq_some.mpr ⟨field, otherFound, rfl, typed.symm, ?_⟩
              cases comparator with
              | some comparator => rfl
              | none => exact (compared rfl).symm
          · rintro ⟨orderable, here, everywhere⟩
            obtain ⟨_, known, named, typed, compared⟩ := SortEntry.fieldIn?_eq_some.mp here
            cases first.symm.trans known
            have agreed : checkAgreement declared name comparator rest = .ok () := by
              refine checkAgreement_eq_ok.mpr fun other member => ?_
              obtain ⟨field, otherFound, _, otherTyped, otherCompared⟩ :=
                SortEntry.fieldIn?_eq_some.mp (everywhere other member)
              refine ⟨field, otherFound, otherTyped.symm.trans typed, ?_⟩
              rintro rfl
              exact otherCompared.symm.trans compared
            have whole : ({ name, type := declared.type,
                            comparator := comparator.orElse fun _ => declared.comparator } : Field) =
                field := by
              obtain ⟨fieldName, fieldType, fieldComparator⟩ := field
              cases named
              cases typed
              cases compared
              rfl
            rw [agreed, ok_bind, whole, checkOrderable_eq_ok.mpr orderable]
            rfl

inductive CommonField (sources : List Source) : SortEntry → Field → Prop
  | sourceId (direction : Direction) : 2 ≤ sources.length →
      CommonField sources (.sourceId direction) .sourceId
  | field {name : String} {direction : Direction} {comparator : Option String} {field : Field} :
      Orderable field →
      (∀ source ∈ sources,
        (SortEntry.field name direction comparator).fieldIn? source.schema = some field) →
      CommonField sources (.field name direction comparator) field

variable {sources : List Source}

theorem entryField_eq_ok (nonempty : sources ≠ []) {entry : SortEntry} {field : Field} :
    entryField sources entry = .ok field ↔ CommonField sources entry field := by
  cases entry with
  | sourceId direction =>
      rw [entryField]
      constructor
      · intro found
        by_cases few : sources.length < 2
        · simp [few] at found
        · rw [if_neg few] at found
          cases found
          exact .sourceId direction (by omega)
      · intro stands
        cases stands with
        | sourceId _ several => rw [if_neg (by omega)]
  | field name direction comparator =>
      rw [entryField, commonField_eq_ok nonempty]
      constructor
      · rintro ⟨orderable, declared⟩
        exact .field orderable declared
      · intro stands
        cases stands with
        | field orderable declared => exact ⟨orderable, declared⟩

theorem entryFields_eq_ok (nonempty : sources ≠ []) {seen : List String} {entries : List SortEntry}
    {fields : List Field} :
    entryFields sources seen entries = .ok fields ↔
      List.Forall₂ (CommonField sources) entries fields ∧ (entries.map SortEntry.name).Nodup ∧
        ∀ entry ∈ entries, entry.name ∉ seen := by
  induction entries generalizing seen fields with
  | nil => simp [entryFields, eq_comm]
  | cons entry rest ih =>
      rw [entryFields, List.map_cons, List.nodup_cons, List.forall_mem_cons]
      by_cases repeated : entry.name ∈ seen
      · simp [repeated]
      simp only [List.contains_eq_mem, repeated, decide_false, Bool.false_eq_true, if_false,
        pure_eq_ok, not_false_eq_true, true_and]
      constructor
      · intro found
        obtain ⟨field, first, found⟩ := bind_eq_ok.mp found
        obtain ⟨others, later, found⟩ := bind_eq_ok.mp found
        cases found
        obtain ⟨stand, distinct, apart⟩ := ih.mp later
        refine ⟨.cons ((entryField_eq_ok nonempty).mp first) stand, ⟨?_, distinct⟩, ?_⟩
        · intro member
          obtain ⟨other, inside, same⟩ := List.mem_map.mp member
          exact apart other inside (same ▸ List.mem_cons_self)
        · exact fun other inside old => apart other inside (List.mem_cons_of_mem _ old)
      · rintro ⟨stand, ⟨fresh, distinct⟩, apart⟩
        obtain ⟨field, others, first, later, rfl⟩ := List.forall₂_cons_left_iff.mp stand
        have unseen : ∀ other ∈ rest, other.name ∉ entry.name :: seen := by
          intro other inside old
          rcases List.mem_cons.mp old with same | old
          · exact fresh (same ▸ List.mem_map_of_mem inside)
          · exact apart other inside old
        rw [(entryField_eq_ok nonempty).mpr first, ok_bind, ih.mpr ⟨later, distinct, unseen⟩]
        rfl

theorem checkSources_eq_ok {ids : List SourceId} {names : List String} :
    checkSources ids names sources = .ok () ↔
      (∀ source ∈ sources, source.schema.Valid ∧ source.id ∉ ids ∧ source.schema.name ∉ names) ∧
        (sources.map Source.id).Nodup ∧ (sources.map (·.schema.name)).Nodup := by
  induction sources generalizing ids names with
  | nil => simp [checkSources]
  | cons source rest ih =>
      rw [checkSources, List.forall_mem_cons, List.map_cons, List.map_cons, List.nodup_cons,
        List.nodup_cons]
      constructor
      · intro checked
        obtain ⟨_, valid, checked⟩ := bind_eq_ok.mp checked
        by_cases repeatedId : source.id ∈ ids
        · simp [repeatedId] at checked
        by_cases repeatedName : source.schema.name ∈ names
        · simp [repeatedId, repeatedName] at checked
        simp only [List.contains_eq_mem, repeatedId, repeatedName, decide_false, Bool.false_eq_true,
          if_false] at checked
        obtain ⟨apart, distinctIds, distinctNames⟩ := ih.mp checked
        refine ⟨⟨⟨Schema.validate_eq_ok.mp valid, repeatedId, repeatedName⟩, fun other inside => ?_⟩,
          ⟨fun member => ?_, distinctIds⟩, ⟨fun member => ?_, distinctNames⟩⟩
        · obtain ⟨otherValid, otherId, otherName⟩ := apart other inside
          exact ⟨otherValid, fun old => otherId (List.mem_cons_of_mem _ old),
            fun old => otherName (List.mem_cons_of_mem _ old)⟩
        · obtain ⟨other, inside, same⟩ := List.mem_map.mp member
          exact (apart other inside).2.1 (same ▸ List.mem_cons_self)
        · obtain ⟨other, inside, same⟩ := List.mem_map.mp member
          exact (apart other inside).2.2 (same ▸ List.mem_cons_self)
      · rintro ⟨⟨⟨valid, newId, newName⟩, apart⟩, ⟨freshId, distinctIds⟩, freshName, distinctNames⟩
        have unseen : ∀ other ∈ rest, other.schema.Valid ∧ other.id ∉ source.id :: ids ∧
            other.schema.name ∉ source.schema.name :: names := by
          intro other inside
          obtain ⟨otherValid, otherId, otherName⟩ := apart other inside
          refine ⟨otherValid, fun old => ?_, fun old => ?_⟩
          · rcases List.mem_cons.mp old with same | old
            · exact freshId (same ▸ List.mem_map_of_mem inside)
            · exact otherId old
          · rcases List.mem_cons.mp old with same | old
            · exact freshName (same ▸ List.mem_map_of_mem inside)
            · exact otherName old
        rw [Schema.validate_eq_ok.mpr valid, ok_bind]
        simpa [newId, newName] using ih.mpr ⟨unseen, distinctIds, distinctNames⟩

structure SecondaryField (schema common : Schema) (entry : SortEntry) (field : Field) : Prop where
  declared : entry.fieldIn? schema = some field
  orderable : Orderable field
  apart : field.name ∉ common.names

theorem secondaryField_eq_ok {schema common : Schema} (valid : schema.Valid) {before : List Field}
    {entry : SortEntry} {field : Field} :
    secondaryField schema common before entry = .ok field ↔
      SecondaryField schema common entry field ∧ field.name ∉ before.map Field.name := by
  cases entry with
  | sourceId direction =>
      constructor
      · intro found
        simp [secondaryField] at found
      · rintro ⟨stands, _⟩
        have unmarked := SortEntry.unmarked_of_fieldIn? valid stands.declared
        obtain ⟨_, _, named, _⟩ := SortEntry.fieldIn?_eq_some.mp stands.declared
        simp [Field.isSourceId, named, SortEntry.name] at unmarked
  | field name direction comparator =>
      have earlier : before.any (·.name == name) = true ↔ name ∈ before.map Field.name := by simp
      constructor
      · intro found
        rw [secondaryField] at found
        by_cases shared : common.contains name = true
        · simp [shared] at found
        by_cases repeated : before.any (·.name == name) = true
        · simp [shared, repeated] at found
        simp only [shared, repeated, Bool.false_eq_true, if_false] at found
        cases first : schema.find? name with
        | none => simp [first] at found
        | some declared =>
            simp only [first] at found
            obtain ⟨_, orderable, found⟩ := bind_eq_ok.mp found
            cases found
            have named := Schema.name_of_find? first
            refine ⟨⟨?_, checkOrderable_eq_ok.mp orderable, ?_⟩, ?_⟩
            · exact SortEntry.fieldIn?_eq_some.mpr ⟨declared, first, named, rfl, rfl⟩
            · rw [named, ← Schema.contains_eq_true]
              exact shared
            · rw [named, ← earlier]
              exact repeated
      · rintro ⟨⟨declaredIn, orderable, apart⟩, fresh⟩
        obtain ⟨declared, found, whole⟩ := Option.map_eq_some_iff.mp declaredIn
        obtain ⟨_, _, named, _⟩ := SortEntry.fieldIn?_eq_some.mp declaredIn
        rw [named] at apart fresh
        have shared : ¬common.contains name = true := Schema.contains_eq_true.not.mpr apart
        have repeated : ¬before.any (·.name == name) = true := earlier.not.mpr fresh
        have known : schema.find? name = some declared := found
        have stated : ({ declared with comparator := comparator.orElse fun _ => declared.comparator } :
            Field) = field := whole
        rw [secondaryField]
        simp only [shared, repeated, Bool.false_eq_true, if_false, known, stated]
        rw [checkOrderable_eq_ok.mpr orderable]
        rfl

theorem secondaryFields_eq_ok {schema common : Schema} (valid : schema.Valid)
    {before fields : List Field} {entries : List SortEntry} (distinct : (before.map Field.name).Nodup) :
    secondaryFields schema common before entries = .ok fields ↔
      (fields.map Field.name).Nodup ∧ ∃ added, fields = before ++ added ∧
        List.Forall₂ (SecondaryField schema common) entries added := by
  induction entries generalizing before with
  | nil =>
      rw [secondaryFields, Except.ok.injEq]
      constructor
      · rintro rfl
        exact ⟨distinct, [], (List.append_nil _).symm, .nil⟩
      · rintro ⟨_, added, rfl, stand⟩
        rw [List.forall₂_nil_left_iff.mp stand, List.append_nil]
  | cons entry rest ih =>
      have extended : ∀ field : Field, field.name ∉ before.map Field.name →
          ((before ++ [field]).map Field.name).Nodup := by
        intro field fresh
        rw [List.map_append, List.map_singleton]
        exact distinct.append (List.nodup_singleton _) (by simpa using fresh)
      constructor
      · intro found
        obtain ⟨field, first, found⟩ := bind_eq_ok.mp found
        obtain ⟨stands, fresh⟩ := (secondaryField_eq_ok valid).mp first
        obtain ⟨wholeDistinct, added, rfl, later⟩ := (ih (extended field fresh)).mp found
        exact ⟨wholeDistinct, field :: added, by simp, .cons stands later⟩
      · rintro ⟨wholeDistinct, added, rfl, stand⟩
        obtain ⟨field, added, stands, later, rfl⟩ := List.forall₂_cons_left_iff.mp stand
        have fresh : field.name ∉ before.map Field.name := by
          rw [List.map_append] at wholeDistinct
          intro member
          exact List.disjoint_of_nodup_append wholeDistinct member List.mem_cons_self
        rw [secondaryFields, (secondaryField_eq_ok valid).mpr ⟨stands, fresh⟩, ok_bind]
        exact (ih (extended field fresh)).mpr ⟨wholeDistinct, added, by simp, later⟩

structure SpecificPart.Sound (schema common : Schema) (order : SortOrder) (part : SpecificPart) :
    Prop where
  ordered : ∃ leading, part.schema.fields = leading ++ remainingFields schema common leading ∧
    List.Forall₂ (SecondaryField schema common) order.entries leading
  directions : part.directions = order.entries.map SortEntry.direction
  distinct : part.schema.names.Nodup
  declared : ∀ field ∈ part.schema.fields, ∃ declared ∈ schema.fields,
    declared.name = field.name ∧ declared.type = field.type
  covers : ∀ field ∈ schema.fields, field.name ∉ common.names → field.name ∈ part.schema.names

theorem specificPart_sound {schema common : Schema} {order : SortOrder} {part : SpecificPart}
    (valid : schema.Valid) (found : specificPart schema common order = .ok part) :
    SpecificPart.Sound schema common order part := by
  obtain ⟨leading, ordered, found⟩ := bind_eq_ok.mp found
  cases found
  obtain ⟨distinct, added, same, stand⟩ := (secondaryFields_eq_ok valid (by simp)).mp ordered
  rw [List.nil_append] at same
  subst same
  have rest : ∀ {field}, field ∈ remainingFields schema common leading ↔ field ∈ schema.fields ∧
      field.name ∉ common.names ∧ field.name ∉ leading.map Field.name := by
    intro field
    simp [remainingFields, ← Schema.contains_eq_true]
  constructor
  · exact ⟨leading, rfl, stand⟩
  · rfl
  · rw [Schema.names, List.map_append]
    refine distinct.append (valid.distinct.sublist (List.filter_sublist.map _)) ?_
    intro name ordered remaining
    obtain ⟨field, member, rfl⟩ := List.mem_map.mp remaining
    exact (rest.mp member).2.2 ordered
  · intro field member
    rcases List.mem_append.mp member with ordered | remaining
    · obtain ⟨entry, _, stands⟩ := stand.exists_left ordered
      obtain ⟨declared, found, named, typed, _⟩ := SortEntry.fieldIn?_eq_some.mp stands.declared
      exact ⟨declared, Schema.mem_of_find? found, (Schema.name_of_find? found).trans named.symm,
        typed.symm⟩
    · exact ⟨field, (rest.mp remaining).1, rfl, rfl⟩
  · intro field member specific
    rw [Schema.names, List.map_append, List.mem_append]
    by_cases ordered : field.name ∈ leading.map Field.name
    · exact .inl ordered
    · exact .inr (List.mem_map_of_mem (rest.mpr ⟨member, specific, ordered⟩))

theorem specificParts_eq_ok {job : Job} {common : Schema} {parts : List (SourceId × SpecificPart)} :
    specificParts job common sources = .ok parts ↔
      List.Forall₂ (fun source part => part.1 = source.id ∧ specificPart source.schema common
        ((job.secondaryOrderBy.find? source.id).getD .empty) = .ok part.2) sources parts := by
  induction sources generalizing parts with
  | nil =>
      rw [specificParts, Except.ok.injEq, List.forall₂_nil_left_iff]
      exact eq_comm
  | cons source rest ih =>
      rw [List.forall₂_cons_left_iff]
      constructor
      · intro found
        obtain ⟨part, first, found⟩ := bind_eq_ok.mp found
        obtain ⟨others, later, found⟩ := bind_eq_ok.mp found
        cases found
        exact ⟨(source.id, part), others, ⟨rfl, first⟩, ih.mp later, rfl⟩
      · rintro ⟨⟨id, part⟩, others, ⟨same, first⟩, later, rfl⟩
        cases same
        rw [specificParts, first, ok_bind, ih.mpr later]
        rfl

theorem specificParts_sound {job : Job} {common : Schema} {parts : List (SourceId × SpecificPart)}
    (valid : ∀ source ∈ sources, source.schema.Valid)
    (found : specificParts job common sources = .ok parts) :
    List.Forall₂ (fun source part => part.1 = source.id ∧ SpecificPart.Sound source.schema common
      ((job.secondaryOrderBy.find? source.id).getD .empty) part.2) sources parts := by
  refine ((List.forall₂_and_left _ _).mpr ⟨valid, specificParts_eq_ok.mp found⟩).imp ?_
  rintro source part ⟨valid, same, made⟩
  exact ⟨same, specificPart_sound valid made⟩

theorem checkGroupBy_eq_ok {groupBy : List String} {common : Schema} :
    checkGroupBy groupBy common = .ok () ↔
      groupBy ≠ [] ∧ sourceIdName ∉ groupBy ∧ groupBy <+: common.names := by
  rw [checkGroupBy, ← List.isPrefixOf_iff_prefix]
  by_cases empty : groupBy = []
  · simp [empty]
  by_cases marked : sourceIdName ∈ groupBy
  · simp [empty, marked]
  by_cases leading : groupBy.isPrefixOf common.names = true
  · simp [empty, marked, leading]
  · simp [empty, marked, leading]

theorem exists_rollupDepth {job : Job} :
    (∃ depth, rollupDepth job = .ok depth) ↔
      ∀ field, job.rollupFrom = some field → field ∈ job.groupBy := by
  cases shallowest : job.rollupFrom with
  | none => simp [rollupDepth, shallowest]
  | some field =>
      have found : (job.groupBy.findIdx? (· == field)).isSome = true ↔ field ∈ job.groupBy := by
        simp
      cases place : job.groupBy.findIdx? (· == field) with
      | none => simpa [rollupDepth, shallowest, place] using found
      | some first => simpa [rollupDepth, shallowest, place] using found

theorem rollupDepth_le {job : Job} {depth : Nat} (found : rollupDepth job = .ok depth) :
    depth ≤ job.groupBy.length - 1 := by
  rw [rollupDepth] at found
  cases shallowest : job.rollupFrom with
  | none =>
      simp only [shallowest, Except.ok.injEq] at found
      omega
  | some field =>
      cases place : job.groupBy.findIdx? (· == field) with
      | none => simp [shallowest, place] at found
      | some first =>
          simp only [shallowest, place, Except.ok.injEq] at found
          obtain ⟨inside, _⟩ := List.findIdx?_eq_some_iff_getElem.mp place
          omega

theorem checkSecondaryIds_eq_ok {job : Job} {ids : List SourceId} :
    checkSecondaryIds job ids = .ok () ↔ ∀ id ∈ ids, ∃ source ∈ job.sources, source.id = id := by
  induction ids with
  | nil => simp [checkSecondaryIds]
  | cons id rest ih =>
      have found : (job.source? id).isSome = true ↔ ∃ source ∈ job.sources, source.id = id := by
        simp [Job.source?]
      rw [checkSecondaryIds, List.forall_mem_cons, ← found]
      cases known : (job.source? id).isSome <;> simp [ih]

def appendsSourceId (job : Job) : Bool :=
  2 ≤ job.sources.length && !(effectiveOrder job).hasSourceId

def commonEntries (job : Job) : List SortEntry :=
  (effectiveOrder job).entries ++ if appendsSourceId job then [.sourceId .ascending] else []

structure SoundSources (sources : List Source) : Prop where
  nonempty : sources ≠ []
  valid : ∀ source ∈ sources, source.schema.Valid
  distinctIds : (sources.map Source.id).Nodup
  distinctSchemas : (sources.map (·.schema.name)).Nodup

structure SoundCommon (job : Job) (common : Schema) (minDepth maxDepth : Nat) : Prop where
  stand : List.Forall₂ (CommonField job.sources) (commonEntries job) common.fields
  distinct : ((commonEntries job).map SortEntry.name).Nodup
  unmarked : sourceIdName ∉ job.groupBy
  leading : job.groupBy <+: common.names
  shallowest : minDepth ≤ maxDepth
  deepest : maxDepth + 1 = job.groupBy.length

structure Sound (job : Job) (layout : Layout) : Prop where
  sources : SoundSources job.sources
  common : SoundCommon job layout.common layout.minDepth layout.maxDepth
  directions : layout.directions = (commonEntries job).map SortEntry.direction
  groupBy : layout.groupBy = job.groupBy
  specific : List.Forall₂ (fun source part => part.1 = source.id ∧
    SpecificPart.Sound source.schema layout.common
      ((job.secondaryOrderBy.find? source.id).getD .empty) part.2) job.sources layout.specific

theorem appended_sound {job : Job} (nonempty : job.sources ≠ [])
    (valid : ∀ source ∈ job.sources, source.schema.Valid) {fields : List Field}
    (stand : List.Forall₂ (CommonField job.sources) (effectiveOrder job).entries fields)
    (distinct : ((effectiveOrder job).entries.map SortEntry.name).Nodup) :
    List.Forall₂ (CommonField job.sources) (commonEntries job)
        (fields ++ if appendsSourceId job then [.sourceId] else []) ∧
      ((commonEntries job).map SortEntry.name).Nodup := by
  rw [commonEntries]
  by_cases appends : appendsSourceId job = true
  · have several : 2 ≤ job.sources.length ∧ (effectiveOrder job).hasSourceId = false := by
      simpa [appendsSourceId] using appends
    rw [if_pos appends, if_pos appends]
    constructor
    · exact List.rel_append stand (.cons (.sourceId _ several.1) .nil)
    · rw [List.map_append]
      refine distinct.append (List.nodup_singleton _) ?_
      intro name member marker
      obtain ⟨entry, inside, rfl⟩ := List.mem_map.mp member
      obtain ⟨field, _, stands⟩ := stand.exists_right inside
      cases stands with
      | sourceId direction =>
          have marked := List.any_eq_false.mp several.2 _ inside
          exact marked rfl
      | field orderable declared =>
          obtain ⟨source, known⟩ := List.exists_mem_of_ne_nil _ nonempty
          have unmarked := SortEntry.unmarked_of_fieldIn? (valid source known) (declared source known)
          obtain ⟨_, _, named, _⟩ := SortEntry.fieldIn?_eq_some.mp (declared source known)
          rw [Field.isSourceId, named, List.mem_singleton.mp marker] at unmarked
          simp [SortEntry.name] at unmarked
  · rw [if_neg appends, if_neg appends, List.append_nil, List.append_nil]
    exact ⟨stand, distinct⟩

def commonOf (job : Job) (fields : List Field) : Schema :=
  { name := commonName, fields := fields ++ if appendsSourceId job then [.sourceId] else [] }

structure Steps (job : Job) (fields : List Field) (minDepth : Nat)
    (parts : List (SourceId × SpecificPart)) : Prop where
  nonempty : job.sources ≠ []
  checked : checkSources [] [] job.sources = .ok ()
  ordered : (effectiveOrder job).entries ≠ []
  entries : entryFields job.sources [] (effectiveOrder job).entries = .ok fields
  grouped : checkGroupBy job.groupBy (commonOf job fields) = .ok ()
  shallowest : rollupDepth job = .ok minDepth
  secondary : checkSecondaryIds job job.secondaryOrderBy.keys = .ok ()
  specific : specificParts job (commonOf job fields) job.sources = .ok parts

def assembled (job : Job) (fields : List Field) (minDepth : Nat)
    (parts : List (SourceId × SpecificPart)) : Layout where
  common := commonOf job fields
  directions := (effectiveOrder job).entries.map SortEntry.direction ++
    if appendsSourceId job then [Direction.ascending] else []
  specific := parts
  groupBy := job.groupBy
  minDepth
  maxDepth := job.groupBy.length - 1

theorem ofJob_eq_ok {job : Job} {layout : Layout} : ofJob job = .ok layout ↔
    ∃ fields minDepth parts, Steps job fields minDepth parts ∧
      layout = assembled job fields minDepth parts := by
  constructor
  · intro found
    rw [ofJob] at found
    by_cases empty : job.sources.isEmpty = true
    · simp [empty] at found
    simp only [empty, Bool.false_eq_true, if_false, pure_eq_ok] at found
    obtain ⟨_, checked, found⟩ := bind_eq_ok.mp found
    by_cases unordered : (effectiveOrder job).isEmpty = true
    · simp [unordered] at found
    simp only [unordered, Bool.false_eq_true, if_false] at found
    obtain ⟨fields, entries, found⟩ := bind_eq_ok.mp found
    obtain ⟨_, grouped, found⟩ := bind_eq_ok.mp found
    obtain ⟨minDepth, shallowest, found⟩ := bind_eq_ok.mp found
    obtain ⟨_, secondary, found⟩ := bind_eq_ok.mp found
    obtain ⟨parts, specific, found⟩ := bind_eq_ok.mp found
    cases found
    refine ⟨fields, minDepth, parts, ?_, rfl⟩
    constructor
    · simpa using empty
    · exact checked
    · simpa [SortOrder.isEmpty] using unordered
    · exact entries
    · exact grouped
    · exact shallowest
    · exact secondary
    · exact specific
  · rintro ⟨fields, minDepth, parts, steps, rfl⟩
    have some : ¬job.sources.isEmpty = true := by simpa using steps.nonempty
    have orders : ¬(effectiveOrder job).isEmpty = true := by
      simpa [SortOrder.isEmpty] using steps.ordered
    have laid : ofJob job =
        (checkGroupBy job.groupBy (commonOf job fields) >>= fun _ => rollupDepth job >>= fun minDepth =>
          checkSecondaryIds job job.secondaryOrderBy.keys >>= fun _ =>
          specificParts job (commonOf job fields) job.sources >>= fun parts =>
          .ok (assembled job fields minDepth parts)) := by
      rw [ofJob]
      simp only [some, Bool.false_eq_true, if_false, pure_eq_ok, ok_bind, steps.checked, orders,
        steps.entries]
      rfl
    rw [laid, steps.grouped, ok_bind, steps.shallowest, ok_bind, steps.secondary, ok_bind,
      steps.specific, ok_bind]

theorem ofJob_sound {job : Job} {layout : Layout} (found : ofJob job = .ok layout) :
    Sound job layout := by
  obtain ⟨fields, minDepth, parts, steps, rfl⟩ := ofJob_eq_ok.mp found
  obtain ⟨apart, distinctIds, distinctSchemas⟩ := checkSources_eq_ok.mp steps.checked
  have nonempty := steps.nonempty
  have valid := fun source member => (apart source member).1
  obtain ⟨stand, distinctEntries, _⟩ := (entryFields_eq_ok nonempty).mp steps.entries
  obtain ⟨common, distinct⟩ := appended_sound nonempty valid stand distinctEntries
  obtain ⟨grouped, unmarked, leading⟩ := checkGroupBy_eq_ok.mp steps.grouped
  have directions : (commonEntries job).map SortEntry.direction =
      (effectiveOrder job).entries.map SortEntry.direction ++
        if appendsSourceId job then [Direction.ascending] else [] := by
    rw [commonEntries, List.map_append, apply_ite (List.map SortEntry.direction)]
    rfl
  have deepest : job.groupBy.length - 1 + 1 = job.groupBy.length :=
    Nat.sub_add_cancel (List.length_pos_of_ne_nil grouped)
  exact {
    sources := { nonempty, valid, distinctIds, distinctSchemas }
    common := { stand := common, distinct, unmarked, leading,
                shallowest := rollupDepth_le steps.shallowest, deepest }
    directions := directions.symm
    groupBy := rfl
    specific := specificParts_sound valid steps.specific }

end Layout

end Cogrouping
