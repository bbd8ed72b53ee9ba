import Cogrouping.Proofs.Plan.Split
import Cogrouping.Proofs.Wire.Record
import Mathlib.Data.List.Perm.Basic

/-!
Writing checks every value. A tuple of a known source with a value for each field is written exactly if
every value can stand in its field, and of the values that cannot, the first one in the order of records
says why.
-/

namespace Cogrouping

theorem first_filterMap_iff {α β : Type} {view : α → Option β} {items : List α} {good bad : α → Prop}
    {shownGood shownBad : β → Prop}
    (goods : ∀ item ∈ items, (good item ↔ ∀ shown ∈ view item, shownGood shown))
    (bads : ∀ item ∈ items, (bad item ↔ ∃ shown ∈ view item, shownBad shown)) :
    (∃ before item behind, items = before ++ item :: behind ∧ (∀ earlier ∈ before, good earlier) ∧
      bad item) ↔
    ∃ before shown behind, items.filterMap view = before ++ shown :: behind ∧
      (∀ earlier ∈ before, shownGood earlier) ∧ shownBad shown := by
  constructor
  · rintro ⟨before, item, behind, rfl, earlier, failed⟩
    obtain ⟨shown, viewed, failed⟩ := (bads item (by simp)).mp failed
    refine ⟨before.filterMap view, shown, behind.filterMap view, ?_, ?_, failed⟩
    · rw [List.filterMap_append, List.filterMap_cons_some viewed]
    · intro other member
      obtain ⟨origin, inside, viewed⟩ := List.mem_filterMap.mp member
      exact (goods origin (List.mem_append_left _ inside)).mp (earlier origin inside) other viewed
  · rintro ⟨before, shown, behind, split, earlier, failed⟩
    obtain ⟨first, rest, rfl, firstShown, restShown⟩ := List.filterMap_eq_append_iff.mp split
    obtain ⟨hidden, item, others, rfl, nothing, viewed, _⟩ := List.filterMap_eq_cons_iff.mp restShown
    refine ⟨first ++ hidden, item, others, by rw [List.append_assoc], ?_, ?_⟩
    · intro other member
      have inside : other ∈ first ++ (hidden ++ item :: others) := by
        rw [← List.append_assoc]
        exact List.mem_append_left _ member
      refine (goods other inside).mpr fun name viewed => ?_
      rcases List.mem_append.mp member with inside | inside
      · exact earlier name (firstShown ▸ List.mem_filterMap.mpr ⟨other, inside, viewed⟩)
      · simp [nothing other inside] at viewed
    · exact (bads item (by simp)).mpr ⟨shown, viewed, failed⟩

namespace Value

variable (objects : ObjectCodecs) (limit : Nat)

/-- What has to hold of a value to be written as one of a type. -/
structure Writable (type : DataType) (value : Value) : Prop where
  conforms : value.conformsTo type = true
  short : ∀ text, value = .text text → (Utf8.encode text).length ≤ limit
  encoded : ∀ name json, type = .object name → value = .object json → ∃ object,
    objects.find name = .ok object ∧ (object.encode json).2 = .ok ()

/-- Why a value is not written in a field. -/
inductive Unwritable (field : String) (type : DataType) : Value → Error → Prop
  | null : Value.null.conformsTo type = false → Unwritable field type .null (.nullNotAllowed field)
  | mismatch {value : Value} : value.conformsTo type = false → value.isNull = false →
      Unwritable field type value (.fieldTypeMismatch field type value.kind)
  | long {text : String} : type = .text → limit < (Utf8.encode text).length →
      Unwritable field type (.text text)
        (.codec (.textTooLong field (Utf8.encode text).length limit))
  | failed {name : String} {json : Json} {object : ObjectCodec} {cause : Error} :
      type = .object name → objects.find name = .ok object →
      (object.encode json).2 = .error cause → Unwritable field type (.object json) cause

variable {objects : ObjectCodecs} {limit : Nat}

theorem unwritable_of_mismatch {field : String} {type : DataType} {value : Value} {cause : Error}
    (conforms : value.conformsTo type = false) :
    Unwritable objects limit field type value cause ↔ value.check field type = .error cause := by
  have refused : value.check field type = if value.isNull then .error (.nullNotAllowed field)
      else .error (.fieldTypeMismatch field type value.kind) := by
    simp only [check, conforms, Bool.false_eq_true, if_false]
  rw [refused]
  constructor
  · intro unwritable
    cases unwritable with
    | null => rfl
    | mismatch _ present => simp [present]
    | long typed => simp [typed, conformsTo] at conforms
    | failed typed => simp [typed, conformsTo] at conforms
  · intro failed
    by_cases absent : value.isNull = true
    · rw [if_pos absent, Except.error.injEq] at failed
      cases value with
      | null => exact failed ▸ .null conforms
      | _ => simp [isNull] at absent
    · rw [if_neg absent, Except.error.injEq] at failed
      exact failed ▸ .mismatch conforms (Bool.eq_false_iff.mpr absent)

end Value

namespace FieldCodec

variable {codec : FieldCodec}

def Serves (codec : FieldCodec) (type : DataType) : Prop :=
  ∀ name, type = .object name → ∃ object, codec.objects.find name = .ok object

theorem ofPlan_parts {plan : Plan} {objects : ObjectCodecs} {limit : Nat}
    (made : ofPlan plan objects limit = .ok codec) : codec.objects = objects ∧ codec.limit = limit := by
  obtain ⟨_, _, made⟩ := bind_eq_ok.mp made
  obtain ⟨_, _, made⟩ := bind_eq_ok.mp made
  cases made
  exact ⟨rfl, rfl⟩

theorem ofPlan_serves {plan : Plan} (sound : plan.Sound) {objects : ObjectCodecs} {limit : Nat}
    (made : ofPlan plan objects limit = .ok codec) :
    ∀ source ∈ plan.job.sources, ∀ field ∈ source.schema.fields, codec.Serves field.type := by
  intro declared member field inside name typed
  obtain ⟨source, planned⟩ := sound.exists_planned member
  rw [(ofPlan_parts made).1]
  obtain ⟨_, known, _⟩ := bind_eq_ok.mp made
  have named : name ∈ source.schema.fields.filterMap objectCodecName? := by
    rw [planned.sound.schema]
    exact List.mem_filterMap.mpr ⟨field, inside, by rw [objectCodecName?, typed]⟩
  obtain ⟨object, found, -⟩ := map_eq_ok.mp
    (forM_eq_ok.mp known name (List.mem_flatMap.mpr ⟨source, planned.inPlan, named⟩))
  exact ⟨object, found⟩

theorem exists_bytesOf {field : Field} {value : Value} :
    (∃ bytes, codec.bytesOf field value = .ok bytes) ↔
      value.Writable codec.objects codec.limit field.type := by
  simp only [bytesOf_eq_ok]
  constructor
  · rintro ⟨bytes, written⟩
    refine ⟨written.conforms, ?_, ?_⟩
    · rintro text rfl
      cases typed : field.type <;> rw [typed] at written <;> cases written
      assumption
    · rintro name json typed rfl
      rw [typed] at written
      cases written with
      | object found succeeded => exact ⟨_, found, succeeded⟩
  · rintro ⟨conforms, short, encoded⟩
    revert conforms encoded
    generalize field.type = type
    intro conforms encoded
    cases Value.conformsTo_eq_true.mp conforms with
    | text text => exact ⟨_, .text text (short text rfl)⟩
    | constant named inside => exact ⟨_, .constant named inside⟩
    | object name json =>
        obtain ⟨object, found, succeeded⟩ := encoded name json rfl rfl
        exact ⟨_, .object found succeeded⟩
    | int32 number => exact ⟨_, .int32 number⟩
    | int64 number => exact ⟨_, .int64 number⟩
    | float32 number => exact ⟨_, .float32 number⟩
    | float64 number => exact ⟨_, .float64 number⟩
    | boolean truth => exact ⟨_, .boolean truth⟩
    | absent name => exact ⟨_, .absent name⟩

theorem sizedText_eq_error {field text : String} {cause : Error} :
    codec.sizedText field text = .error cause ↔ codec.limit < (Utf8.encode text).length ∧
      cause = .codec (.textTooLong field (Utf8.encode text).length codec.limit) := by
  unfold sizedText
  split
  · rename_i long
    simp only [Except.error.injEq, long, true_and]
    exact eq_comm
  · rename_i short
    simp [short]

theorem objectBytes_eq_error {name : String} {json : Json} {object : ObjectCodec} {cause : Error}
    (found : codec.objects.find name = .ok object) :
    codec.objectBytes name json = .error cause ↔ (object.encode json).2 = .error cause := by
  rw [objectBytes, found, ok_bind]
  cases (object.encode json).2 with
  | error other => simp
  | ok => simp

theorem bytesOf_eq_error {field : Field} (serves : codec.Serves field.type) {value : Value}
    {cause : Error} : codec.bytesOf field value = .error cause ↔
      value.Unwritable codec.objects codec.limit field.name field.type cause := by
  cases conforms : value.conformsTo field.type with
  | false =>
      rw [Value.unwritable_of_mismatch conforms]
      unfold bytesOf
      cases checked : value.check field.name field.type with
      | error other =>
          rw [error_bind, Except.error.injEq, Except.error.injEq]
      | ok => simp [Value.check_eq_ok.mp checked] at conforms
  | true =>
      unfold bytesOf
      rw [Value.check_eq_ok.mpr conforms, ok_bind]
      revert serves conforms
      generalize field.type = type
      intro serves conforms
      cases Value.conformsTo_eq_true.mp conforms with
      | text text =>
          rw [sizedText_eq_error]
          constructor
          · rintro ⟨long, rfl⟩
            exact .long rfl long
          · intro unwritable
            cases unwritable with
            | mismatch other => simp [conforms] at other
            | long _ long => exact ⟨long, rfl⟩
      | object name json =>
          obtain ⟨object, found⟩ := serves name rfl
          rw [objectBytes_eq_error found]
          constructor
          · exact .failed rfl found
          · intro unwritable
            cases unwritable with
            | mismatch other => simp [conforms] at other
            | failed typed known failed =>
                cases typed
                exact Except.ok.inj (found.symm.trans known) ▸ failed
      | absent name =>
          simp only [reduceCtorEq, false_iff]
          intro unwritable
          cases unwritable with
          | null other => simp [conforms] at other
          | mismatch other => simp [conforms] at other
      | _ =>
          simp only [reduceCtorEq, false_iff]
          intro unwritable
          cases unwritable with
          | mismatch other => simp [conforms] at other

end FieldCodec

/-- The names of a source's fields as they follow one another in its records: those of the common order,
those of the secondary order, and the others as they were declared. -/
def Job.recordNames (job : Job) (source : Source) : List String :=
  let common := job.commonOrder.map SortEntry.name
  let secondary := (Plan.secondaryOrder job source.id).entries.map SortEntry.name
  common.filter (· ≠ sourceIdName) ++ secondary ++
    source.schema.names.filter fun name => name ∉ common ∧ name ∉ secondary

def Source.Holds (source : Source) (tuple : Tuple) (name : String) (field : Field) (value : Value) :
    Prop :=
  ∃ position, source.schema.fields[position]? = some field ∧ field.name = name ∧
    tuple.get? position = some value

theorem Source.Holds.mem_fields {source : Source} {tuple : Tuple} {name : String} {field : Field}
    {value : Value} (holds : source.Holds tuple name field value) : field ∈ source.schema.fields := by
  obtain ⟨position, found, _⟩ := holds
  exact List.mem_of_getElem? found

theorem Source.Holds.unique {source : Source} {tuple : Tuple} {name : String} {field other : Field}
    {value otherValue : Value} (distinct : source.schema.names.Nodup)
    (holds : source.Holds tuple name field value)
    (otherHolds : source.Holds tuple name other otherValue) : field = other ∧ value = otherValue := by
  obtain ⟨position, found, named, held⟩ := holds
  obtain ⟨place, otherFound, otherNamed, otherHeld⟩ := otherHolds
  have first : source.schema.indexOf? name = some position := by
    rw [Schema.indexOf?_eq_some distinct, Schema.names, List.getElem?_map, found, Option.map_some, named]
  have second : source.schema.indexOf? name = some place := by
    rw [Schema.indexOf?_eq_some distinct, Schema.names, List.getElem?_map, otherFound, Option.map_some,
      otherNamed]
  obtain rfl := Option.some.inj (first.symm.trans second)
  exact ⟨Option.some.inj (found.symm.trans otherFound), Option.some.inj (held.symm.trans otherHeld)⟩

def Field.declaredName? (field : Field) : Option String :=
  if field.isSourceId then none else some field.name

namespace Plan.Planned

variable {plan : Plan} {declared : Source} {source : SourcePlan}

theorem recordNames_eq (sound : plan.Sound) (planned : plan.Planned declared source) :
    ((plan.recordFields source).filter (!·.isSourceId)).map Field.name =
      plan.job.recordNames declared := by
  obtain ⟨leading, ordered, specific⟩ := (planned.splits sound).ordered
  have secondary : leading.map Field.name =
      (secondaryOrder plan.job declared.id).entries.map SortEntry.name := by
    rw [← List.forall₂_eq_eq_eq, List.forall₂_map_left_iff, List.forall₂_map_right_iff]
    refine (ordered.imp fun entry field found => ?_).flip
    obtain ⟨_, _, named, _⟩ := SortEntry.fieldIn?_eq_some.mp found
    exact named
  have unmarked : ∀ field ∈ source.specific.fields, (!field.isSourceId) = true := by
    intro field member
    obtain ⟨slot, inside, fed⟩ := planned.sound.feedsSpecific.exists_right member
    obtain ⟨position, _, rfl⟩ := List.mem_map.mp inside
    cases fed with
    | field unmarked => simp [unmarked]
  rw [recordFields, List.filter_append, List.map_append, List.filter_eq_self.mpr unmarked, specific,
    List.map_append, secondary, Job.recordNames, ← sound.orders.names, ← planned.sound.schema,
    ← List.append_assoc]
  congr 1
  · congr 1
    rw [Schema.names, List.filter_map]
    congr 2
    funext field
    rw [Bool.eq_iff_iff]
    simp [Field.isSourceId]
  · rw [Schema.names, Schema.names, List.filter_map]
    rfl

theorem recordNames_places (sound : plan.Sound) (planned : plan.Planned declared source) :
    ((plan.recordFields source).zip source.slots).filterMap (fun place => place.1.declaredName?) =
      plan.job.recordNames declared := by
  have fields : ((plan.recordFields source).zip source.slots).map Prod.fst = plan.recordFields source :=
    List.map_fst_zip (Nat.le_of_eq planned.feeds.length_eq)
  have split : ((plan.recordFields source).zip source.slots).filterMap
      (fun place => place.1.declaredName?) = (plan.recordFields source).filterMap Field.declaredName? := by
    conv => rhs; rw [← fields, List.filterMap_map]
    rfl
  rw [split, ← planned.recordNames_eq sound, ← List.filterMap_eq_map, List.filterMap_filter]
  congr 1
  funext field
  cases marked : field.isSourceId <;> simp [Field.declaredName?, marked]

theorem recordNames_perm (sound : plan.Sound) (planned : plan.Planned declared source) :
    (plan.job.recordNames declared).Perm declared.schema.names := by
  have names := Slot.names_of_feeds planned.feeds
  have all : (List.range source.schema.size).map (source.schema.names[·]?) =
      declared.schema.names.map some := by
    rw [planned.sound.schema]
    refine List.ext_getElem? fun place => ?_
    by_cases inside : place < declared.schema.names.length
    · have bound : place < declared.schema.size := by simpa [Schema.names, Schema.size] using inside
      simp [bound, inside]
    · have beyond : ¬place < declared.schema.size := by simpa [Schema.names, Schema.size] using inside
      simp [beyond, inside]
  rw [planned.recordNames_eq sound, source.positions_slots] at names
  have same := (planned.whole sound).map (source.schema.names[·]?)
  rw [names, all] at same
  exact (List.map_perm_map_iff (Option.some_injective _)).mp same

end Plan.Planned

namespace RecordCodec

variable {codec : FieldCodec}

def slotBytes (codec : FieldCodec) (tuple : Tuple) (source : SourceId) (field : Field) :
    Slot → Except Error Bytes
  | .sourceId => .ok (Varint.encodeSourceId source)
  | .field position => tuple.require position >>= codec.bytesOf field

theorem appends_encodeSlot (codec : FieldCodec) (tuple : Tuple) (source : SourceId) (field : Field) (slot : Slot) :
    FieldCodec.Appends (encodeSlot codec tuple source field slot)
      (slotBytes codec tuple source field slot) := by
  cases slot with
  | sourceId => exact FieldCodec.appends_append _
  | field position =>
      intro buffers
      rw [encodeSlot, slotBytes]
      cases tuple.require position with
      | error cause => exact FieldCodec.appends_throw cause buffers
      | ok value => exact codec.appends_encode field value buffers

theorem result_encodeSlots (tuple : Tuple) (source : SourceId) (fields : List Field)
    (slots : List Slot) (buffers : Buffers) :
    (outcome (encodeSlots codec tuple source fields slots) buffers).1 =
      ((fields.zip slots).mapM fun place => slotBytes codec tuple source place.1 place.2).map
        fun _ => () := by
  induction fields generalizing slots buffers with
  | nil => cases slots <;> rfl
  | cons field fields ih =>
      cases slots with
      | nil => rfl
      | cons slot slots =>
          obtain ⟨scratch, here⟩ := appends_encodeSlot codec tuple source field slot buffers
          rw [List.zip_cons_cons, List.mapM_cons, encodeSlots]
          cases written : slotBytes codec tuple source field slot with
          | error cause =>
              rw [written] at here
              rw [outcome_bind_of_error here]
              rfl
          | ok bytes =>
              rw [written] at here
              rw [outcome_bind_of_ok here, ih, ok_bind, map_bind_eq]
              cases (fields.zip slots).mapM fun place => slotBytes codec tuple source place.1 place.2 <;>
                rfl

theorem bytesOf_congr {field other : Field} (named : field.name = other.name)
    (typed : field.type = other.type) (value : Value) :
    codec.bytesOf field value = codec.bytesOf other value := by
  obtain ⟨name, type, comparator⟩ := field
  obtain ⟨otherName, otherType, otherComparator⟩ := other
  cases named
  cases typed
  rfl

variable {plan : Plan} {declared : Source} {source : SourcePlan} {tuple : Tuple}

inductive Stands (codec : FieldCodec) (declared : Source) (tuple : Tuple) (id : SourceId)
    (place : Field × Slot) : Prop
  | sourceId {bytes : Bytes} : place.1.declaredName? = none →
      slotBytes codec tuple id place.1 place.2 = .ok bytes → Stands codec declared tuple id place
  | declared {field : Field} {value : Value} : place.1.declaredName? = some field.name →
      declared.Holds tuple field.name field value →
      slotBytes codec tuple id place.1 place.2 = codec.bytesOf field value →
      Stands codec declared tuple id place

theorem stands_of_planned (codec : FieldCodec) (planned : plan.Planned declared source)
    (sized : tuple.size = declared.schema.size) :
    ∀ place ∈ (plan.recordFields source).zip source.slots,
      Stands codec declared tuple source.id place := by
  rintro ⟨field, slot⟩ member
  cases List.forall₂_zip planned.feeds member with
  | sourceId marked => exact .sourceId (by simp [Field.declaredName?, marked]) rfl
  | @field position original unmarked found named typed =>
      rw [planned.sound.schema] at found
      have inside : position < tuple.values.length := by
        have bound := (List.getElem?_eq_some_iff.mp found).1
        rw [← Schema.size, ← sized] at bound
        exact bound
      have held : tuple.get? position = some tuple.values[position] := List.getElem?_eq_getElem inside
      refine .declared ?_ ⟨position, found, rfl, held⟩ ?_
      · simp [Field.declaredName?, unmarked, named]
      · simp only [slotBytes]
        rw [Tuple.require_eq_ok.mpr held, ok_bind]
        exact bytesOf_congr named.symm typed.symm _

namespace Stands

variable {id : SourceId} {place : Field × Slot} (distinct : declared.schema.names.Nodup)
  (stands : Stands codec declared tuple id place)

include distinct stands

theorem exists_ok_iff :
    (∃ bytes, slotBytes codec tuple id place.1 place.2 = .ok bytes) ↔
      ∀ name ∈ place.1.declaredName?, ∃ field value, declared.Holds tuple name field value ∧
        value.Writable codec.objects codec.limit field.type := by
  cases stands with
  | sourceId marked written => simp [marked, written]
  | @declared field value plain holds same =>
      rw [same, FieldCodec.exists_bytesOf, plain]
      constructor
      · rintro writable _ ⟨⟩
        exact ⟨field, value, holds, writable⟩
      · intro writable
        obtain ⟨_, _, held, writable⟩ := writable field.name rfl
        obtain ⟨rfl, rfl⟩ := holds.unique distinct held
        exact writable

theorem eq_error_iff (serves : ∀ field ∈ declared.schema.fields, codec.Serves field.type) {cause : Error} :
    slotBytes codec tuple id place.1 place.2 = .error cause ↔
      ∃ name ∈ place.1.declaredName?, ∃ field value, declared.Holds tuple name field value ∧
        value.Unwritable codec.objects codec.limit field.name field.type cause := by
  cases stands with
  | sourceId marked written => simp [marked, written]
  | @declared field value plain holds same =>
      rw [same, FieldCodec.bytesOf_eq_error (serves field holds.mem_fields), plain]
      constructor
      · intro unwritable
        exact ⟨_, rfl, field, value, holds, unwritable⟩
      · rintro ⟨_, ⟨⟩, _, _, held, unwritable⟩
        obtain ⟨rfl, rfl⟩ := holds.unique distinct held
        exact unwritable

end Stands

variable (records : RecordCodec)

theorem result_write (sound : records.plan.Sound) (planned : records.plan.Planned declared source)
    (named : declared.schema.name = tuple.schema.name) (sized : tuple.size = declared.schema.size)
    (buffers : Buffers) :
    (outcome (records.write tuple) buffers).1 =
      (((records.plan.recordFields source).zip source.slots).mapM fun place =>
        slotBytes records.fields tuple source.id place.1 place.2).map fun _ => () := by
  have known := (Plan.sourceNamed_eq_ok sound).mpr ⟨declared, planned, named⟩
  rw [← planned.sound.schema] at sized
  rw [outcome_write sound known sized, ← encodeSlots_append tuple source.id
    planned.sound.feedsCommon.length_eq]
  exact result_encodeSlots _ _ _ _ _

theorem slotBytes_all_iff (sound : records.plan.Sound) (planned : records.plan.Planned declared source)
    (sized : tuple.size = declared.schema.size) :
    (∀ place ∈ (records.plan.recordFields source).zip source.slots, ∃ bytes,
      slotBytes records.fields tuple source.id place.1 place.2 = .ok bytes) ↔
    List.Forall₂ (fun field value => value.Writable records.fields.objects records.fields.limit field.type)
      declared.schema.fields tuple.values := by
  have distinct : declared.schema.names.Nodup := (sound.declared.valid declared planned.inJob).distinct
  have standing := stands_of_planned records.fields planned sized
  constructor
  · intro written
    refine List.forall₂_of_length_eq_of_get sized.symm fun position insideFields insideValues => ?_
    have holds : declared.Holds tuple declared.schema.fields[position].name
        declared.schema.fields[position] tuple.values[position] :=
      ⟨position, List.getElem?_eq_getElem insideFields, rfl, List.getElem?_eq_getElem insideValues⟩
    have named : declared.schema.fields[position].name ∈ records.plan.job.recordNames declared :=
      (planned.recordNames_perm sound).mem_iff.mpr (List.mem_map_of_mem (List.getElem_mem insideFields))
    rw [← planned.recordNames_places sound] at named
    obtain ⟨place, member, sameName⟩ := List.mem_filterMap.mp named
    obtain ⟨field, value, held, writable⟩ :=
      ((standing place member).exists_ok_iff distinct).mp (written place member) _ sameName
    obtain ⟨rfl, rfl⟩ := held.unique distinct holds
    exact writable
  · intro writable place member
    refine ((standing place member).exists_ok_iff distinct).mpr fun name named => ?_
    cases standing place member with
    | sourceId marked => simp [marked] at named
    | declared plain holds same =>
        have ⟨position, found, _, held⟩ := holds
        obtain ⟨other, atPosition, writable⟩ := writable.getElem?_left found
        obtain rfl := Option.some.inj (held.symm.trans atPosition)
        obtain rfl := Option.some.inj (plain.symm.trans named)
        exact ⟨_, _, holds, writable⟩

theorem slotBytes_first_iff (sound : records.plan.Sound) (planned : records.plan.Planned declared source)
    (serves : ∀ field ∈ declared.schema.fields, records.fields.Serves field.type)
    (sized : tuple.size = declared.schema.size) {cause : Error} :
    (((records.plan.recordFields source).zip source.slots).mapM fun place =>
        slotBytes records.fields tuple source.id place.1 place.2) = .error cause ↔
      ∃ before name behind, records.plan.job.recordNames declared = before ++ name :: behind ∧
        (∀ earlier ∈ before, ∃ field value, declared.Holds tuple earlier field value ∧
          value.Writable records.fields.objects records.fields.limit field.type) ∧
        ∃ field value, declared.Holds tuple name field value ∧
          value.Unwritable records.fields.objects records.fields.limit field.name field.type cause := by
  have distinct : declared.schema.names.Nodup := (sound.declared.valid declared planned.inJob).distinct
  have standing := stands_of_planned records.fields planned sized
  rw [mapM_eq_error, ← planned.recordNames_places sound]
  exact first_filterMap_iff (fun place member => (standing place member).exists_ok_iff distinct)
    fun place member => (standing place member).eq_error_iff distinct serves

/-- A tuple is written exactly if its source is configured and it holds for each declared field, and for
nothing else, a value that can be written there. If it has as many values as fields, the first of these
in the order of records that cannot be written is the cause of the failure. -/
theorem write_checks {job : Job} {plan : Plan} (built : Plan.build job = .ok plan)
    {objects : ObjectCodecs} {limit : Nat} {fields : FieldCodec}
    (made : FieldCodec.ofPlan plan objects limit = .ok fields) (tuple : Tuple) (buffers : Buffers) :
    ((outcome (write ⟨plan, fields⟩ tuple) buffers).1 = .ok () ↔
      ∃ source ∈ job.sources, source.schema.name = tuple.schema.name ∧
        List.Forall₂ (fun field value => value.Writable objects limit field.type)
          source.schema.fields tuple.values) ∧
    ∀ source ∈ job.sources, source.schema.name = tuple.schema.name →
      tuple.size = source.schema.size → ∀ cause,
        ((outcome (write ⟨plan, fields⟩ tuple) buffers).1 = .error cause ↔
          ∃ before name behind, job.recordNames source = before ++ name :: behind ∧
            (∀ earlier ∈ before, ∃ field value, source.Holds tuple earlier field value ∧
              value.Writable objects limit field.type) ∧
            ∃ field value, source.Holds tuple name field value ∧
              value.Unwritable objects limit field.name field.type cause) := by
  obtain ⟨sound, rfl⟩ := Plan.build_sound built
  have serves := FieldCodec.ofPlan_serves sound made
  obtain ⟨rfl, rfl⟩ := FieldCodec.ofPlan_parts made
  have whole : ∀ source ∈ plan.job.sources, source.schema.name = tuple.schema.name →
      tuple.size = source.schema.size →
      ((outcome (write ⟨plan, fields⟩ tuple) buffers).1 = .ok () ↔
        List.Forall₂ (fun field value => value.Writable fields.objects fields.limit field.type)
          source.schema.fields tuple.values) := by
    intro declared member named sized
    obtain ⟨source, planned⟩ := sound.exists_planned member
    rw [result_write ⟨plan, fields⟩ sound planned named sized,
      ← slotBytes_all_iff ⟨plan, fields⟩ sound planned sized, ← List.exists_forall₂, map_eq_ok]
    simp only [mapM_eq_ok, and_true]
  constructor
  · constructor
    · intro written
      obtain ⟨source, known, sized⟩ := write_sized (Prod.ext written rfl)
      obtain ⟨declared, planned, named⟩ := (Plan.sourceNamed_eq_ok sound).mp known
      rw [planned.sound.schema] at sized
      exact ⟨declared, planned.inJob, named, (whole declared planned.inJob named sized).mp written⟩
    · rintro ⟨declared, member, named, writable⟩
      exact (whole declared member named writable.length_eq.symm).mpr writable
  · intro declared member named sized cause
    obtain ⟨source, planned⟩ := sound.exists_planned member
    rw [result_write ⟨plan, fields⟩ sound planned named sized, map_eq_error]
    exact slotBytes_first_iff ⟨plan, fields⟩ sound planned (serves declared member) sized

end RecordCodec

namespace Crawl

def fields : FieldCodec := valueOf (FieldCodec.ofPlan plan .standard 8) (by decide +kernel)

theorem built : Plan.build job = .ok plan := eq_valueOf _

theorem made : FieldCodec.ofPlan plan .standard 8 = .ok fields := eq_valueOf _

def page (body size : Value) : Tuple := ⟨pages, [body, .text "a", .int64 7, size], rfl⟩

theorem writable_text {text : String} (short : (Utf8.encode text).length ≤ 8) :
    (Value.text text).Writable .standard 8 .text := by
  refine ⟨rfl, ?_, by simp⟩
  rintro other same
  cases same
  exact short

theorem writable_fetched : (Value.int64 7).Writable .standard 8 .int64 := ⟨rfl, by simp, by simp⟩

end Crawl

/-- A page without a body and with a text for its size, which is written before the body, is refused for
its size. -/
theorem RecordCodec.write_checks_page :
    (outcome (write ⟨Crawl.plan, Crawl.fields⟩ (Crawl.page (.text "b") (.int32 1))) ⟨[], []⟩).1 =
        .ok () ∧
      (outcome (write ⟨Crawl.plan, Crawl.fields⟩ (Crawl.page .null (.text "c"))) ⟨[], []⟩).1 =
        .error (.fieldTypeMismatch "size" .int32 "string") := by
  have member : (⟨⟨1⟩, Crawl.pages⟩ : Source) ∈ Crawl.job.sources := List.mem_cons_self
  constructor
  · have checks := write_checks Crawl.built Crawl.made (Crawl.page (.text "b") (.int32 1)) ⟨[], []⟩
    refine checks.1.mpr ⟨_, member, rfl, ?_⟩
    have size : (Value.int32 1).Writable .standard 8 .int32 := ⟨rfl, by simp, by simp⟩
    exact .cons (Crawl.writable_text (by decide)) (.cons (Crawl.writable_text (by decide))
      (.cons Crawl.writable_fetched (.cons size .nil)))
  · have checks := write_checks Crawl.built Crawl.made (Crawl.page .null (.text "c")) ⟨[], []⟩
    refine (checks.2 _ member rfl rfl _).mpr ⟨["url", "fetched"], "size", ["body"], by decide, ?_,
      ⟨"size", .int32, none⟩, .text "c", ⟨3, rfl, rfl, rfl⟩, .mismatch rfl rfl⟩
    rw [List.forall_mem_cons, List.forall_mem_singleton]
    constructor
    · exact ⟨_, _, ⟨1, rfl, rfl, rfl⟩, Crawl.writable_text (by decide)⟩
    · exact ⟨_, _, ⟨2, rfl, rfl, rfl⟩, Crawl.writable_fetched⟩

end Cogrouping
