import Cogrouping.Proofs.Wire.Record
import Cogrouping.Proofs.Wire.Parses

/-!
Reading back what was written. The items of a record fill the slots they were taken from, so a record
gives back its source and its tuple, and a tuple that is used again keeps nothing of what it held before.
-/

namespace Cogrouping

def Slot.store (tuple filled : Tuple) : Slot → Tuple
  | .field position => filled.put position ((tuple.get? position).getD .null)
  | .sourceId => filled

@[simp] theorem Slot.schema_store (tuple filled : Tuple) (slot : Slot) :
    (slot.store tuple filled).schema = filled.schema := by
  cases slot <;> rfl

@[simp] theorem Slot.size_store (tuple filled : Tuple) (slot : Slot) :
    (slot.store tuple filled).size = filled.size := by
  cases slot with
  | field position => exact List.length_set
  | sourceId => rfl

@[simp] theorem Slot.size_foldl_store (tuple filled : Tuple) (slots : List Slot) :
    (slots.foldl (Slot.store tuple) filled).size = filled.size := by
  induction slots generalizing filled with
  | nil => rfl
  | cons slot rest ih => rw [List.foldl_cons, ih, Slot.size_store]

theorem Slot.foldl_store {tuple filled : Tuple} (slots : List Slot)
    (sized : filled.size = tuple.size) :
    (slots.foldl (Slot.store tuple) filled).schema = filled.schema ∧
      ∀ position, (slots.foldl (Slot.store tuple) filled).get? position =
        if .field position ∈ slots then tuple.get? position else filled.get? position := by
  induction slots generalizing filled with
  | nil => simp
  | cons slot rest ih =>
      rw [List.foldl_cons]
      obtain ⟨schema, values⟩ := ih ((Slot.size_store tuple filled slot).trans sized)
      refine ⟨schema.trans (Slot.schema_store tuple filled slot), fun position => ?_⟩
      rw [values position]
      by_cases later : Slot.field position ∈ rest
      · rw [if_pos later, if_pos (List.mem_cons_of_mem _ later)]
      · rw [if_neg later]
        cases slot with
        | sourceId => simp [later, store]
        | field place =>
            by_cases here : place = position
            · subst here
              have sameSize : filled.values.length = tuple.values.length := sized
              rw [if_pos List.mem_cons_self, store, Tuple.put, Tuple.get?, List.getElem?_set_self',
                Tuple.get?]
              by_cases inside : place < tuple.values.length
              · simp [List.getElem?_eq_getElem inside,
                  List.getElem?_eq_getElem (sameSize.symm ▸ inside)]
              · rw [List.getElem?_eq_none (by omega), List.getElem?_eq_none (by omega)]
                rfl
            · have other : Slot.field position ≠ Slot.field place := by
                intro same
                exact here (Slot.field.inj same).symm
              simp [later, other, store, Tuple.put, Tuple.get?, List.getElem?_set_ne here]

theorem Slot.values_foldl_store {tuple filled : Tuple} {slots : List Slot}
    (sized : filled.size = tuple.size) (covers : ∀ position < tuple.size, .field position ∈ slots) :
    (slots.foldl (Slot.store tuple) filled).values = tuple.values := by
  obtain ⟨_, stored⟩ := Slot.foldl_store slots sized
  apply List.ext_getElem?
  intro position
  by_cases inside : position < tuple.size
  · have found := stored position
    rw [if_pos (covers position inside)] at found
    exact found
  · have within : ¬position < (slots.foldl (Slot.store tuple) filled).size := by
      rw [Slot.size_foldl_store, sized]
      exact inside
    rw [List.getElem?_eq_none (Nat.not_lt.mp within), List.getElem?_eq_none (Nat.not_lt.mp inside)]

theorem Reads.of_items {codec : FieldCodec} {items : List (Item codec)}
    (readable : ∀ item ∈ items, item.Readable) {fields : List Field} {slots : List Slot}
    {tuple : Tuple} {source : SourceId}
    (holds : RecordCodec.Holds items fields (slots.map (Slot.cell tuple source))) {filled : Tuple}
    (inside : ∀ position, .field position ∈ slots → position < filled.size) :
    Reads codec filled fields slots (slots.map (Slot.cell tuple source)) (Item.join items)
      (slots.foldl (Slot.store tuple) filled) := by
  obtain ⟨rfl, cells⟩ := holds
  induction items generalizing slots filled with
  | nil =>
      have none : slots = [] := List.map_eq_nil_iff.mp cells.symm
      rw [none]
      exact .nil filled
  | cons item items ih =>
      rw [List.forall_mem_cons] at readable
      obtain ⟨⟨fits, known, kept⟩, readable⟩ := readable
      obtain ⟨slot, rest, rfl, cell, cells⟩ := List.map_eq_cons_iff.mp cells.symm
      have later : ∀ position, .field position ∈ rest → position < (slot.store tuple filled).size := by
        intro position member
        rw [Slot.size_store]
        exact inside position (List.mem_cons_of_mem _ member)
      have reads := ih readable later cells.symm
      obtain ⟨field, held, bytes, written⟩ := item
      simp only at cell fits known kept
      subst cell
      cases slot with
      | sourceId =>
          cases written with
          | sourceId id marked => exact .sourceId (Varint.sourceId_spellsSize source) reads
      | field position =>
          cases written with
          | value unmarked written =>
              have spelled := written.spelled (known _ rfl) (kept _ rfl) fits
              have bound := inside position List.mem_cons_self
              exact .value spelled (Tuple.set_eq_ok.mpr ⟨bound, rfl⟩) reads

namespace FieldCodec

theorem ofTypes_find? {types : Dictionary String EnumType} {constants : EnumConstants}
    (made : EnumConstants.ofTypes types = .ok constants) {type : EnumType}
    (found : types.find? type.name = some type) :
    ∃ listed, EnumConstants.ofType type = .ok listed ∧
      constants.byType.find? type.name = some listed := by
  obtain ⟨entries, listed, made⟩ := bind_eq_ok.mp made
  cases made
  have places : List.Forall₂ (fun (entry : String × EnumType) (result : String × List EnumConstant) =>
      result.1 = entry.1 ∧ EnumConstants.ofType entry.2 = .ok result.2) types.entries entries := by
    refine (mapM_eq_ok.mp listed).imp fun entry result done => ?_
    obtain ⟨constants, here, done⟩ := bind_eq_ok.mp done
    cases done
    exact ⟨rfl, here⟩
  have keys : entries.map Prod.fst = types.entries.map Prod.fst := by
    rw [← List.forall₂_eq_eq_eq, List.forall₂_map_left_iff, List.forall₂_map_right_iff]
    exact (places.imp fun _ _ each => each.1).flip
  obtain ⟨result, inside, sameKey, here⟩ := places.exists_right (Dictionary.find?_eq_some.mp found)
  refine ⟨result.2, here, ?_⟩
  have sameName : result.1 = type.name := sameKey
  rw [Dictionary.find?_ofList (keys ▸ types.keys_nodup), ← sameName]
  exact inside

theorem ofPlan_knows {plan : Plan} (sound : plan.Sound) {objects : ObjectCodecs} {limit : Nat}
    {codec : FieldCodec} (made : ofPlan plan objects limit = .ok codec) :
    ∀ source ∈ plan.job.sources, ∀ field ∈ source.schema.fields, codec.Knows field.type := by
  obtain ⟨_, _, made⟩ := bind_eq_ok.mp made
  obtain ⟨constants, listed, made⟩ := bind_eq_ok.mp made
  cases made
  intro source member field inside
  cases typed : field.type with
  | enumeration type => exact ofTypes_find? listed (sound.enums source member field inside type typed)
  | _ => trivial

end FieldCodec

namespace RecordCodec

def Keeps (records : RecordCodec) (tuple : Tuple) : Prop :=
  ∀ source, records.plan.sourceNamed tuple.schema.name = .ok source →
    ∀ entry ∈ source.schema.fields.zip tuple.values, records.fields.Keeps entry.1.type entry.2

variable {records : RecordCodec}

def Knows (records : RecordCodec) : Prop :=
  ∀ source ∈ records.plan.job.sources, ∀ field ∈ source.schema.fields,
    records.fields.Knows field.type

theorem readable_of_holds (sound : records.plan.Sound) (knows : records.Knows)
    {row : Row records.plan} (kept : records.Keeps row.tuple) {fields : List Field} {slots : List Slot}
    (feeds : List.Forall₂ (Slot.Feeds row.source.schema) fields slots)
    {items : List (Item records.fields)} (holds : Holds items fields (row.cells slots))
    (fits : (Item.join items).length < 0x8000000000000000) :
    ∀ item ∈ items, item.Readable := by
  intro item member
  obtain ⟨slot, _, fed, taken⟩ := (holds.places feeds).exists_right member
  have short : item.bytes.length < 0x8000000000000000 := by
    obtain ⟨before, after, rfl⟩ := List.append_of_mem member
    simp only [Item.join_append, Item.join_cons, List.length_append] at fits
    omega
  cases fed with
  | sourceId marked =>
      have marker : ∀ value, item.cell ≠ .value value := by simp [taken, Slot.cell]
      exact ⟨short, fun value held => absurd held (marker value),
        fun value held => absurd held (marker value)⟩
  | @field position declared unmarked found named typed =>
      have known := knows row.declared row.planned.inJob declared
        (row.planned.sound.schema ▸ List.mem_of_getElem? found)
      obtain ⟨value, atPosition, _⟩ := row.conforms.getElem?_left found
      have paired : (row.source.schema.fields.zip row.tuple.values)[position]? =
          some (declared, value) := List.getElem?_zip_eq_some.mpr ⟨found, atPosition⟩
      have keeps := kept row.source (row.sourceNamed sound) _ (List.mem_of_getElem? paired)
      have held : ∀ other, item.cell = .value other → other = value := by
        intro other same
        rw [taken, Slot.cell, Tuple.get?, atPosition, Option.getD_some] at same
        exact (Cell.value.inj same).symm
      refine ⟨short, fun _ _ => typed ▸ known, fun other same => ?_⟩
      rw [held other same, ← typed]
      exact keeps

namespace Encoding

variable {row : Row records.plan} {record : Bytes}

theorem readable (sound : records.plan.Sound) (knows : records.Knows)
    (encoding : Encoding records.fields row record) (kept : records.Keeps row.tuple)
    (fits : record.length < 0x8000000000000000) : encoding.Readable := by
  rw [encoding.bytes, List.length_append] at fits
  constructor
  · exact readable_of_holds sound knows kept row.planned.sound.feedsCommon encoding.holdsCommon
      (by omega)
  · exact readable_of_holds sound knows kept row.planned.sound.feedsSpecific encoding.holdsSpecific
      (by omega)

theorem reads (encoding : Encoding records.fields row record) (readable : encoding.Readable) :
    Reads records.fields (Tuple.blank row.source.schema) (records.plan.recordFields row.source)
      row.source.slots (row.cells row.source.slots) record row.stored := by
  obtain ⟨common, specific, holdsCommon, holdsSpecific, rfl⟩ := encoding
  have blankSize : (Tuple.blank row.source.schema).size = row.tuple.size :=
    (Tuple.blank row.source.schema).complete.trans row.conforms.length_eq
  have size : row.tuple.size = row.source.schema.size := row.conforms.length_eq.symm
  have holds : Holds (common ++ specific) (records.plan.recordFields row.source)
      (row.cells row.source.slots) := by
    constructor
    · rw [List.map_append, holdsCommon.fields, holdsSpecific.fields, Plan.recordFields]
    · rw [List.map_append, holdsCommon.cells, holdsSpecific.cells, SourcePlan.slots, Row.cells,
        List.map_append]
      rfl
  have inside : ∀ position, .field position ∈ row.source.slots →
      position < (Tuple.blank row.source.schema).size := by
    intro position member
    obtain ⟨field, _, fed⟩ := row.planned.feeds.exists_left member
    exact blankSize ▸ row.position_lt fed
  have reads := Reads.of_items (List.forall_mem_append.mpr ⟨readable.common, readable.specific⟩)
    holds inside
  have stored : row.source.slots.foldl (Slot.store row.tuple) (Tuple.blank row.source.schema) =
      row.stored := by
    refine Tuple.eq_of_parts (Slot.foldl_store _ blankSize).1 (Slot.values_foldl_store blankSize ?_)
    exact fun position bound => row.planned.sound.covers position (size ▸ bound)
  rw [stored, Item.join_append] at reads
  exact reads

theorem sourceOf (sound : records.plan.Sound) (encoding : Encoding records.fields row record)
    (readable : encoding.Readable) : records.sourceOf record = .ok row.source := by
  rw [sourceOf_eq_sourceIn sound row.planned (encoding.reads readable) (Bytes.at_self record),
    sourceIn]
  cases place : records.plan.sourceIdPosition? with
  | none =>
      have absent := place
      rw [sound.sourceIdPosition, Schema.indexOf?, List.findIdx?_eq_none_iff] at absent
      have single : ¬2 ≤ records.plan.job.sources.length := by
        rw [← sound.marked_iff]
        intro marked
        obtain ⟨field, inside, named⟩ := List.mem_map.mp marked
        have apart := absent field inside
        simp [named] at apart
      simp only [row.planned.head?_of_single sound single]
  | some position =>
      have marked := (row.planned.marked_iff sound).mpr place
      have held : (row.cells row.source.slots)[position]? = some (.sourceId row.id) := by
        rw [Row.cells, List.getElem?_map, marked]
        rfl
      have found : records.plan.source? row.id = some row.source := row.planned.found
      simp only [held, found]

theorem outcome_readInto (sound : records.plan.Sound)
    (encoding : Encoding records.fields row record) (readable : encoding.Readable) (used : Tuple) :
    outcome (records.readInto record) used = (.ok (), row.stored) := by
  have filled := (decodeSlots_eq_ok row.planned.feeds.length_eq (Nat.zero_le _)).mpr
    ⟨_, record, Bytes.at_self record, (Nat.zero_add _).symm, encoding.reads readable⟩
  rw [RecordCodec.outcome_readInto row.planned (encoding.sourceOf sound readable),
    outcome_bind_of_ok filled]
  simp

theorem decode (sound : records.plan.Sound) (encoding : Encoding records.fields row record)
    (readable : encoding.Readable) : records.decode record = .ok row.stored := by
  rw [decode_parses row.planned (encoding.sourceOf sound readable) (Bytes.at_self record)
    ⟨_, encoding.reads readable⟩, if_pos rfl]

end Encoding

/-- A record gives back its source and its tuple, bit for bit, and fills any tuple with nothing else. -/
theorem read_written {job : Job} {plan : Plan} {objects : ObjectCodecs} {limit : Nat}
    {fields : FieldCodec} (built : Plan.build job = .ok plan)
    (made : FieldCodec.ofPlan plan objects limit = .ok fields) {tuple : Tuple} {source : SourcePlan}
    (member : source ∈ plan.sources.values) (carried : tuple.schema = source.schema)
    (kept : (RecordCodec.mk plan fields).Keeps tuple) {buffers after : Buffers}
    (written : ((RecordCodec.mk plan fields).write tuple).run buffers = (.ok (), after))
    (fits : after.out.length < 0x8000000000000000) :
    ∃ record, after.out = buffers.out ++ record ∧
      (RecordCodec.mk plan fields).encode tuple = .ok record ∧
      (RecordCodec.mk plan fields).sourceOf record = .ok source ∧
      (RecordCodec.mk plan fields).decode record = .ok tuple ∧
      ∀ used, ((RecordCodec.mk plan fields).readInto record).run used = (.ok (), tuple) := by
  obtain ⟨sound, rfl⟩ := Plan.build_sound built
  let records : RecordCodec := ⟨plan, fields⟩
  have recordsSound : records.plan.Sound := sound
  have knows : records.Knows := FieldCodec.ofPlan_knows sound made
  obtain ⟨row, record, rfl, out, ⟨encoding⟩⟩ := write_eq_ok recordsSound written
  have short : record.length < 0x8000000000000000 := by
    rw [out, List.length_append] at fits
    omega
  have readable := encoding.readable sound knows kept short
  have sameSource : row.source = source := by
    obtain ⟨declared, planned⟩ := sound.exists_declared member
    have named : plan.sourceNamed row.tuple.schema.name = .ok source :=
      (Plan.sourceNamed_eq_ok sound).mpr ⟨declared, planned, by rw [carried, planned.sound.schema]⟩
    exact Except.ok.inj ((row.sourceNamed sound).symm.trans named)
  have stored := row.stored_eq (sameSource ▸ carried)
  refine ⟨record, out, (encode_eq_ok sound).mpr ⟨row, rfl, ⟨encoding⟩⟩, ?_, ?_, ?_⟩
  · exact sameSource ▸ encoding.sourceOf sound readable
  · exact stored ▸ encoding.decode sound readable
  · intro used
    exact stored ▸ encoding.outcome_readInto sound readable used

end RecordCodec

/-! A job with two sources that declare their common field at different places. -/

namespace Sample

def kind : EnumType := ⟨"kind", ["page", "image"]⟩

def pages : Schema := ⟨"pages", [⟨"url", .text, none⟩, ⟨"kind", .enumeration kind, none⟩]⟩

def visits : Schema := ⟨"visits", [⟨"at", .int64, none⟩, ⟨"url", .text, none⟩]⟩

def job : Job := { sources := [⟨⟨1⟩, pages⟩, ⟨⟨2⟩, visits⟩], groupBy := ["url"] }

def plan : Plan := valueOf (Plan.build job) (by decide)

def fields : FieldCodec := valueOf (FieldCodec.ofPlan plan .standard 100) (by decide)

def records : RecordCodec := ⟨plan, fields⟩

def page : Tuple := ⟨pages, [.text "a", .constant ⟨"kind", 1, "image"⟩], rfl⟩

def visit : Tuple := ⟨visits, [.int64 5, .text "a"], rfl⟩

theorem built : Plan.build job = .ok plan := eq_valueOf _

theorem made : FieldCodec.ofPlan plan .standard 100 = .ok fields := eq_valueOf _

theorem keeps {tuple : Tuple} (member : tuple.schema ∈ job.sources.map Source.schema)
    (kept : ∀ entry ∈ tuple.schema.fields.zip tuple.values, fields.Keeps entry.1.type entry.2) :
    records.Keeps tuple := by
  intro source found
  obtain ⟨declared, planned, named⟩ := (Plan.sourceNamed_eq_ok (Plan.build_sound built).1).mp found
  obtain ⟨other, inside, same⟩ := List.mem_map.mp member
  have sameSource : declared = other := by
    refine List.inj_on_of_nodup_map (Plan.build_sound built).1.declared.distinctSchemas planned.inJob
      inside ?_
    rw [named, same]
  rw [planned.sound.schema, sameSource, same]
  exact kept

theorem keeps_page : records.Keeps page := by
  refine keeps (by decide) fun entry member => ?_
  simp only [page, pages, List.zip_cons_cons, List.zip_nil_left, List.mem_cons, List.not_mem_nil,
    or_false] at member
  rcases member with rfl | rfl
  · trivial
  · rfl

theorem keeps_visit : records.Keeps visit := by
  refine keeps (by decide) fun entry member => ?_
  simp only [visit, visits, List.zip_cons_cons, List.zip_nil_left, List.mem_cons, List.not_mem_nil,
    or_false] at member
  rcases member with rfl | rfl <;> trivial

def pageSource : SourcePlan := valueOf (plan.sourceNamed "pages") (by decide)

end Sample

/-- Behind a byte that was there before, the record of a page is appended and read back. -/
theorem RecordCodec.read_written_page :
    ∃ record, ((Sample.records.write Sample.page).run ⟨[], [7]⟩).2.out = [7] ++ record ∧
      Sample.records.encode Sample.page = .ok record ∧
      Sample.records.sourceOf record = .ok Sample.pageSource ∧
      Sample.records.decode record = .ok Sample.page ∧
      ∀ used, (Sample.records.readInto record).run used = (.ok (), Sample.page) := by
  have named : Sample.plan.sourceNamed "pages" = .ok Sample.pageSource := eq_valueOf _
  have member : Sample.pageSource ∈ Sample.plan.sources.values := by
    obtain ⟨_, planned, _⟩ := (Plan.sourceNamed_eq_ok (Plan.build_sound Sample.built).1).mp named
    exact planned.inPlan
  have carried : Sample.page.schema = Sample.pageSource.schema := rfl
  have succeeds : ((Sample.records.write Sample.page).run ⟨[], [7]⟩).1 = .ok () := by decide +kernel
  exact RecordCodec.read_written Sample.built Sample.made member carried Sample.keeps_page
    (Prod.ext succeeds rfl) (by decide +kernel)

end Cogrouping
