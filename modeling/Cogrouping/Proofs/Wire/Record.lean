import Cogrouping.Proofs.Row
import Cogrouping.Proofs.Wire.Field
import Cogrouping.Wire.Record

/-!
Laws of writing whole records. A record is a row of items, one for each common and each specific field,
and a tuple has a record exactly if it is a row of the plan whose items have bytes.
-/

namespace Cogrouping

inductive Cell.Written (codec : FieldCodec) (field : Field) : Cell → Bytes → Prop
  | sourceId (id : SourceId) : field.isSourceId = true →
      Written codec field (.sourceId id) (Varint.encodeSourceId id)
  | value {value : Value} {bytes : Bytes} : field.isSourceId = false →
      codec.Written field.type value bytes → Written codec field (.value value) bytes

structure Item (codec : FieldCodec) where
  field : Field
  cell : Cell
  bytes : Bytes
  written : cell.Written codec field bytes

namespace Item

variable {codec : FieldCodec}

def join (items : List (Item codec)) : Bytes := items.flatMap Item.bytes

@[simp] theorem join_nil : join ([] : List (Item codec)) = [] := rfl

@[simp] theorem join_cons (item : Item codec) (items : List (Item codec)) :
    join (item :: items) = item.bytes ++ join items := rfl

@[simp] theorem join_append (items others : List (Item codec)) :
    join (items ++ others) = join items ++ join others := List.flatMap_append

structure Readable (item : Item codec) : Prop where
  fits : item.bytes.length < 0x8000000000000000
  known : ∀ value, item.cell = .value value → codec.Knows item.field.type
  kept : ∀ value, item.cell = .value value → codec.Keeps item.field.type value

theorem fits (item : Item codec) : item.cell.Fits item.field := by
  obtain ⟨field, cell, bytes, written⟩ := item
  cases written with
  | sourceId id marked => exact .sourceId id marked
  | value unmarked written => exact .value unmarked written.conforms

end Item

namespace RecordCodec

variable {codec : FieldCodec} {plan : Plan}

structure Holds (items : List (Item codec)) (fields : List Field) (cells : List Cell) : Prop where
  fields : items.map Item.field = fields
  cells : items.map Item.cell = cells

theorem encodeSlot_eq_ok {schema : Schema} {tuple : Tuple} {source : SourceId} {field : Field}
    {slot : Slot} {buffers after : Buffers} (feeds : Slot.Feeds schema field slot)
    (done : outcome (encodeSlot codec tuple source field slot) buffers = (.ok (), after)) :
    ∃ item : Item codec, item.field = field ∧ item.cell = slot.cell tuple source ∧
      after.out = buffers.out ++ item.bytes := by
  cases feeds with
  | sourceId marked =>
      simp only [encodeSlot, Writing.outcome_append, Prod.mk.injEq, true_and] at done
      exact ⟨⟨field, _, _, .sourceId source marked⟩, rfl, rfl, by rw [← done]⟩
  | @field position declared unmarked found named typed =>
      rw [encodeSlot] at done
      obtain ⟨value, between, required, done⟩ := outcome_bind_eq_ok.mp done
      rw [outcome_ofExcept, Prod.mk.injEq] at required
      obtain ⟨required, rfl⟩ := required
      obtain ⟨scratch, appended⟩ := codec.appends_encode field value buffers
      rw [appended, Prod.mk.injEq] at done
      obtain ⟨succeeded, rfl⟩ := done
      cases written : codec.bytesOf field value with
      | error cause => simp [written, Except.map] at succeeded
      | ok bytes =>
          have cell : Slot.cell tuple source (.field position) = .value value := by
            rw [Slot.cell, Tuple.require_eq_ok.mp required, Option.getD_some]
          refine ⟨⟨field, .value value, bytes, .value unmarked ?_⟩, rfl, cell.symm, rfl⟩
          exact FieldCodec.bytesOf_eq_ok.mp written

theorem encodeSlots_eq_ok {schema : Schema} {tuple : Tuple} {source : SourceId} {fields : List Field}
    {slots : List Slot} (feeds : List.Forall₂ (Slot.Feeds schema) fields slots)
    {buffers after : Buffers}
    (done : outcome (encodeSlots codec tuple source fields slots) buffers = (.ok (), after)) :
    ∃ items : List (Item codec), Holds items fields (slots.map (Slot.cell tuple source)) ∧
      after.out = buffers.out ++ Item.join items := by
  induction feeds generalizing buffers with
  | nil =>
      simp only [encodeSlots, outcome_pure, Prod.mk.injEq, true_and] at done
      exact ⟨[], ⟨rfl, rfl⟩, by simp [done]⟩
  | cons first _ ih =>
      rw [encodeSlots] at done
      obtain ⟨_, between, here, done⟩ := outcome_bind_eq_ok.mp done
      obtain ⟨item, field, cell, out⟩ := encodeSlot_eq_ok first here
      obtain ⟨items, holds, rest⟩ := ih done
      refine ⟨item :: items, ⟨?_, ?_⟩, ?_⟩
      · rw [List.map_cons, field, holds.fields]
      · rw [List.map_cons, cell, holds.cells, List.map_cons]
      · rw [rest, out, Item.join_cons, List.append_assoc]

theorem encodeSlots_append (tuple : Tuple) (source : SourceId) {fields : List Field}
    {slots : List Slot} (same : fields.length = slots.length) (others : List Field) (more : List Slot) :
    encodeSlots codec tuple source (fields ++ others) (slots ++ more) =
      encodeSlots codec tuple source fields slots >>= fun _ =>
        encodeSlots codec tuple source others more := by
  induction fields generalizing slots with
  | nil =>
      obtain rfl := List.eq_nil_of_length_eq_zero same.symm
      rfl
  | cons field fields ih =>
      cases slots with
      | nil => cases same
      | cons slot slots =>
          rw [List.cons_append, List.cons_append, encodeSlots, encodeSlots, bind_assoc,
            ih (Nat.succ.inj same)]

theorem encodeSlots_holds (row : Row plan) {fields : List Field} {slots : List Slot}
    (feeds : List.Forall₂ (Slot.Feeds row.source.schema) fields slots) {items : List (Item codec)}
    (holds : Holds items fields (row.cells slots)) (buffers : Buffers) :
    ∃ scratch, outcome (encodeSlots codec row.tuple row.id fields slots) buffers =
      (.ok (), { scratch, out := buffers.out ++ Item.join items }) := by
  induction feeds generalizing items buffers with
  | nil =>
      have none : items = [] := List.map_eq_nil_iff.mp holds.fields
      exact ⟨buffers.scratch, by simp [encodeSlots, none]⟩
  | @cons field slot _ _ first _ ih =>
      obtain ⟨sameFields, sameCells⟩ := holds
      obtain ⟨item, rest, rfl, sameField, laterFields⟩ := List.map_eq_cons_iff.mp sameFields
      obtain ⟨sameCell, laterCells⟩ := List.cons_eq_cons.mp sameCells
      obtain ⟨itemField, cell, bytes, written⟩ := item
      simp only at sameField sameCell
      subst sameField sameCell
      have here : ∃ scratch, outcome (encodeSlot codec row.tuple row.id itemField slot) buffers =
          (.ok (), { scratch, out := buffers.out ++ bytes }) := by
        cases slot with
        | sourceId =>
            cases written with
            | sourceId id marked => exact ⟨buffers.scratch, rfl⟩
        | field position =>
            obtain ⟨value, required, _, _, cell⟩ := row.require_of_feeds first
            rw [cell] at written
            cases written with
            | value unmarked written =>
                obtain ⟨scratch, appended⟩ := codec.appends_encode itemField value buffers
                rw [FieldCodec.bytesOf_eq_ok.mpr written] at appended
                refine ⟨scratch, ?_⟩
                rw [encodeSlot, required, outcome_bind_of_ok (outcome_ofExcept _ _)]
                exact appended
      obtain ⟨scratch, here⟩ := here
      obtain ⟨last, later⟩ := ih ⟨laterFields, laterCells⟩ { scratch, out := buffers.out ++ bytes }
      refine ⟨last, ?_⟩
      rw [encodeSlots, outcome_bind_of_ok here, later, Item.join_cons, List.append_assoc]

structure Encoding (codec : FieldCodec) (row : Row plan) (record : Bytes) where
  common : List (Item codec)
  specific : List (Item codec)
  holdsCommon : Holds common plan.common.fields row.commonCells
  holdsSpecific : Holds specific row.source.specific.fields row.specificCells
  bytes : record = Item.join common ++ Item.join specific

theorem Holds.places {schema : Schema} {tuple : Tuple} {source : SourceId} {fields : List Field}
    {slots : List Slot} {items : List (Item codec)}
    (holds : Holds items fields (slots.map (Slot.cell tuple source)))
    (feeds : List.Forall₂ (Slot.Feeds schema) fields slots) :
    List.Forall₂ (fun item slot => Slot.Feeds schema item.field slot ∧
      item.cell = slot.cell tuple source) items slots := by
  obtain ⟨rfl, sameCells⟩ := holds
  rw [List.forall₂_map_left_iff] at feeds
  rw [← List.forall₂_eq_eq_eq, List.forall₂_map_left_iff, List.forall₂_map_right_iff] at sameCells
  exact feeds.mp (fun _ _ fed taken => ⟨fed, taken⟩) sameCells

namespace Encoding

variable {row : Row plan} {record : Bytes}

structure Readable (encoding : Encoding codec row record) : Prop where
  common : ∀ item ∈ encoding.common, item.Readable
  specific : ∀ item ∈ encoding.specific, item.Readable

theorem bytes_of_marked (encoding : Encoding codec row record) {item : Item codec}
    (member : item ∈ encoding.common) (marked : item.field.isSourceId = true) :
    item.cell = .sourceId row.id ∧ item.bytes = Varint.encodeSourceId row.id := by
  obtain ⟨slot, _, _, taken⟩ :=
    (encoding.holdsCommon.places row.planned.sound.feedsCommon).exists_right member
  obtain ⟨field, cell, bytes, written⟩ := item
  simp only at marked taken ⊢
  cases written with
  | sourceId id _ =>
      cases slot with
      | sourceId =>
          cases taken
          exact ⟨rfl, rfl⟩
      | field position => simp [Slot.cell] at taken
  | value unmarked _ => simp [marked] at unmarked

end Encoding

theorem conforms_of_holds {schema : Schema} {tuple : Tuple} {source : SourceId} {fields : List Field}
    {slots : List Slot} (feeds : List.Forall₂ (Slot.Feeds schema) fields slots)
    {items : List (Item codec)} (holds : Holds items fields (slots.map (Slot.cell tuple source)))
    {position : Nat} (member : .field position ∈ slots) {declared : Field} {value : Value}
    (found : schema.fields[position]? = some declared) (held : tuple.get? position = some value) :
    value.conformsTo declared.type = true := by
  obtain ⟨item, _, fed, taken⟩ := (holds.places feeds).exists_left member
  have fits := item.fits
  rw [taken, Slot.cell, held, Option.getD_some] at fits
  cases fed with
  | field unmarked atPosition named typed =>
      rw [found, Option.some.injEq] at atPosition
      cases fits with
      | value _ conforms => exact atPosition ▸ typed ▸ conforms

variable {records : RecordCodec} {tuple : Tuple}

theorem outcome_write (sound : records.plan.Sound) {source : SourcePlan}
    (named : records.plan.sourceNamed tuple.schema.name = .ok source)
    (sized : tuple.size = source.schema.size) (buffers : Buffers) :
    outcome (records.write tuple) buffers =
      outcome (encodeSlots records.fields tuple source.id records.plan.common.fields
          source.commonSlots >>= fun _ =>
        encodeSlots records.fields tuple source.id source.specific.fields
          (source.specificPositions.map .field)) buffers := by
  obtain ⟨declared, planned, _⟩ := (Plan.sourceNamed_eq_ok sound).mp named
  have slots : source.commonSlots.length = records.plan.common.size :=
    planned.sound.feedsCommon.length_eq.symm
  rw [write, named, outcome_bind_of_ok (outcome_ofExcept _ _)]
  simp only [sized, encodeAs, slots, ne_eq, not_true_eq_false, if_false]

theorem write_sized {buffers after : Buffers}
    (done : outcome (records.write tuple) buffers = (.ok (), after)) :
    ∃ source, records.plan.sourceNamed tuple.schema.name = .ok source ∧
      tuple.size = source.schema.size := by
  rw [write] at done
  obtain ⟨source, between, named, done⟩ := outcome_bind_eq_ok.mp done
  rw [outcome_ofExcept, Prod.mk.injEq] at named
  by_cases sized : tuple.size = source.schema.size
  · exact ⟨source, named.1, sized⟩
  · simp [sized] at done

theorem write_eq_ok (sound : records.plan.Sound) {buffers after : Buffers}
    (done : outcome (records.write tuple) buffers = (.ok (), after)) :
    ∃ (row : Row records.plan) (record : Bytes), row.tuple = tuple ∧
      after.out = buffers.out ++ record ∧ Nonempty (Encoding records.fields row record) := by
  obtain ⟨source, named, sized⟩ := write_sized done
  obtain ⟨declared, planned, sameName⟩ := (Plan.sourceNamed_eq_ok sound).mp named
  have feedsCommon := planned.sound.feedsCommon
  have feedsSpecific := planned.sound.feedsSpecific
  rw [outcome_write sound named sized] at done
  obtain ⟨_, between, first, done⟩ := outcome_bind_eq_ok.mp done
  obtain ⟨common, holdsCommon, outCommon⟩ := encodeSlots_eq_ok feedsCommon first
  obtain ⟨specific, holdsSpecific, outSpecific⟩ := encodeSlots_eq_ok feedsSpecific done
  have conforms : List.Forall₂ (fun field value => value.conformsTo field.type = true)
      source.schema.fields tuple.values := by
    refine List.forall₂_of_length_eq_of_get sized.symm fun position insideFields insideValues => ?_
    have found : source.schema.fields[position]? = some source.schema.fields[position] :=
      List.getElem?_eq_getElem insideFields
    have held : tuple.get? position = some tuple.values[position] :=
      List.getElem?_eq_getElem insideValues
    rcases List.mem_append.mp (planned.sound.covers position insideFields) with member | member
    · exact conforms_of_holds feedsCommon holdsCommon member found held
    · exact conforms_of_holds feedsSpecific holdsSpecific member found held
  refine ⟨{ tuple, declared, source, planned, named := sameName.symm, conforms },
    Item.join common ++ Item.join specific, rfl, ?_, ⟨common, specific, holdsCommon, holdsSpecific,
    rfl⟩⟩
  rw [outSpecific, outCommon, List.append_assoc]

theorem write_row (sound : records.plan.Sound) {row : Row records.plan} {record : Bytes}
    (encoding : Encoding records.fields row record) (buffers : Buffers) :
    ∃ scratch, outcome (records.write row.tuple) buffers =
      (.ok (), { scratch, out := buffers.out ++ record }) := by
  obtain ⟨between, first⟩ := encodeSlots_holds row row.planned.sound.feedsCommon
    encoding.holdsCommon buffers
  obtain ⟨last, later⟩ := encodeSlots_holds row row.planned.sound.feedsSpecific
    encoding.holdsSpecific { scratch := between, out := buffers.out ++ Item.join encoding.common }
  refine ⟨last, ?_⟩
  rw [outcome_write sound (row.sourceNamed sound) row.conforms.length_eq.symm, encoding.bytes,
    ← List.append_assoc, ← later]
  exact outcome_bind_of_ok first

theorem encode_eq_ok (sound : records.plan.Sound) {record : Bytes} :
    records.encode tuple = .ok record ↔
      ∃ row : Row records.plan, row.tuple = tuple ∧ Nonempty (Encoding records.fields row record) := by
  have unfolded : records.encode tuple =
      (outcome (records.write tuple) ⟨[], []⟩).1.map fun _ =>
        (outcome (records.write tuple) ⟨[], []⟩).2.out := rfl
  rw [unfolded]
  constructor
  · intro encoded
    cases done : outcome (records.write tuple) ⟨[], []⟩ with
    | mk result after =>
        cases result with
        | error cause => simp [done, Except.map] at encoded
        | ok =>
            obtain ⟨row, appended, same, out, encoding⟩ := write_eq_ok sound done
            rw [done, out] at encoded
            cases encoded
            exact ⟨row, same, encoding⟩
  · rintro ⟨row, rfl, ⟨encoding⟩⟩
    obtain ⟨scratch, done⟩ := write_row sound encoding ⟨[], []⟩
    rw [done]
    rfl

end RecordCodec

end Cogrouping
