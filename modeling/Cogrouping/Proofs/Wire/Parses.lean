import Cogrouping.Proofs.Plan.Split
import Cogrouping.Proofs.Row
import Cogrouping.Proofs.Wire.Spelling
import Cogrouping.Wire.Record

/-!
Reading whole records. What a walk over a record finds is told by the cells it reads: which bytes fill
the slots of a tuple, which source they name, and where they end.
-/

namespace Cogrouping

open Bytes (At)
open Varint (SpellsSize)

/-- Slots fill a tuple from bytes, which hold one cell for every field. -/
inductive Reads (codec : FieldCodec) :
    Tuple → List Field → List Slot → List Cell → Bytes → Tuple → Prop
  | nil (filled : Tuple) : Reads codec filled [] [] [] [] filled
  | sourceId {filled last : Tuple} {field : Field} {fields : List Field} {slots : List Slot}
      {cells : List Cell} {id : SourceId} {bytes rest : Bytes} :
      SpellsSize id.number.toNat bytes → Reads codec filled fields slots cells rest last →
      Reads codec filled (field :: fields) (.sourceId :: slots) (.sourceId id :: cells)
        (bytes ++ rest) last
  | value {filled next last : Tuple} {field : Field} {fields : List Field} {position : Nat}
      {slots : List Slot} {value : Value} {cells : List Cell} {bytes rest : Bytes} :
      codec.Spelled field.type value bytes → filled.set position value = .ok next →
      Reads codec next fields slots cells rest last →
      Reads codec filled (field :: fields) (.field position :: slots) (.value value :: cells)
        (bytes ++ rest) last

namespace RecordCodec

variable {codec : FieldCodec} {buffer : Bytes} {offset stop : Nat} {filled last : Tuple}
variable {fields : List Field} {slots : List Slot}

theorem decodeSlots_eq_ok (same : fields.length = slots.length) (inside : offset ≤ buffer.length) :
    outcome (decodeSlots codec buffer offset fields slots) filled = (.ok stop, last) ↔
      ∃ cells bytes, At buffer offset bytes ∧ stop = offset + bytes.length ∧
        Reads codec filled fields slots cells bytes last := by
  constructor
  · intro done
    induction fields generalizing offset slots filled with
    | nil =>
        obtain rfl := List.eq_nil_of_length_eq_zero same.symm
        simp only [decodeSlots, outcome_pure, Prod.mk.injEq, Except.ok.injEq] at done
        obtain ⟨rfl, rfl⟩ := done
        exact ⟨[], [], Bytes.at_nil inside, rfl, .nil _⟩
    | cons field fields ih =>
        cases slots with
        | nil => cases same
        | cons slot slots =>
            rw [decodeSlots] at done
            obtain ⟨size, between, here, done⟩ := outcome_bind_eq_ok.mp done
            cases slot with
            | sourceId =>
                rw [decodeSlot] at here
                obtain ⟨⟨id, width⟩, _, read, here⟩ := outcome_bind_eq_ok.mp here
                rw [outcome_ofExcept, Prod.mk.injEq] at read
                obtain ⟨read, rfl⟩ := read
                obtain ⟨bytes, stands, rfl, spells⟩ := Varint.readSourceId_eq_ok.mp read
                cases here
                obtain ⟨cells, rest, behind, rfl, reads⟩ :=
                  ih (Nat.succ.inj same) stands.reaches done
                refine ⟨_, bytes ++ rest, Bytes.at_append.mpr ⟨stands, behind⟩, ?_,
                  .sourceId spells reads⟩
                rw [List.length_append, Nat.add_assoc]
            | field position =>
                rw [decodeSlot] at here
                obtain ⟨⟨value, width⟩, _, read, here⟩ := outcome_bind_eq_ok.mp here
                rw [outcome_ofExcept, Prod.mk.injEq] at read
                obtain ⟨read, rfl⟩ := read
                obtain ⟨bytes, stands, rfl, spelled⟩ := FieldCodec.decode_eq_ok.mp read
                obtain ⟨seen, _, got, here⟩ := outcome_bind_eq_ok.mp here
                cases got
                obtain ⟨next, _, stored, here⟩ := outcome_bind_eq_ok.mp here
                rw [outcome_ofExcept, Prod.mk.injEq] at stored
                obtain ⟨stored, rfl⟩ := stored
                cases here
                obtain ⟨cells, rest, behind, rfl, reads⟩ :=
                  ih (Nat.succ.inj same) stands.reaches done
                refine ⟨_, bytes ++ rest, Bytes.at_append.mpr ⟨stands, behind⟩, ?_,
                  .value spelled stored reads⟩
                rw [List.length_append, Nat.add_assoc]
  · rintro ⟨cells, bytes, stands, rfl, reads⟩
    clear same inside
    induction reads generalizing offset with
    | nil filled => rfl
    | @sourceId filled last field fields slots cells id bytes rest spells _ ih =>
        obtain ⟨stands, behind⟩ := Bytes.at_append.mp stands
        have read := Varint.readSourceId_eq_ok.mpr ⟨bytes, stands, rfl, spells⟩
        rw [decodeSlots, decodeSlot, read, List.length_append, ← Nat.add_assoc]
        exact ih behind
    | @value filled next last field fields position slots value cells bytes rest spelled stored _ ih =>
        obtain ⟨stands, behind⟩ := Bytes.at_append.mp stands
        have read := FieldCodec.decode_eq_ok.mpr ⟨bytes, stands, rfl, spelled⟩
        have here : outcome (decodeSlot codec buffer offset field (.field position)) filled =
            (.ok bytes.length, next) := by
          rw [decodeSlot, read, outcome_bind_of_ok (outcome_ofExcept _ _),
            outcome_bind_of_ok (outcome_get _)]
          simp only [stored]
          rfl
        rw [decodeSlots, outcome_bind_of_ok here, List.length_append, ← Nat.add_assoc]
        exact ih behind

theorem decodeSlots_append (same : fields.length = slots.length) (others : List Field)
    (more : List Slot) :
    decodeSlots codec buffer offset (fields ++ others) (slots ++ more) =
      decodeSlots codec buffer offset fields slots >>= fun between =>
        decodeSlots codec buffer between others more := by
  induction fields generalizing offset slots with
  | nil =>
      obtain rfl := List.eq_nil_of_length_eq_zero same.symm
      rfl
  | cons field fields ih =>
      cases slots with
      | nil => cases same
      | cons slot slots =>
          rw [List.cons_append, List.cons_append, decodeSlots, decodeSlots, bind_assoc]
          exact congrArg _ (funext fun size => ih (Nat.succ.inj same))

end RecordCodec

namespace Reads

variable {codec : FieldCodec} {buffer bytes : Bytes} {offset : Nat} {filled last : Tuple}
variable {fields others : List Field} {slots : List Slot} {cells : List Cell}

theorem exists_append (reads : Reads codec filled (fields ++ others) slots cells bytes last) :
    ∃ firstSlots moreSlots firstCells moreCells first more between,
      slots = firstSlots ++ moreSlots ∧ cells = firstCells ++ moreCells ∧ bytes = first ++ more ∧
      Reads codec filled fields firstSlots firstCells first between ∧
      Reads codec between others moreSlots moreCells more last := by
  induction fields generalizing filled slots cells bytes with
  | nil => exact ⟨[], slots, [], cells, [], bytes, filled, rfl, rfl, rfl, .nil filled, reads⟩
  | cons field fields ih =>
      cases reads with
      | sourceId spells reads =>
          obtain ⟨firstSlots, moreSlots, firstCells, moreCells, first, more, between, rfl, rfl, rfl,
            begins, goesOn⟩ := ih reads
          exact ⟨_, moreSlots, _, moreCells, _, more, between, rfl, rfl,
            (List.append_assoc _ _ _).symm, .sourceId spells begins, goesOn⟩
      | value spelled stored reads =>
          obtain ⟨firstSlots, moreSlots, firstCells, moreCells, first, more, between, rfl, rfl, rfl,
            begins, goesOn⟩ := ih reads
          exact ⟨_, moreSlots, _, moreCells, _, more, between, rfl, rfl,
            (List.append_assoc _ _ _).symm, .value spelled stored begins, goesOn⟩

theorem lengths (reads : Reads codec filled fields slots cells bytes last) :
    slots.length = fields.length ∧ cells.length = fields.length := by
  induction reads with
  | nil => exact ⟨rfl, rfl⟩
  | sourceId _ _ ih => simpa using ih
  | value _ _ _ ih => simpa using ih

theorem marked (reads : Reads codec filled fields slots cells bytes last) {place : Nat}
    {id : SourceId} (held : cells[place]? = some (.sourceId id)) : slots[place]? = some .sourceId := by
  induction reads generalizing place with
  | nil => cases held
  | sourceId _ _ ih =>
      cases place with
      | zero => rfl
      | succ place => exact ih held
  | value _ _ _ ih =>
      cases place with
      | zero => cases held
      | succ place => exact ih held

theorem skipFields (reads : Reads codec filled fields slots cells bytes last)
    (unmarked : .sourceId ∉ slots) (stands : At buffer offset bytes) :
    RecordCodec.skipFields codec buffer offset fields = .ok (offset + bytes.length) := by
  induction reads generalizing offset with
  | nil => rfl
  | sourceId => exact absurd List.mem_cons_self unmarked
  | value spelled _ _ ih =>
      obtain ⟨stands, behind⟩ := Bytes.at_append.mp stands
      have later := ih (fun member => unmarked (List.mem_cons_of_mem _ member)) behind
      rw [RecordCodec.skipFields, spelled.skip stands, ok_bind, later, List.length_append,
        Nat.add_assoc]

end Reads

namespace Plan.Planned

variable {plan : Plan} {declared : Source} {source : SourcePlan}

theorem marked_iff (sound : plan.Sound) (planned : plan.Planned declared source) {place : Nat} :
    source.slots[place]? = some .sourceId ↔ plan.sourceIdPosition? = some place := by
  rw [sound.sourceIdPosition?_eq_some, Schema.names,
    ← Slot.sourceId_iff_of_feeds planned.sound.feedsCommon, SourcePlan.slots, List.getElem?_append]
  split
  · rfl
  · rename_i behind
    simp [List.getElem?_eq_none (Nat.not_lt.mp behind)]

theorem unmarked_take (sound : plan.Sound) (planned : plan.Planned declared source) {position place : Nat}
    (marks : plan.sourceIdPosition? = some position) (early : place ≤ position) :
    .sourceId ∉ source.slots.take place := by
  intro member
  obtain ⟨index, inside, found⟩ := List.mem_take_iff_getElem.mp member
  have marked := (planned.marked_iff sound).mp (List.getElem?_eq_some_iff.mpr ⟨by omega, found⟩)
  rw [marks, Option.some.injEq] at marked
  omega

end Plan.Planned

namespace RecordCodec

variable {records : RecordCodec} {declared : Source} {source : SourcePlan} {filled last : Tuple}
variable {cells : List Cell} {bytes : Bytes}

def sourceIn (records : RecordCodec) (cells : List Cell) : Except Error SourcePlan :=
  match records.plan.sourceIdPosition? with
  | none =>
      match records.plan.sources.values.head? with
      | some source => .ok source
      | none => .error (.invariant .noSources)
  | some position =>
      match cells[position]? with
      | some (.sourceId id) =>
          match records.plan.source? id with
          | some source => .ok source
          | none => .error (.unknownSource (.numbered id))
      | _ => .error (.invariant .noSources)

theorem sourceOf_eq_sourceIn (sound : records.plan.Sound)
    (planned : records.plan.Planned declared source)
    (reads : Reads records.fields filled (records.plan.recordFields source) source.slots cells bytes
      last) {buffer : Bytes} (stands : At buffer 0 bytes) :
    records.sourceOf buffer = records.sourceIn cells := by
  unfold sourceOf sourceIn
  cases place : records.plan.sourceIdPosition? with
  | none => rfl
  | some position =>
      have marked := (planned.marked_iff sound).mpr place
      have within : position ≤ records.plan.common.fields.length :=
        Nat.le_of_lt (sound.sourceIdPosition?_lt place)
      have split : records.plan.recordFields source =
          records.plan.common.fields.take position ++
            (records.plan.common.fields.drop position ++ source.specific.fields) := by
        rw [← List.append_assoc, List.take_append_drop, Plan.recordFields]
      rw [split] at reads
      obtain ⟨firstSlots, moreSlots, firstCells, moreCells, first, more, between, slotsEq, rfl, rfl,
        begins, goesOn⟩ := reads.exists_append
      obtain ⟨sizeSlots, sizeCells⟩ := begins.lengths
      rw [List.length_take, Nat.min_eq_left within] at sizeSlots sizeCells
      have unmarked : .sourceId ∉ firstSlots := by
        have front := planned.unmarked_take sound place (Nat.le_refl position)
        rwa [slotsEq, ← sizeSlots, List.take_left] at front
      rw [slotsEq, List.getElem?_append_right (by omega), sizeSlots, Nat.sub_self] at marked
      have held : (firstCells ++ moreCells)[position]? = moreCells[0]? := by
        rw [List.getElem?_append_right (by omega), sizeCells, Nat.sub_self]
      obtain ⟨leading, behind⟩ := Bytes.at_append.mp stands
      have skipped := begins.skipFields unmarked leading
      generalize records.plan.common.fields.drop position ++ source.specific.fields = others at goesOn
      cases goesOn with
      | nil => cases marked
      | value => cases marked
      | @sourceId _ _ _ _ _ _ id idBytes _ spells =>
          have numbered := (Bytes.at_append.mp behind).1
          have read := Varint.readSourceId_eq_ok.mpr ⟨idBytes, numbered, rfl, spells⟩
          simp only [skipped, ok_bind, read, held]
          rfl

theorem id_of_sourceIn (sound : records.plan.Sound)
    (planned : records.plan.Planned declared source)
    (reads : Reads records.fields filled (records.plan.recordFields source) source.slots cells bytes
      last) {found : SourcePlan} (named : records.sourceIn cells = .ok found) {id : SourceId}
    (held : .sourceId id ∈ cells) : id = found.id := by
  obtain ⟨index, held⟩ := List.mem_iff_getElem?.mp held
  have place := (planned.marked_iff sound).mp (reads.marked held)
  simp only [sourceIn, place, held] at named
  cases known : records.plan.source? id with
  | none => simp [known] at named
  | some other =>
      simp only [known, Except.ok.injEq] at named
      obtain ⟨_, _, same⟩ := sound.exists_planned_of_found known
      rw [← same, named]

theorem sourceOf_planned (sound : records.plan.Sound) {record : Bytes}
    (found : records.sourceOf record = .ok source) :
    ∃ declared, records.plan.Planned declared source := by
  rw [sourceOf] at found
  split at found
  · split at found
    · rename_i first
      cases found
      exact sound.exists_declared (List.mem_of_mem_head? first)
    · cases found
  · obtain ⟨offset, _, found⟩ := bind_eq_ok.mp found
    obtain ⟨⟨id, size⟩, _, found⟩ := bind_eq_ok.mp found
    dsimp only at found
    split at found
    · rename_i known
      cases found
      obtain ⟨declared, planned, _⟩ := sound.exists_planned_of_found known
      exact ⟨declared, planned⟩
    · cases found

def Parses (records : RecordCodec) (source : SourcePlan) (record : Bytes) (tuple : Tuple) : Prop :=
  ∃ cells, Reads records.fields (Tuple.blank source.schema) (records.plan.recordFields source)
    source.slots cells record tuple

variable {record : Bytes} {tuple : Tuple}

theorem outcome_readInto (planned : records.plan.Planned declared source) {buffer : Bytes}
    (found : records.sourceOf buffer = .ok source) (used : Tuple) :
    outcome (records.readInto buffer) used =
      outcome (decodeSlots records.fields buffer 0 (records.plan.recordFields source) source.slots >>=
        fun stop => if stop ≠ buffer.length then
          throw (.codec (.trailingBytes (buffer.length - stop) source.name)) else pure ())
        (Tuple.blank source.schema) := by
  have slots : records.plan.common.fields.length = source.commonSlots.length :=
    planned.sound.feedsCommon.length_eq
  rw [readInto, found, outcome_bind_of_ok (outcome_ofExcept _ _),
    outcome_bind_of_ok (outcome_set _ _), Plan.recordFields, SourcePlan.slots,
    decodeSlots_append slots, bind_assoc]

theorem decode_parses (planned : records.plan.Planned declared source) {buffer : Bytes}
    (found : records.sourceOf buffer = .ok source) (stands : At buffer 0 record)
    (parses : records.Parses source record tuple) :
    records.decode buffer = if record.length = buffer.length then .ok tuple
      else .error (.codec (.trailingBytes (buffer.length - record.length) source.name)) := by
  obtain ⟨cells, reads⟩ := parses
  have filled := (decodeSlots_eq_ok planned.feeds.length_eq (Nat.zero_le _)).mpr
    ⟨cells, record, stands, (Nat.zero_add _).symm, reads⟩
  have done := outcome_readInto planned found (Tuple.blank source.schema)
  rw [outcome_bind_of_ok filled] at done
  rw [outcome] at done
  rw [decode, found, ok_bind, done]
  by_cases whole : record.length = buffer.length
  · simp [whole, Except.map]
  · simp [whole, Except.map]

theorem parses_of_decode (sound : records.plan.Sound) (read : records.decode record = .ok tuple) :
    ∃ declared source, records.plan.Planned declared source ∧
      records.sourceOf record = .ok source ∧ records.Parses source record tuple := by
  obtain ⟨source, found, read⟩ := bind_eq_ok.mp read
  obtain ⟨declared, planned⟩ := sourceOf_planned sound found
  refine ⟨declared, source, planned, found, ?_⟩
  have done := outcome_readInto planned found (Tuple.blank source.schema)
  rw [outcome] at done
  rw [done] at read
  cases whole : outcome (decodeSlots records.fields record 0 (records.plan.recordFields source)
      source.slots >>= fun stop => if stop ≠ record.length then
        throw (.codec (.trailingBytes (record.length - stop) source.name)) else pure ())
      (Tuple.blank source.schema) with
  | mk result last =>
      rw [whole] at read
      cases result with
      | error cause => cases read
      | ok =>
          cases read
          obtain ⟨stop, between, filled, ended⟩ := outcome_bind_eq_ok.mp whole
          obtain ⟨cells, bytes, stands, rfl, reads⟩ :=
            (decodeSlots_eq_ok planned.feeds.length_eq (Nat.zero_le _)).mp filled
          by_cases stopped : 0 + bytes.length = record.length
          · rw [if_neg (not_not.mpr stopped)] at ended
            cases ended
            rw [Nat.zero_add] at stopped
            exact ⟨cells, stands.eq_of_length stopped ▸ reads⟩
          · rw [if_pos stopped] at ended
            cases ended

end RecordCodec

end Cogrouping
