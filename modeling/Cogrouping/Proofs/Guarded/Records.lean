import Cogrouping.Proofs.Guarded.Fields

/-!
Finding the source of a record and reading it, with operations that may go astray. The cursor stays within a
record that is short enough, whatever bytes the record holds.
-/

namespace Cogrouping

abbrev GuardedFilling := ExceptT Error (StateT Tuple (Except Trap))

namespace GuardedFilling

variable {α β : Type}

def ofGuarded (guarded : Guarded α) : GuardedFilling α :=
  ExceptT.mk fun tuple => guarded.run.map fun result => (result, tuple)

def Safe (guarded : GuardedFilling α) (action : RecordCodec.Filling α) (tuple : Tuple) : Prop :=
  guarded.run.run tuple = .ok (outcome action tuple)

namespace Safe

variable {guarded : GuardedFilling α} {action : RecordCodec.Filling α} {tuple : Tuple}
  {next : α → GuardedFilling β} {later : α → RecordCodec.Filling β}

theorem bind (first : Safe guarded action tuple)
    (rest : ∀ value after, outcome action tuple = (.ok value, after) →
      Safe (next value) (later value) after) :
    Safe (guarded >>= next) (action >>= later) tuple := by
  rw [Safe] at first
  rw [Safe, ExceptT.run_bind, StateT.run_bind, first, ok_bind]
  cases done : outcome action tuple with
  | mk result after =>
      cases result with
      | error cause =>
          rw [outcome_bind_of_error done]
          rfl
      | ok value =>
          rw [outcome_bind_of_ok done]
          exact rest value after done

theorem pure (value : α) (tuple : Tuple) : Safe (pure value) (pure value) tuple := rfl

theorem get (tuple : Tuple) : Safe get get tuple := rfl

theorem set (filled tuple : Tuple) : Safe (set filled) (set filled) tuple := rfl

theorem ofGuarded {checked : Guarded α} {result : Except Error α} (safe : checked.Safe result)
    (tuple : Tuple) :
    Safe (.ofGuarded checked) (ofExcept result) tuple := by
  rw [Safe, outcome_ofExcept]
  exact congrArg (Except.map fun result => (result, tuple)) safe

theorem step {checked : Guarded β} {value : β} {next : β → GuardedFilling α} (safe : checked.Safe (.ok value))
    (rest : Safe (next value) action tuple) : Safe (.ofGuarded checked >>= next) action tuple := by
  have first : Safe (.ofGuarded checked) (ofExcept (.ok value)) tuple := .ofGuarded safe tuple
  have passed : Safe (.ofGuarded checked >>= next) (ofExcept (.ok value) >>= fun _ => action) tuple := by
    refine first.bind fun found after done => ?_
    cases done
    exact rest
  exact passed

end Safe

end GuardedFilling

namespace Guarded

def skipFields (codec : FieldCodec) (buffer : Bytes) : Nat → List Field → Guarded Nat
  | offset, [] => return offset
  | offset, field :: rest => do
      let size ← skip codec buffer offset field.type
      skipFields codec buffer (← advance buffer offset size) rest

def sourceOf (records : RecordCodec) (record : Bytes) : Guarded SourcePlan :=
  match records.plan.sourceIdPosition? with
  | none =>
      match records.plan.sources.values.head? with
      | some source => return source
      | none => fail (.invariant .noSources)
  | some position => do
      let leading ← range records.plan.common.fields 0 position
      let offset ← skipFields records.fields record 0 leading
      let (id, _) ← readSourceId record offset
      match records.plan.source? id with
      | some source => return source
      | none => fail (.unknownSource (.numbered id))

def decodeSlot (codec : FieldCodec) (record : Bytes) (offset : Nat) (field : Field) :
    Slot → GuardedFilling Nat
  | .sourceId => do
      let (_, size) ← .ofGuarded (readSourceId record offset)
      return size
  | .field position => do
      let (value, size) ← .ofGuarded (decode codec record offset field.type)
      set (← .ofGuarded (ofResult ((← get).set position value)))
      return size

def decodeSlots (codec : FieldCodec) (record : Bytes) :
    Nat → List Field → List Slot → GuardedFilling Nat
  | offset, field :: fields, slot :: slots => do
      let size ← decodeSlot codec record offset field slot
      decodeSlots codec record (← .ofGuarded (advance record offset size)) fields slots
  | offset, _, _ => return offset

def readInto (records : RecordCodec) (record : Bytes) : GuardedFilling Unit := do
  let source ← .ofGuarded (sourceOf records record)
  set (Tuple.blank source.schema)
  let offset ← decodeSlots records.fields record 0 records.plan.common.fields source.commonSlots
  let offset ← decodeSlots records.fields record offset source.specific.fields
    (source.specificPositions.map Slot.field)
  if offset ≠ record.length then
    let trailing ← .ofGuarded (sub record.length offset)
    .ofGuarded (fail (.codec (.trailingBytes trailing source.name)))

theorem decodeSlot_bounds {codec : FieldCodec} {record : Bytes} {offset size : Nat} {field : Field}
    {slot : Slot} {tuple after : Tuple}
    (done : outcome (RecordCodec.decodeSlot codec record offset field slot) tuple = (.ok size, after)) :
    offset + size ≤ record.length := by
  cases slot with
  | sourceId =>
      rw [RecordCodec.decodeSlot] at done
      obtain ⟨⟨id, width⟩, _, read, done⟩ := outcome_bind_eq_ok.mp done
      rw [outcome_ofExcept, Prod.mk.injEq] at read
      cases done
      exact Varint.readSourceId_bounds read.1
  | field position =>
      rw [RecordCodec.decodeSlot] at done
      obtain ⟨⟨value, width⟩, _, read, done⟩ := outcome_bind_eq_ok.mp done
      obtain ⟨seen, _, got, done⟩ := outcome_bind_eq_ok.mp done
      obtain ⟨next, _, stored, done⟩ := outcome_bind_eq_ok.mp done
      rw [outcome_ofExcept, Prod.mk.injEq] at read
      cases done
      exact (FieldCodec.decode_measures read.1).inside

theorem decodeSlots_bounds {codec : FieldCodec} {record : Bytes} {fields : List Field} {offset stop : Nat}
    {slots : List Slot} {tuple after : Tuple} (inside : offset ≤ record.length)
    (done : outcome (RecordCodec.decodeSlots codec record offset fields slots) tuple = (.ok stop, after)) :
    stop ≤ record.length := by
  induction fields generalizing offset slots tuple with
  | nil =>
      cases done
      exact inside
  | cons field fields ih =>
      cases slots with
      | nil =>
          cases done
          exact inside
      | cons slot slots =>
          rw [RecordCodec.decodeSlots] at done
          obtain ⟨size, between, here, done⟩ := outcome_bind_eq_ok.mp done
          exact ih (decodeSlot_bounds here) done

variable {record : Bytes} (short : record.Short)
include short

theorem skipFields_safe {codec : FieldCodec} {offset : Nat} (inside : offset ≤ record.length)
    (fields : List Field) :
    Safe (skipFields codec record offset fields) (RecordCodec.skipFields codec record offset fields) := by
  induction fields generalizing offset with
  | nil => exact .pure _
  | cons field fields ih =>
      refine (skip_safe short inside field.type).bind fun size skipped => ?_
      have reaches := FieldCodec.skip_bounds skipped
      exact (advance_safe short reaches).step (ih reaches)

theorem sourceOf_safe {records : RecordCodec} (sound : records.plan.Sound) :
    Safe (sourceOf records record) (records.sourceOf record) := by
  rw [sourceOf, RecordCodec.sourceOf]
  cases marks : records.plan.sourceIdPosition? with
  | none =>
      cases records.plan.sources.values.head? with
      | none => exact .fail _
      | some source => exact .pure _
  | some position =>
      refine (range_safe (Nat.zero_le _) (Nat.le_of_lt (sound.sourceIdPosition?_lt marks))).step ?_
      refine (skipFields_safe short (Nat.zero_le _) _).bind fun offset _ => ?_
      refine (readSourceId_safe short offset).bind fun found _ => ?_
      obtain ⟨id, size⟩ := found
      dsimp only
      cases records.plan.source? id with
      | none => exact .fail _
      | some source => exact .pure _

theorem decodeSlot_safe {codec : FieldCodec} {offset : Nat} (inside : offset ≤ record.length) (field : Field)
    (slot : Slot) (tuple : Tuple) :
    (decodeSlot codec record offset field slot).Safe
      (RecordCodec.decodeSlot codec record offset field slot) tuple := by
  cases slot with
  | sourceId =>
      exact (GuardedFilling.Safe.ofGuarded (readSourceId_safe short offset) tuple).bind
        fun _ _ _ => .pure _ _
  | field position =>
      refine (GuardedFilling.Safe.ofGuarded (decode_safe short inside field.type) tuple).bind
        fun ⟨value, size⟩ between _ => ?_
      refine (GuardedFilling.Safe.get between).bind fun seen after _ => ?_
      refine (GuardedFilling.Safe.ofGuarded (.ofResult _) after).bind fun filled last _ => ?_
      exact (GuardedFilling.Safe.set filled last).bind fun _ _ _ => .pure _ _

theorem decodeSlots_safe {codec : FieldCodec} {offset : Nat} (inside : offset ≤ record.length)
    (fields : List Field) (slots : List Slot) (tuple : Tuple) :
    (decodeSlots codec record offset fields slots).Safe
      (RecordCodec.decodeSlots codec record offset fields slots) tuple := by
  induction fields generalizing offset slots tuple with
  | nil => exact .pure _ _
  | cons field fields ih =>
      cases slots with
      | nil => exact .pure _ _
      | cons slot slots =>
          refine (decodeSlot_safe short inside field slot tuple).bind fun size between done => ?_
          have reaches := decodeSlot_bounds done
          exact .step (advance_safe short reaches) (ih reaches slots between)

theorem readInto_safe {records : RecordCodec} (sound : records.plan.Sound) (tuple : Tuple) :
    (readInto records record).Safe (records.readInto record) tuple := by
  refine (GuardedFilling.Safe.ofGuarded (sourceOf_safe short sound) tuple).bind fun source between _ => ?_
  refine (GuardedFilling.Safe.set _ between).bind fun _ blank _ => ?_
  refine (decodeSlots_safe short (Nat.zero_le _) _ _ blank).bind fun offset half first => ?_
  have common := decodeSlots_bounds (Nat.zero_le _) first
  refine (decodeSlots_safe short common _ _ half).bind fun stop last second => ?_
  have within := decodeSlots_bounds common second
  split
  · exact .step (sub_safe within) (.ofGuarded (.fail _) last)
  · exact .pure _ _

end Guarded

end Cogrouping
