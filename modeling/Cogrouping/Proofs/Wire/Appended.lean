import Cogrouping.Proofs.Wire.Checked

/-!
Writing only appends. What a call adds to the output and how it ends depend on what it writes, and not on
what the buffers hold; so what a failed call has left staged does no harm. A value that cannot be written
adds nothing, and a tuple that cannot be written adds the fields in front of the one that failed.
-/

namespace Cogrouping

namespace Writing

/-- An action appends the same bytes to all outputs, whatever is staged, and ends in the same way. -/
def Adds (action : Writing Unit) (result : Except Error Unit) (bytes : Bytes) : Prop :=
  ∀ buffers, (outcome action buffers).1 = result ∧ (outcome action buffers).2.out = buffers.out ++ bytes

namespace Adds

variable {action next : Writing Unit} {result : Except Error Unit} {bytes more : Bytes} {cause : Error}

theorem ok : Adds (pure ()) (.ok ()) [] := fun buffers => ⟨rfl, (List.append_nil buffers.out).symm⟩

theorem throw (cause : Error) : Adds (throw cause) (.error cause) [] :=
  fun buffers => ⟨rfl, (List.append_nil buffers.out).symm⟩

theorem bind (first : Adds action (.ok ()) bytes) (later : Adds next result more) :
    Adds (action >>= fun _ => next) result (bytes ++ more) := by
  intro buffers
  have here := first buffers
  revert here
  cases done : outcome action buffers with
  | mk ended between =>
      rintro ⟨rfl, appended⟩
      rw [outcome_bind_of_ok done]
      have there := later between
      dsimp only at appended
      rwa [appended, List.append_assoc] at there

theorem bind_error (first : Adds action (.error cause) bytes) (next : Unit → Writing Unit) :
    Adds (action >>= next) (.error cause) bytes := by
  intro buffers
  have here := first buffers
  revert here
  cases done : outcome action buffers with
  | mk ended between =>
      rintro ⟨rfl, appended⟩
      rw [outcome_bind_of_error done]
      exact ⟨rfl, appended⟩

end Adds

end Writing

theorem FieldCodec.Appends.adds {action : Writing Unit} {result : Except Error Bytes}
    (appends : Appends action result) :
    action.Adds (result.map fun _ => ()) (result.toOption.getD []) := by
  intro buffers
  obtain ⟨scratch, done⟩ := appends buffers
  rw [done]
  exact ⟨rfl, rfl⟩

namespace RecordCodec

variable {codec : FieldCodec} {tuple : Tuple} {source : SourceId} {result : Except Error Unit}
  {bytes part : Bytes}

inductive Lays (codec : FieldCodec) (tuple : Tuple) (source : SourceId) :
    List (Field × Slot) → Except Error Unit → Bytes → Prop
  | whole {places : List (Field × Slot)} {parts : List Bytes} :
      List.Forall₂ (fun place part =>
        (encodeSlot codec tuple source place.1 place.2).Adds (.ok ()) part) places parts →
      Lays codec tuple source places (.ok ()) parts.flatten
  | broken {before behind : List (Field × Slot)} {place : Field × Slot} {parts : List Bytes}
      {cause : Error} :
      List.Forall₂ (fun place part =>
        (encodeSlot codec tuple source place.1 place.2).Adds (.ok ()) part) before parts →
      (encodeSlot codec tuple source place.1 place.2).Adds (.error cause) [] →
      Lays codec tuple source (before ++ place :: behind) (.error cause) parts.flatten

theorem Lays.cons {place : Field × Slot} {places : List (Field × Slot)}
    (first : (encodeSlot codec tuple source place.1 place.2).Adds (.ok ()) part)
    (lays : Lays codec tuple source places result bytes) :
    Lays codec tuple source (place :: places) result (part ++ bytes) := by
  cases lays with
  | whole added => exact .whole (.cons first added)
  | broken added failed => exact .broken (.cons first added) failed

theorem encodeSlots_adds (codec : FieldCodec) (tuple : Tuple) (source : SourceId) (fields : List Field)
    (slots : List Slot) :
    ∃ result bytes, (encodeSlots codec tuple source fields slots).Adds result bytes ∧
      Lays codec tuple source (fields.zip slots) result bytes := by
  induction fields generalizing slots with
  | nil => exact ⟨_, _, .ok, .whole .nil⟩
  | cons field fields ih =>
      cases slots with
      | nil => exact ⟨_, _, .ok, .whole .nil⟩
      | cons slot slots =>
          have here := (appends_encodeSlot codec tuple source field slot).adds
          cases written : slotBytes codec tuple source field slot with
          | error cause =>
              rw [written] at here
              exact ⟨_, _, here.bind_error _, .broken .nil here⟩
          | ok part =>
              rw [written] at here
              obtain ⟨result, bytes, added, lays⟩ := ih slots
              exact ⟨result, part ++ bytes, here.bind added, lays.cons here⟩

variable (records : RecordCodec)

/-- What writing a tuple adds: nothing if the tuple is not one of a source of the plan, and otherwise its
fields in the order of records, as far as they can be written. -/
inductive Leaves (records : RecordCodec) (tuple : Tuple) : Except Error Unit → Bytes → Prop
  | unknown {cause : Error} : records.plan.sourceNamed tuple.schema.name = .error cause →
      Leaves records tuple (.error cause) []
  | missized {source : SourcePlan} : records.plan.sourceNamed tuple.schema.name = .ok source →
      tuple.size ≠ source.schema.size →
      Leaves records tuple (.error (.schema (.tupleSize tuple.size source.name source.schema.size))) []
  | misplaced {source : SourcePlan} : records.plan.sourceNamed tuple.schema.name = .ok source →
      source.commonSlots.length ≠ records.plan.common.size →
      Leaves records tuple (.error (.invariant (.slotCount records.plan.common.name
        source.commonSlots.length records.plan.common.size))) []
  | fields {source : SourcePlan} {result : Except Error Unit} {bytes : Bytes} :
      records.plan.sourceNamed tuple.schema.name = .ok source → tuple.size = source.schema.size →
      Lays records.fields tuple source.id ((records.plan.recordFields source).zip source.slots) result bytes →
      Leaves records tuple result bytes

theorem write_adds (tuple : Tuple) :
    ∃ result bytes, (records.write tuple).Adds result bytes ∧ records.Leaves tuple result bytes := by
  cases known : records.plan.sourceNamed tuple.schema.name with
  | error cause =>
      refine ⟨_, _, fun buffers => ?_, .unknown known⟩
      rw [write, known, outcome_bind_of_error (outcome_ofExcept _ _)]
      exact ⟨rfl, (List.append_nil buffers.out).symm⟩
  | ok source =>
      have unfolded : records.write tuple = (do
          if tuple.size ≠ source.schema.size then
            throw (.schema (.tupleSize tuple.size source.name source.schema.size))
          encodeAs records.fields tuple records.plan.common source.commonSlots source.id
          encodeSlots records.fields tuple source.id source.specific.fields
            (source.specificPositions.map Slot.field)) := by
        rw [write, known]
        rfl
      rw [unfolded]
      by_cases sized : tuple.size = source.schema.size
      · simp only [ne_eq, sized, not_true_eq_false, if_false]
        by_cases placed : source.commonSlots.length = records.plan.common.size
        · obtain ⟨result, bytes, added, lays⟩ := encodeSlots_adds records.fields tuple source.id
            (records.plan.recordFields source) source.slots
          refine ⟨result, bytes, ?_, .fields known sized lays⟩
          rw [encodeAs]
          simp only [ne_eq, placed, not_true_eq_false, if_false]
          rwa [Plan.recordFields, SourcePlan.slots, encodeSlots_append tuple source.id placed.symm] at added
        · refine ⟨_, _, ?_, .misplaced known placed⟩
          rw [encodeAs]
          simp only [ne_eq, placed, not_false_eq_true, if_true]
          exact ((Writing.Adds.throw _).bind_error _).bind_error _
      · refine ⟨_, _, ?_, .missized known sized⟩
        simp only [ne_eq, sized, not_false_eq_true, if_true]
        exact (Writing.Adds.throw _).bind_error _

theorem encode_of_adds {tuple : Tuple} {result : Except Error Unit} {bytes : Bytes}
    (added : (records.write tuple).Adds result bytes) :
    records.encode tuple = result.map fun _ => bytes := by
  have fresh := added ⟨[], []⟩
  rw [List.nil_append] at fresh
  have unfolded : records.encode tuple = (outcome (records.write tuple) ⟨[], []⟩).1.map fun _ =>
      (outcome (records.write tuple) ⟨[], []⟩).2.out := rfl
  rw [unfolded, fresh.1, fresh.2]

theorem out_foldl_write (tuples : List Tuple) (buffers : Buffers) :
    (tuples.foldl (fun buffers tuple => (outcome (records.write tuple) buffers).2) buffers).out =
      buffers.out ++ tuples.flatMap fun tuple => (outcome (records.write tuple) ⟨[], []⟩).2.out := by
  induction tuples generalizing buffers with
  | nil => exact (List.append_nil buffers.out).symm
  | cons tuple tuples ih =>
      obtain ⟨result, bytes, added, -⟩ := records.write_adds tuple
      rw [List.foldl_cons, ih, (added buffers).2, List.flatMap_cons, (added ⟨[], []⟩).2, List.nil_append,
        List.append_assoc]

end RecordCodec

/-- Writing a value adds its bytes or nothing, and writing a tuple adds its record, or the fields in front
of the one that cannot be written; what the buffers held before has no part in it. So tuples written one
after the other leave what each of them adds to an empty output. -/
theorem FieldCodec.writes_append (codec : FieldCodec) :
    (∀ field value, ∃ result bytes, (codec.encode field value).Adds result bytes ∧
      (result = .ok () ∨ bytes = [])) ∧
    (∀ plan tuple, ∃ result bytes, ((RecordCodec.mk plan codec).write tuple).Adds result bytes ∧
      (RecordCodec.mk plan codec).encode tuple = (result.map fun _ => bytes) ∧
      (RecordCodec.mk plan codec).Leaves tuple result bytes) ∧
    ∀ plan (tuples : List Tuple) buffers,
      (tuples.foldl (fun buffers tuple =>
        (outcome ((RecordCodec.mk plan codec).write tuple) buffers).2) buffers).out =
      buffers.out ++ tuples.flatMap fun tuple =>
        (outcome ((RecordCodec.mk plan codec).write tuple) ⟨[], []⟩).2.out := by
  refine ⟨?_, ?_, fun plan => (RecordCodec.mk plan codec).out_foldl_write⟩
  · intro field value
    have added := (codec.appends_encode field value).adds
    refine ⟨_, _, added, ?_⟩
    cases codec.bytesOf field value with
    | ok bytes => exact .inl rfl
    | error cause => exact .inr rfl
  · intro plan tuple
    obtain ⟨result, bytes, added, leaves⟩ := (RecordCodec.mk plan codec).write_adds tuple
    exact ⟨result, bytes, added, RecordCodec.encode_of_adds _ added, leaves⟩

end Cogrouping
