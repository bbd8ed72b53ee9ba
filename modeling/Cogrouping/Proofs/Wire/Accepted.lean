import Cogrouping.Proofs.Wire.RoundTrip

/-!
The byte strings that are read as a record. The fields of a record follow one another without a gap, so
where a record ends is known from its bytes alone: no record begins another.
-/

namespace Cogrouping.RecordCodec

variable {records : RecordCodec} {record : Bytes} {tuple : Tuple}

theorem decode_append (sound : records.plan.Sound) (read : records.decode record = .ok tuple) :
    ∃ source, records.sourceOf record = .ok source ∧ ∀ behind, behind ≠ [] →
      records.decode (record ++ behind) =
        .error (.codec (.trailingBytes behind.length source.name)) := by
  obtain ⟨declared, source, planned, found, parses⟩ := parses_of_decode sound read
  refine ⟨source, found, fun behind nonempty => ?_⟩
  have stands := Bytes.at_self record
  obtain ⟨cells, reads⟩ := parses
  have foundAgain : records.sourceOf (record ++ behind) = .ok source := by
    rw [sourceOf_eq_sourceIn sound planned reads (stands.extend behind),
      ← sourceOf_eq_sourceIn sound planned reads stands]
    exact found
  have longer : record.length ≠ (record ++ behind).length := by
    have positive := List.length_pos_iff.mpr nonempty
    rw [List.length_append]
    omega
  rw [decode_parses planned foundAgain (stands.extend behind) ⟨cells, reads⟩, if_neg longer,
    List.length_append, Nat.add_sub_cancel_left]

/-- A record is refused as soon as bytes are missing from its end or stand behind it. -/
theorem torn_or_extended_refused {job : Job} {plan : Plan} (built : Plan.build job = .ok plan)
    (fields : FieldCodec) {record : Bytes} {tuple : Tuple}
    (read : (RecordCodec.mk plan fields).decode record = .ok tuple) :
    ∃ source, (RecordCodec.mk plan fields).sourceOf record = .ok source ∧
      (∀ behind, behind ≠ [] → (RecordCodec.mk plan fields).decode (record ++ behind) =
        .error (.codec (.trailingBytes behind.length source.name))) ∧
      ∀ torn, torn <+: record → torn ≠ record →
        ∃ cause, (RecordCodec.mk plan fields).decode torn = .error cause := by
  have sound : (RecordCodec.mk plan fields).plan.Sound := (Plan.build_sound built).1
  obtain ⟨source, found, extended⟩ := decode_append sound read
  refine ⟨source, found, extended, ?_⟩
  rintro torn ⟨behind, rfl⟩ proper
  cases early : (RecordCodec.mk plan fields).decode torn with
  | error cause => exact ⟨cause, rfl⟩
  | ok other =>
      -- If the torn record were accepted, the whole one would be refused for what follows it.
      obtain ⟨_, _, refused⟩ := decode_append sound early
      have nonempty : behind ≠ [] := by
        rintro rfl
        exact proper (List.append_nil torn).symm
      have whole := refused behind nonempty
      rw [read] at whole
      cases whole

theorem torn_or_extended_refused_page :
    ∃ source, Sample.records.sourceOf [0x81, 1, 97, 0x81, 1, 0x81, 1] = .ok source ∧
      (∀ behind, behind ≠ [] → Sample.records.decode ([0x81, 1, 97, 0x81, 1, 0x81, 1] ++ behind) =
        .error (.codec (.trailingBytes behind.length source.name))) ∧
      ∀ torn, torn <+: [0x81, 1, 97, 0x81, 1, 0x81, 1] → torn ≠ [0x81, 1, 97, 0x81, 1, 0x81, 1] →
        ∃ cause, Sample.records.decode torn = .error cause :=
  have read : Sample.records.decode [0x81, 1, 97, 0x81, 1, 0x81, 1] = .ok Sample.page := by decide +kernel
  torn_or_extended_refused Sample.built Sample.fields read

end Cogrouping.RecordCodec
