import Cogrouping.Proofs.Guarded.Records
import Cogrouping.Proofs.Order.Visits

/-!
Comparing records with operations that may go astray. On either side the cursor stays within a record that
is short enough, through the common fields and through the secondary ones.
-/

namespace Cogrouping

theorem SortKey.measure_bounds {key : SortKey} {codec : FieldCodec} {buffer : Bytes} {offset size : Nat}
    (measured : key.measure codec buffer offset = .ok size) : offset + size ≤ buffer.length := by
  unfold measure at measured
  cases given : key.comparator with
  | some comparator =>
      simp only [given] at measured
      obtain ⟨⟨value, width⟩, read, rfl⟩ := map_eq_ok.mp measured
      exact (FieldCodec.decode_measures read).inside
  | none =>
      cases typed : key.type with
      | text =>
          simp only [given, typed] at measured
          obtain ⟨⟨payload, width⟩, read, rfl⟩ := map_eq_ok.mp measured
          exact FieldCodec.textBytes_bounds read
      | object name =>
          simp only [given, typed] at measured
          cases measured
      | _ =>
          simp only [given, typed] at measured
          exact FieldCodec.skip_bounds measured

structure Progress.Within (left right : Bytes) (progress : Progress) : Prop where
  left : progress.left ≤ left.length
  right : progress.right ≤ right.length

namespace Guarded

def compareSlices (codec : FieldCodec) (type : DataType) (left : Bytes) (leftOffset : Nat) (right : Bytes)
    (rightOffset : Nat) : Guarded (Ordering × Nat × Nat) := do
  let leftSize ← skip codec left leftOffset type
  let rightSize ← skip codec right rightOffset type
  let leftBytes ← range left leftOffset (← add leftOffset leftSize)
  let rightBytes ← range right rightOffset (← add rightOffset rightSize)
  return (Bytes.order leftBytes rightBytes, leftSize, rightSize)

def compareEncoded (key : SortKey) (codec : FieldCodec) (left : Bytes) (leftOffset : Nat) (right : Bytes)
    (rightOffset : Nat) : Guarded (Ordering × Nat × Nat) :=
  match key.comparator with
  | some comparator => do
      let (leftValue, leftSize) ← decode codec left leftOffset key.type
      let (rightValue, rightSize) ← decode codec right rightOffset key.type
      return (comparator leftValue rightValue, leftSize, rightSize)
  | none =>
      match key.type with
      | .text => do
          let (leftBytes, leftSize) ← textBytes codec left leftOffset
          let (rightBytes, rightSize) ← textBytes codec right rightOffset
          return (Bytes.order leftBytes rightBytes, leftSize, rightSize)
      | .object _ => fail (.unorderableField key.name)
      | type => compareSlices codec type left leftOffset right rightOffset

section

variable (order : RecordOrder) (left right : Bytes)

def compareField (progress : Progress) (key : SortKey) : Guarded (Ordering × Progress) :=
  if key.isSourceId then do
    let (leftId, leftSize) ← readSourceId left progress.left
    let (rightId, rightSize) ← readSourceId right progress.right
    let leftOffset ← advance left progress.left leftSize
    let rightOffset ← advance right progress.right rightSize
    return (Ord.compare leftId rightId, ⟨leftOffset, rightOffset, some (leftId, rightId)⟩)
  else do
    let (ascending, leftSize, rightSize) ←
      compareEncoded key order.codec left progress.left right progress.right
    let leftOffset ← advance left progress.left leftSize
    let rightOffset ← advance right progress.right rightSize
    return (ascending, ⟨leftOffset, rightOffset, progress.sources⟩)

def compareCommonBytes : Progress → List SortKey → Guarded (Ordering × Progress)
  | progress, [] => return (.eq, progress)
  | progress, key :: keys => do
      let (ascending, progress) ← compareField order left right progress key
      match key.direction.apply ascending with
      | .eq => compareCommonBytes progress keys
      | ordering => return (ordering, progress)

def compareSecondaryBytes : Nat → Nat → List SortKey → Guarded Ordering
  | _, _, [] => return .eq
  | leftOffset, rightOffset, key :: keys => do
      let (ascending, leftSize, rightSize) ←
        compareEncoded key order.codec left leftOffset right rightOffset
      let leftOffset ← advance left leftOffset leftSize
      let rightOffset ← advance right rightOffset rightSize
      match key.direction.apply ascending with
      | .eq => compareSecondaryBytes leftOffset rightOffset keys
      | ordering => return ordering

def compareBytesBy (count : Nat) (withSecondary : Bool) : Guarded Ordering := do
  let keys ← range order.common 0 count
  let (ordering, progress) ← compareCommonBytes order left right ⟨0, 0, none⟩ keys
  if ordering = .eq && withSecondary then
    match order.sharedSource? progress with
    | some id =>
        compareSecondaryBytes order left right progress.left progress.right (order.secondaryOf id)
    | none => return .eq
  else return ordering

end

variable {order : RecordOrder} {left right : Bytes}

theorem compareField_within {progress next : Progress} {key : SortKey} {ascending : Ordering}
    (done : order.compareField left right progress key = .ok (ascending, next)) :
    next.Within left right := by
  rw [RecordOrder.compareField] at done
  split at done
  · obtain ⟨⟨leftId, leftSize⟩, leftRead, done⟩ := bind_eq_ok.mp done
    obtain ⟨⟨rightId, rightSize⟩, rightRead, done⟩ := bind_eq_ok.mp done
    cases done
    exact ⟨Varint.readSourceId_bounds leftRead, Varint.readSourceId_bounds rightRead⟩
  · obtain ⟨⟨compared, leftSize, rightSize⟩, walked, done⟩ := bind_eq_ok.mp done
    obtain ⟨leftMeasured, rightMeasured⟩ := SortKey.measure_of_compareEncoded walked
    cases done
    exact ⟨SortKey.measure_bounds leftMeasured, SortKey.measure_bounds rightMeasured⟩

theorem compareCommonBytes_within {progress next : Progress} {keys : List SortKey} {ordering : Ordering}
    (within : progress.Within left right)
    (done : order.compareCommonBytes left right progress keys = .ok (ordering, next)) :
    next.Within left right := by
  induction keys generalizing progress with
  | nil =>
      cases done
      exact within
  | cons key keys ih =>
      rw [RecordOrder.compareCommonBytes_cons] at done
      obtain ⟨⟨ascending, between⟩, here, done⟩ := bind_eq_ok.mp done
      have passed := compareField_within here
      dsimp only at done
      split at done
      · exact ih passed done
      · cases done
        exact passed

variable (leftShort : left.Short) (rightShort : right.Short)
include leftShort rightShort

theorem compareSlices_safe {codec : FieldCodec} (type : DataType) {leftOffset rightOffset : Nat}
    (leftInside : leftOffset ≤ left.length) (rightInside : rightOffset ≤ right.length) :
    Safe (compareSlices codec type left leftOffset right rightOffset)
      (codec.skip left leftOffset type >>= fun leftSize =>
        codec.skip right rightOffset type >>= fun rightSize =>
          .ok (Bytes.order ((left.drop leftOffset).take leftSize)
            ((right.drop rightOffset).take rightSize), leftSize, rightSize)) := by
  refine (skip_safe leftShort leftInside type).bind fun leftSize leftSkipped => ?_
  refine (skip_safe rightShort rightInside type).bind fun rightSize rightSkipped => ?_
  have leftReaches := FieldCodec.skip_bounds leftSkipped
  have rightReaches := FieldCodec.skip_bounds rightSkipped
  rw [Bytes.Short] at leftShort rightShort
  refine (add_safe (by omega)).step ((range_safe (Nat.le_add_right _ _) leftReaches).step ?_)
  refine (add_safe (by omega)).step ((range_safe (Nat.le_add_right _ _) rightReaches).step ?_)
  rw [List.drop_take, List.drop_take, Nat.add_sub_cancel_left, Nat.add_sub_cancel_left]
  exact .pure _

theorem compareEncoded_safe {codec : FieldCodec} (key : SortKey) {leftOffset rightOffset : Nat}
    (leftInside : leftOffset ≤ left.length) (rightInside : rightOffset ≤ right.length) :
    Safe (compareEncoded key codec left leftOffset right rightOffset)
      (key.compareEncoded codec left leftOffset right rightOffset) := by
  unfold compareEncoded SortKey.compareEncoded
  cases key.comparator with
  | some comparator =>
      refine (decode_safe leftShort leftInside key.type).bind fun _ _ => ?_
      exact (decode_safe rightShort rightInside key.type).bind fun _ _ => .pure _
  | none =>
      cases key.type with
      | text =>
          refine (textBytes_safe leftShort leftOffset).bind fun _ _ => ?_
          exact (textBytes_safe rightShort rightOffset).bind fun _ _ => .pure _
      | object name => exact .fail _
      | _ => exact compareSlices_safe leftShort rightShort _ leftInside rightInside

theorem compareField_safe {progress : Progress} (within : progress.Within left right) (key : SortKey) :
    Safe (compareField order left right progress key) (order.compareField left right progress key) := by
  rw [compareField, RecordOrder.compareField]
  split
  · refine (readSourceId_safe leftShort progress.left).bind fun leftFound leftRead => ?_
    refine (readSourceId_safe rightShort progress.right).bind fun rightFound rightRead => ?_
    obtain ⟨leftId, leftSize⟩ := leftFound
    obtain ⟨rightId, rightSize⟩ := rightFound
    refine (advance_safe leftShort (Varint.readSourceId_bounds leftRead)).step ?_
    exact (advance_safe rightShort (Varint.readSourceId_bounds rightRead)).step (.pure _)
  · refine (compareEncoded_safe leftShort rightShort key within.left within.right).bind
      fun compared same => ?_
    obtain ⟨ascending, leftSize, rightSize⟩ := compared
    obtain ⟨leftMeasured, rightMeasured⟩ := SortKey.measure_of_compareEncoded same
    refine (advance_safe leftShort (SortKey.measure_bounds leftMeasured)).step ?_
    exact (advance_safe rightShort (SortKey.measure_bounds rightMeasured)).step (.pure _)

theorem compareCommonBytes_safe {progress : Progress} (within : progress.Within left right)
    (keys : List SortKey) :
    Safe (compareCommonBytes order left right progress keys)
      (order.compareCommonBytes left right progress keys) := by
  induction keys generalizing progress with
  | nil => exact .pure _
  | cons key keys ih =>
      rw [RecordOrder.compareCommonBytes_cons]
      refine (compareField_safe leftShort rightShort within key).bind fun ⟨ascending, next⟩ here => ?_
      dsimp only
      cases key.direction.apply ascending with
      | lt => exact .pure _
      | gt => exact .pure _
      | eq => exact ih (compareField_within here)

theorem compareSecondaryBytes_safe {leftOffset rightOffset : Nat} (leftInside : leftOffset ≤ left.length)
    (rightInside : rightOffset ≤ right.length) (keys : List SortKey) :
    Safe (compareSecondaryBytes order left right leftOffset rightOffset keys)
      (order.compareSecondaryBytes left right leftOffset rightOffset keys) := by
  induction keys generalizing leftOffset rightOffset with
  | nil => exact .pure _
  | cons key keys ih =>
      refine (compareEncoded_safe leftShort rightShort key leftInside rightInside).bind
        fun ⟨ascending, leftSize, rightSize⟩ compared => ?_
      obtain ⟨leftMeasured, rightMeasured⟩ := SortKey.measure_of_compareEncoded compared
      have leftReaches := SortKey.measure_bounds leftMeasured
      have rightReaches := SortKey.measure_bounds rightMeasured
      refine (advance_safe leftShort leftReaches).step ((advance_safe rightShort rightReaches).step ?_)
      dsimp only
      cases key.direction.apply ascending with
      | lt => exact .pure _
      | gt => exact .pure _
      | eq => exact ih leftReaches rightReaches

theorem compareBytesBy_safe {count : Nat} (fits : count ≤ order.common.length) (withSecondary : Bool) :
    Safe (compareBytesBy order left right count withSecondary)
      (order.compareBytesBy (order.common.take count) withSecondary left right) := by
  have begun : Progress.Within left right ⟨0, 0, none⟩ := ⟨Nat.zero_le _, Nat.zero_le _⟩
  refine (range_safe (Nat.zero_le _) fits).step ?_
  rw [List.drop_zero]
  refine (compareCommonBytes_safe leftShort rightShort begun _).bind fun ⟨ordering, progress⟩ walked => ?_
  have within := compareCommonBytes_within begun walked
  dsimp only
  split
  · cases order.sharedSource? progress with
    | none => exact .pure _
    | some id => exact compareSecondaryBytes_safe leftShort rightShort within.left within.right _
  · exact .pure _

omit leftShort rightShort in
/-- Whatever bytes they are given, finding the source of a record, reading it and comparing it with another
end with a result or an error, without a sum that is too large, a difference below zero, a place outside the
bytes, a copy of the wrong length or a cursor behind the end. -/
theorem readers_safe {job : Job} {plan : Plan} (built : Plan.build job = .ok plan) (codec : FieldCodec) :
    (∀ record : Bytes, record.Short →
      Safe (sourceOf ⟨plan, codec⟩ record) ((RecordCodec.mk plan codec).sourceOf record) ∧
      ∀ tuple, (readInto ⟨plan, codec⟩ record).Safe ((RecordCodec.mk plan codec).readInto record) tuple) ∧
    ∀ comparators order, RecordOrder.ofPlan plan codec comparators = .ok order →
      ∀ left right : Bytes, left.Short → right.Short →
        Safe (compareBytesBy order left right order.common.length true) (order.compareBytes left right) ∧
        Safe (compareBytesBy order left right order.groups.size false)
          (order.groups.compareBytes left right) := by
  obtain ⟨sound, rfl⟩ := Plan.build_sound built
  refine ⟨fun record short => ⟨sourceOf_safe short sound, readInto_safe short sound⟩, ?_⟩
  intro comparators order resolved left right leftShort rightShort
  obtain ⟨orderSound, rfl, rfl⟩ := RecordOrder.ofPlan_sound sound resolved
  constructor
  · have whole := compareBytesBy_safe leftShort rightShort (le_refl order.common.length) true
    rwa [List.take_length] at whole
  · refine compareBytesBy_safe leftShort rightShort ?_ false
    rw [orderSound.common.length_eq]
    exact sound.groupBy_length_le

end Guarded

def Sample.greedy : FieldCodec := { fields with limit := 0x7FFFFFFFFFFFFFFF }

def Sample.boast : Bytes := [0x88, 0x7F, 0xFF, 0xFF, 0xFF, 0xFF, 0xFF, 0xFF, 0xFF]

theorem Sample.boast_short : boast.Short := by
  rw [Bytes.Short]
  decide

theorem Guarded.readers_safe_boast :
    Safe (sourceOf ⟨Sample.plan, Sample.greedy⟩ Sample.boast)
      (.error (.codec (.bytesMissing 0x7FFFFFFFFFFFFFFF 9 9))) ∧
    (readInto ⟨Sample.plan, Sample.greedy⟩ Sample.boast).run.run Sample.page =
      .ok (.error (.codec (.bytesMissing 0x7FFFFFFFFFFFFFFF 9 9)), Sample.page) ∧
    Safe (compareBytesBy Sample.order Sample.boast Sample.boast 2 true)
      (.error (.codec (.lengthOutside 0x7FFFFFFFFFFFFFFF 0 100))) ∧
    Safe (compareBytesBy Sample.order [0x81, 1, 97] [0x81, 1, 98] 1 false) (.ok .lt) := by
  obtain ⟨found, read⟩ := (readers_safe Sample.built Sample.greedy).1 _ Sample.boast_short
  have compares := (readers_safe Sample.built Sample.fields).2 .empty Sample.order (eq_valueOf _)
  have told : (RecordCodec.mk Sample.plan Sample.greedy).sourceOf Sample.boast =
      .error (.codec (.bytesMissing 0x7FFFFFFFFFFFFFFF 9 9)) := by decide +kernel
  have refused : outcome ((RecordCodec.mk Sample.plan Sample.greedy).readInto Sample.boast) Sample.page =
      (.error (.codec (.bytesMissing 0x7FFFFFFFFFFFFFFF 9 9)), Sample.page) := by decide +kernel
  have sorts : Sample.order.compareBytes Sample.boast Sample.boast =
      .error (.codec (.lengthOutside 0x7FFFFFFFFFFFFFFF 0 100)) := by decide +kernel
  have groups : Sample.order.groups.compareBytes [0x81, 1, 97] [0x81, 1, 98] = .ok .lt := by decide +kernel
  have short (byte : UInt8) : Bytes.Short [0x81, 1, byte] := by
    rw [Bytes.Short, List.length_cons, List.length_cons, List.length_singleton]
    decide
  refine ⟨told ▸ found, ?_, ?_, ?_⟩
  · rw [← refused]
    exact read Sample.page
  · exact sorts ▸ (compares _ _ Sample.boast_short Sample.boast_short).1
  · exact groups ▸ (compares _ _ (short 97) (short 98)).2

end Cogrouping
