import Cogrouping.Proofs.Order.Rows
import Cogrouping.Proofs.Wire.RoundTrip

/-!
The order of records as bytes is the order of their rows. A field without a comparator has bytes that
sort as its values do, one with a comparator is read back first, and either way the comparison goes on
exactly behind the field.
-/

namespace Cogrouping

namespace SortKey

variable {codec : FieldCodec}

theorem bytes_eq_sortBytes {type : DataType} {value : Value} {bytes : Bytes}
    (written : codec.Written type value bytes) (orderable : type.isOrderable = true)
    (untexted : type ≠ .text) : bytes = value.sortBytes := by
  cases written with
  | text content short => exact absurd rfl untexted
  | absent name => simp [DataType.isOrderable] at orderable
  | object found succeeded => simp [DataType.isOrderable] at orderable
  | _ => rfl

structure Stands (codec : FieldCodec) (type : DataType) (value : Value) (bytes buffer : Bytes)
    (offset : Nat) : Prop where
  written : codec.Written type value bytes
  known : codec.Knows type
  kept : codec.Keeps type value
  fits : bytes.length < 0x8000000000000000
  place : ∃ before after, buffer = before ++ bytes ++ after ∧ offset = before.length

theorem compareEncoded_plain {key : SortKey} (given : key.comparator = none)
    (orderable : key.type.isOrderable = true) (untexted : key.type ≠ .text) (left : Bytes)
    (leftOffset : Nat) (right : Bytes) (rightOffset : Nat) :
    key.compareEncoded codec left leftOffset right rightOffset =
      codec.skip left leftOffset key.type >>= fun leftSize =>
        codec.skip right rightOffset key.type >>= fun rightSize =>
          .ok (Bytes.order ((left.drop leftOffset).take leftSize)
            ((right.drop rightOffset).take rightSize), leftSize, rightSize) := by
  unfold compareEncoded
  rw [given]
  cases typed : key.type with
  | text => exact absurd typed untexted
  | object name => simp [typed, DataType.isOrderable] at orderable
  | _ => rfl

theorem compareEncoded_eq {key : SortKey} {field : Field} (sorts : key.SortsBy field)
    {leftValue rightValue : Value} {leftBytes rightBytes left right : Bytes}
    {leftOffset rightOffset : Nat}
    (leftStands : Stands codec field.type leftValue leftBytes left leftOffset)
    (rightStands : Stands codec field.type rightValue rightBytes right rightOffset) :
    key.compareEncoded codec left leftOffset right rightOffset =
      .ok (key.ascending (.value leftValue) (.value rightValue), leftBytes.length,
        rightBytes.length) := by
  rw [← sorts.type] at leftStands rightStands
  have usable := sorts.usable
  rw [← sorts.type] at usable
  obtain ⟨leftWritten, leftKnown, leftKept, leftFits, leftBefore, leftAfter, rfl, rfl⟩ := leftStands
  obtain ⟨rightWritten, rightKnown, rightKept, rightFits, rightBefore, rightAfter, rfl, rfl⟩ :=
    rightStands
  cases given : key.comparator with
  | some comparator =>
      have leftRead := FieldCodec.decode_written leftWritten leftKnown leftKept leftFits leftBefore
        leftAfter
      have rightRead := FieldCodec.decode_written rightWritten rightKnown rightKept rightFits
        rightBefore rightAfter
      simp only [compareEncoded, ascending, given, leftRead, rightRead, ok_bind, pure_eq_ok, Cell.held]
  | none =>
      have orderable : key.type.isOrderable = true := by simpa [given] using usable
      by_cases texted : key.type = .text
      · rw [texted] at leftWritten rightWritten
        cases leftWritten with
        | text leftText leftShort =>
            cases rightWritten with
            | text rightText rightShort =>
                rw [List.length_append] at leftFits rightFits
                have leftRead := FieldCodec.textBytes_sized leftShort (by omega) leftBefore leftAfter
                have rightRead := FieldCodec.textBytes_sized rightShort (by omega) rightBefore
                  rightAfter
                simp only [compareEncoded, ascending, given, texted, leftRead, rightRead, ok_bind,
                  pure_eq_ok, Cell.sortBytes, Value.sortBytes]
      · have leftSkipped := FieldCodec.skip_written leftWritten leftKept.within leftFits leftBefore
          leftAfter
        have rightSkipped := FieldCodec.skip_written rightWritten rightKept.within rightFits rightBefore
          rightAfter
        rw [compareEncoded_plain given orderable texted, leftSkipped, ok_bind, rightSkipped, ok_bind,
          Bytes.take_drop_middle, Bytes.take_drop_middle, ascending, given,
          bytes_eq_sortBytes leftWritten orderable texted,
          bytes_eq_sortBytes rightWritten orderable texted, Cell.sortBytes, Cell.sortBytes]

end SortKey

namespace RecordOrder

variable (order : RecordOrder)

def compareField (left right : Bytes) (progress : Progress) (key : SortKey) :
    Except Error (Ordering × Progress) :=
  if key.isSourceId then do
    let (leftId, leftSize) ← Varint.readSourceId left progress.left
    let (rightId, rightSize) ← Varint.readSourceId right progress.right
    return (Ord.compare leftId rightId,
      ⟨progress.left + leftSize, progress.right + rightSize, some (leftId, rightId)⟩)
  else do
    let (ascending, leftSize, rightSize) ←
      key.compareEncoded order.codec left progress.left right progress.right
    return (ascending, ⟨progress.left + leftSize, progress.right + rightSize, progress.sources⟩)

theorem compareCommonBytes_cons (left right : Bytes) (progress : Progress) (key : SortKey)
    (keys : List SortKey) :
    order.compareCommonBytes left right progress (key :: keys) =
      order.compareField left right progress key >>= fun step =>
        match key.direction.apply step.1 with
        | .eq => order.compareCommonBytes left right step.2 keys
        | ordering => .ok (ordering, step.2) := by
  rw [compareCommonBytes, compareField]
  cases key.isSourceId with
  | true =>
      cases Varint.readSourceId left progress.left with
      | error cause => rfl
      | ok leftRead =>
          cases Varint.readSourceId right progress.right with
          | error cause => rfl
          | ok rightRead => rfl
  | false =>
      cases key.compareEncoded order.codec left progress.left right progress.right with
      | error cause => rfl
      | ok compared => rfl

variable {order}

structure Carries (item : Item order.codec) (id : SourceId) : Prop where
  readable : item.Readable
  marked : item.field.isSourceId = true →
    item.cell = .sourceId id ∧ item.bytes = Varint.encodeSourceId id

theorem Carries.stands {item : Item order.codec} {id : SourceId} (carries : Carries item id)
    (unmarked : item.field.isSourceId = false) (before after : Bytes) :
    ∃ value, item.cell = .value value ∧ SortKey.Stands order.codec item.field.type value item.bytes
      (before ++ item.bytes ++ after) before.length := by
  obtain ⟨⟨fits, known, kept⟩, _⟩ := carries
  obtain ⟨field, cell, bytes, written⟩ := item
  cases written with
  | sourceId id marked => simp [unmarked] at marked
  | @value value bytes _ written =>
      exact ⟨value, rfl, written, known value rfl, kept value rfl, fits, before, after, rfl, rfl⟩

theorem compareField_items {key : SortKey} {left right : Item order.codec} {leftId rightId : SourceId}
    (leftCarries : Carries left leftId) (rightCarries : Carries right rightId)
    (sorts : key.SortsBy left.field) (same : right.field = left.field)
    (leftBefore leftAfter rightBefore rightAfter : Bytes) (sources : Option (SourceId × SourceId)) :
    order.compareField (leftBefore ++ left.bytes ++ leftAfter)
        (rightBefore ++ right.bytes ++ rightAfter) ⟨leftBefore.length, rightBefore.length, sources⟩ key =
      .ok (key.ascending left.cell right.cell,
        ⟨leftBefore.length + left.bytes.length, rightBefore.length + right.bytes.length,
          if left.field.isSourceId then some (leftId, rightId) else sources⟩) := by
  have marks : key.isSourceId = left.field.isSourceId := by
    rw [SortKey.isSourceId, Field.isSourceId, sorts.name]
  rw [compareField, marks]
  cases marked : left.field.isSourceId with
  | true =>
      obtain ⟨leftCell, leftBytes⟩ := leftCarries.marked marked
      obtain ⟨rightCell, rightBytes⟩ := rightCarries.marked (same ▸ marked)
      simp only [if_true, leftCell, leftBytes, rightCell, rightBytes, Varint.readSourceId_encode,
        ok_bind, pure_eq_ok, SortKey.ascending, sorts.marked marked, Cell.sortBytes,
        SourceId.order_encode]
  | false =>
      obtain ⟨leftValue, leftCell, leftStands⟩ := leftCarries.stands marked leftBefore leftAfter
      obtain ⟨rightValue, rightCell, rightStands⟩ :=
        rightCarries.stands (same ▸ marked) rightBefore rightAfter
      rw [same] at rightStands
      have compared := SortKey.compareEncoded_eq sorts leftStands rightStands
      simp only [Bool.false_eq_true, if_false, compared, ok_bind, pure_eq_ok, leftCell, rightCell]

def behind (leftId rightId : SourceId) (left right : Bytes) (fields : List Field)
    (sources : Option (SourceId × SourceId)) : Progress :=
  ⟨left.length, right.length, if fields.any Field.isSourceId then some (leftId, rightId) else sources⟩

theorem compareCommonBytes_items {keys : List SortKey} {lefts rights : List (Item order.codec)}
    {leftId rightId : SourceId} (leftCarries : ∀ item ∈ lefts, Carries item leftId)
    (rightCarries : ∀ item ∈ rights, Carries item rightId)
    (sorts : List.Forall₂ SortKey.SortsBy keys (lefts.map Item.field))
    (same : rights.map Item.field = lefts.map Item.field)
    (leftBefore leftAfter rightBefore rightAfter : Bytes) (sources : Option (SourceId × SourceId)) :
    ∃ progress, order.compareCommonBytes (leftBefore ++ Item.join lefts ++ leftAfter)
        (rightBefore ++ Item.join rights ++ rightAfter)
        ⟨leftBefore.length, rightBefore.length, sources⟩ keys =
        .ok (SortKey.compareAll keys (lefts.map Item.cell) (rights.map Item.cell), progress) ∧
      (SortKey.compareAll keys (lefts.map Item.cell) (rights.map Item.cell) = .eq →
        progress = behind leftId rightId (leftBefore ++ Item.join lefts)
          (rightBefore ++ Item.join rights) (lefts.map Item.field) sources) := by
  -- What both walks have passed grows by an item a step, so the bytes before are arbitrary.
  induction lefts generalizing keys rights leftBefore rightBefore sources with
  | nil =>
      have noKeys : keys = [] := List.forall₂_nil_right_iff.mp sorts
      have noRights : rights = [] := List.map_eq_nil_iff.mp same
      subst noKeys noRights
      exact ⟨_, rfl, fun _ => by simp [behind]⟩
  | cons left lefts ih =>
      obtain ⟨right, rest, rfl, sameField, sameFields⟩ := List.map_eq_cons_iff.mp same
      obtain ⟨key, laterKeys, first, later, rfl⟩ := List.forall₂_cons_right_iff.mp sorts
      rw [List.forall_mem_cons] at leftCarries rightCarries
      have here := compareField_items leftCarries.1 rightCarries.1 first sameField leftBefore
        (Item.join lefts ++ leftAfter) rightBefore (Item.join rest ++ rightAfter) sources
      obtain ⟨progress, walked, ended⟩ := ih leftCarries.2 rightCarries.2 later sameFields
        (leftBefore ++ left.bytes) (rightBefore ++ right.bytes)
        (if left.field.isSourceId then some (leftId, rightId) else sources)
      rw [List.map_cons, List.map_cons, SortKey.compareAll_cons, compareCommonBytes_cons]
      simp only [Item.join_cons, List.append_assoc, List.length_append] at here walked ended ⊢
      rw [here, ok_bind, SortKey.compareCells]
      cases direction : key.direction.apply (key.ascending left.cell right.cell) with
      | lt => exact ⟨_, rfl, by simp⟩
      | gt => exact ⟨_, rfl, by simp⟩
      | eq =>
          refine ⟨progress, walked, fun equal => ?_⟩
          rw [ended equal, behind, behind, List.map_cons, List.any_cons]
          cases left.field.isSourceId with
          | true => simp
          | false => simp

theorem compareSecondaryBytes_items {keys : List SortKey} {lefts rights : List (Item order.codec)}
    {leftId rightId : SourceId} (leftCarries : ∀ item ∈ lefts, Carries item leftId)
    (rightCarries : ∀ item ∈ rights, Carries item rightId)
    (unmarked : ∀ item ∈ lefts, item.field.isSourceId = false)
    (sorts : List.Forall₂ SortKey.SortsBy keys (lefts.map Item.field))
    (same : rights.map Item.field = lefts.map Item.field)
    (leftBefore leftAfter rightBefore rightAfter : Bytes) :
    order.compareSecondaryBytes (leftBefore ++ Item.join lefts ++ leftAfter)
        (rightBefore ++ Item.join rights ++ rightAfter) leftBefore.length rightBefore.length keys =
      .ok (SortKey.compareAll keys (lefts.map Item.cell) (rights.map Item.cell)) := by
  induction lefts generalizing keys rights leftBefore rightBefore with
  | nil =>
      have noKeys : keys = [] := List.forall₂_nil_right_iff.mp sorts
      subst noKeys
      rfl
  | cons left lefts ih =>
      obtain ⟨right, rest, rfl, sameField, sameFields⟩ := List.map_eq_cons_iff.mp same
      obtain ⟨key, laterKeys, first, later, rfl⟩ := List.forall₂_cons_right_iff.mp sorts
      rw [List.forall_mem_cons] at leftCarries rightCarries unmarked
      obtain ⟨leftValue, leftCell, leftStands⟩ :=
        leftCarries.1.stands unmarked.1 leftBefore (Item.join lefts ++ leftAfter)
      obtain ⟨rightValue, rightCell, rightStands⟩ :=
        rightCarries.1.stands (sameField ▸ unmarked.1) rightBefore (Item.join rest ++ rightAfter)
      rw [sameField] at rightStands
      have here := SortKey.compareEncoded_eq first leftStands rightStands
      have walked := ih leftCarries.2 rightCarries.2 unmarked.2 later sameFields
        (leftBefore ++ left.bytes) (rightBefore ++ right.bytes)
      rw [List.map_cons, List.map_cons, SortKey.compareAll_cons, compareSecondaryBytes]
      simp only [Item.join_cons, List.append_assoc, List.length_append] at here walked ⊢
      rw [here, ok_bind, SortKey.compareCells, leftCell, rightCell]
      simp only
      cases direction : key.direction.apply (key.ascending (.value leftValue) (.value rightValue)) with
      | lt => rfl
      | gt => rfl
      | eq => exact walked

variable {comparators : Comparators}

theorem carries_common {row : Row order.plan} {record : Bytes}
    (encoding : RecordCodec.Encoding order.codec row record) (readable : encoding.Readable) :
    ∀ item ∈ encoding.common, Carries item row.id := by
  intro item member
  exact ⟨readable.common item member, encoding.bytes_of_marked member⟩

theorem unmarked_specific {row : Row order.plan} {record : Bytes}
    (encoding : RecordCodec.Encoding order.codec row record) :
    ∀ item ∈ encoding.specific, item.field.isSourceId = false := by
  intro item member
  obtain ⟨slot, slotMember, fed, _⟩ :=
    (encoding.holdsSpecific.places row.planned.sound.feedsSpecific).exists_right member
  obtain ⟨position, _, rfl⟩ := List.mem_map.mp slotMember
  cases fed with
  | field unmarked _ _ _ => exact unmarked

theorem carries_specific {row : Row order.plan} {record : Bytes}
    (encoding : RecordCodec.Encoding order.codec row record) (readable : encoding.Readable) :
    ∀ item ∈ encoding.specific, Carries item row.id := by
  intro item member
  refine ⟨readable.specific item member, fun marked => ?_⟩
  simp [unmarked_specific encoding item member] at marked

theorem sharedSource?_behind (sound : order.Sound comparators) (left right : Row order.plan)
    (leftBytes rightBytes : Bytes) :
    order.sharedSource? (behind left.id right.id leftBytes rightBytes order.plan.common.fields none) =
      if left.id = right.id then some left.id else none := by
  rw [sharedSource?, behind]
  have several := sound.plan.marked_iff
  by_cases marked : sourceIdName ∈ order.plan.common.names
  · have any : order.plan.common.fields.any Field.isSourceId = true := by
      simpa [Schema.names, Field.isSourceId] using marked
    simp only [any, if_true]
  · have none : order.plan.common.fields.any Field.isSourceId = false := by
      rw [List.any_eq_false]
      intro field member isMarked
      have named : field.name = sourceIdName := by simpa [Field.isSourceId] using isMarked
      exact marked (named ▸ List.mem_map_of_mem member)
    have single : ¬2 ≤ order.plan.job.sources.length := fun many => marked (several.mpr many)
    have leftHead := left.planned.head?_of_single sound.plan single
    have rightHead := right.planned.head?_of_single sound.plan single
    have sameSource : left.source = right.source := Option.some.inj (leftHead.symm.trans rightHead)
    simp [none, sound.plan.isMultiSource_eq, single, leftHead, Row.id, sameSource]

theorem leading_items {items : List (Item order.codec)} {fields leading rest : List Field}
    {cells : List Cell} (holds : RecordCodec.Holds items fields cells) (split : fields = leading ++ rest)
    {keys : List SortKey} (sorts : List.Forall₂ SortKey.SortsBy keys leading) :
    ∃ first last : List (Item order.codec), (∀ item ∈ first, item ∈ items) ∧
      first.map Item.field = leading ∧
      Item.join items = Item.join first ++ Item.join last ∧
      cells = first.map Item.cell ++ last.map Item.cell ∧
      keys.length ≤ (first.map Item.cell).length := by
  obtain ⟨sameFields, sameCells⟩ := holds
  obtain ⟨first, last, parts, firstFields, _⟩ := List.map_eq_append_iff.mp (sameFields.trans split)
  refine ⟨first, last, ?_, firstFields, ?_, ?_, ?_⟩
  · intro item member
    exact parts ▸ List.mem_append_left last member
  · rw [parts, Item.join_append]
  · rw [← sameCells, parts, List.map_append]
  · rw [List.length_map, ← List.length_map Item.field, firstFields]
    exact Nat.le_of_eq sorts.length_eq

theorem compareSecondaryBytes_rows (sound : order.Sound comparators) {left right : Row order.plan}
    {leftRecord rightRecord : Bytes} (leftEncoding : RecordCodec.Encoding order.codec left leftRecord)
    (rightEncoding : RecordCodec.Encoding order.codec right rightRecord)
    (leftReadable : leftEncoding.Readable) (rightReadable : rightEncoding.Readable)
    (same : right.source = left.source) :
    order.compareSecondaryBytes leftRecord rightRecord (Item.join leftEncoding.common).length
        (Item.join rightEncoding.common).length (order.secondaryOf left.id) =
      .ok (SortKey.compareAll (order.secondaryOf left.id) left.specificCells right.specificCells) := by
  obtain ⟨⟨leading, rest, split, sorts⟩, _⟩ := sound.secondary left.declared left.source left.planned
  obtain ⟨lefts, leftRest, insideLeft, leftFields, leftBytes, leftCells, leftLong⟩ :=
    leading_items leftEncoding.holdsSpecific split sorts
  obtain ⟨rights, rightRest, insideRight, rightFields, rightBytes, rightCells, rightLong⟩ :=
    leading_items rightEncoding.holdsSpecific (same ▸ split) sorts
  have walked := compareSecondaryBytes_items
    (fun item member => carries_specific leftEncoding leftReadable item (insideLeft item member))
    (fun item member => carries_specific rightEncoding rightReadable item (insideRight item member))
    (fun item member => unmarked_specific leftEncoding item (insideLeft item member))
    (leftFields.symm ▸ sorts) (rightFields.trans leftFields.symm)
    (Item.join leftEncoding.common) (Item.join leftRest) (Item.join rightEncoding.common)
    (Item.join rightRest)
  rw [List.append_assoc, List.append_assoc, ← leftBytes, ← rightBytes, ← leftEncoding.bytes,
    ← rightEncoding.bytes] at walked
  rw [Row.id, leftCells, rightCells, SortKey.compareAll_append leftLong rightLong]
  exact walked

theorem compareBytes_rows (sound : order.Sound comparators) {left right : Row order.plan}
    {leftRecord rightRecord : Bytes} (leftEncoding : RecordCodec.Encoding order.codec left leftRecord)
    (rightEncoding : RecordCodec.Encoding order.codec right rightRecord)
    (leftReadable : leftEncoding.Readable) (rightReadable : rightEncoding.Readable) :
    order.compareBytes leftRecord rightRecord = .ok (order.compareRows left right) := by
  obtain ⟨leftFields, leftCells⟩ := leftEncoding.holdsCommon
  obtain ⟨rightFields, rightCells⟩ := rightEncoding.holdsCommon
  obtain ⟨progress, walked, ended⟩ := compareCommonBytes_items
    (carries_common leftEncoding leftReadable) (carries_common rightEncoding rightReadable)
    (leftFields.symm ▸ sound.common) (rightFields.trans leftFields.symm) []
    (Item.join leftEncoding.specific) [] (Item.join rightEncoding.specific) none
  simp only [List.nil_append, List.length_nil, leftCells, rightCells, leftFields,
    ← leftEncoding.bytes, ← rightEncoding.bytes] at walked ended
  rw [compareBytes, compareBytesBy, walked, compareRows]
  simp only [ok_bind]
  cases ordering : SortKey.compareAll order.common left.commonCells right.commonCells with
  | lt => rfl
  | gt => rfl
  | eq =>
      rw [ended ordering, sharedSource?_behind sound]
      by_cases same : left.id = right.id
      · have secondary := compareSecondaryBytes_rows sound leftEncoding rightEncoding leftReadable
          rightReadable (id_eq_iff.mp same)
        simpa [same, behind] using secondary
      · simp [same]

theorem groups_compareBytes_rows (sound : order.Sound comparators) {left right : Row order.plan}
    {leftRecord rightRecord : Bytes} (leftEncoding : RecordCodec.Encoding order.codec left leftRecord)
    (rightEncoding : RecordCodec.Encoding order.codec right rightRecord)
    (leftReadable : leftEncoding.Readable) (rightReadable : rightEncoding.Readable) :
    order.groups.compareBytes leftRecord rightRecord = .ok (order.compareGroups left right) := by
  have split := (List.take_append_drop order.groups.size order.plan.common.fields).symm
  have sorts : List.Forall₂ SortKey.SortsBy order.groups.keys
      (order.plan.common.fields.take order.groups.size) := List.forall₂_take _ sound.common
  obtain ⟨lefts, leftRest, insideLeft, leftFields, leftBytes, leftCells, leftLong⟩ :=
    leading_items leftEncoding.holdsCommon split sorts
  obtain ⟨rights, rightRest, insideRight, rightFields, rightBytes, rightCells, rightLong⟩ :=
    leading_items rightEncoding.holdsCommon split sorts
  obtain ⟨progress, walked, _⟩ := compareCommonBytes_items
    (fun item member => carries_common leftEncoding leftReadable item (insideLeft item member))
    (fun item member => carries_common rightEncoding rightReadable item (insideRight item member))
    (leftFields.symm ▸ sorts) (rightFields.trans leftFields.symm) []
    (Item.join leftRest ++ Item.join leftEncoding.specific) []
    (Item.join rightRest ++ Item.join rightEncoding.specific) none
  simp only [List.nil_append, List.length_nil, ← List.append_assoc, ← leftBytes, ← rightBytes,
    ← leftEncoding.bytes, ← rightEncoding.bytes] at walked
  have unfolded : order.groups.compareBytes leftRecord rightRecord =
      order.compareBytesBy order.groups.keys false leftRecord rightRecord := rfl
  rw [unfolded, compareBytesBy, walked, compareGroups, leftCells, rightCells,
    SortKey.compareAll_append leftLong rightLong]
  simp

/-- Comparing records as bytes and comparing their tuples give the same order, and so does comparing by
the group-by fields alone; none of the comparisons fails. -/
theorem compareBytes_eq_compare {job : Job} {plan : Plan} {objects : ObjectCodecs} {limit : Nat}
    {fields : FieldCodec} {comparators : Comparators} {order : RecordOrder}
    (built : Plan.build job = .ok plan) (made : FieldCodec.ofPlan plan objects limit = .ok fields)
    (resolved : RecordOrder.ofPlan plan fields comparators = .ok order) {left right : Tuple}
    {leftRecord rightRecord : Bytes}
    (leftWritten : (RecordCodec.mk plan fields).encode left = .ok leftRecord)
    (rightWritten : (RecordCodec.mk plan fields).encode right = .ok rightRecord)
    (leftKept : (RecordCodec.mk plan fields).Keeps left)
    (rightKept : (RecordCodec.mk plan fields).Keeps right)
    (leftFits : leftRecord.length < 0x8000000000000000)
    (rightFits : rightRecord.length < 0x8000000000000000) :
    ∃ ordering groupOrdering,
      order.compare left right = .ok ordering ∧
      order.compareBytes leftRecord rightRecord = .ok ordering ∧
      order.groups.compare left right = .ok groupOrdering ∧
      order.groups.compareBytes leftRecord rightRecord = .ok groupOrdering := by
  obtain ⟨planSound, rfl⟩ := Plan.build_sound built
  obtain ⟨sound, rfl, rfl⟩ := ofPlan_sound planSound resolved
  let records : RecordCodec := ⟨order.plan, order.codec⟩
  have recordsSound : records.plan.Sound := planSound
  have knows : records.Knows := FieldCodec.ofPlan_knows planSound made
  obtain ⟨leftRow, rfl, ⟨leftEncoding⟩⟩ := (RecordCodec.encode_eq_ok recordsSound).mp leftWritten
  obtain ⟨rightRow, rfl, ⟨rightEncoding⟩⟩ := (RecordCodec.encode_eq_ok recordsSound).mp rightWritten
  have leftReadable := leftEncoding.readable recordsSound knows leftKept leftFits
  have rightReadable := rightEncoding.readable recordsSound knows rightKept rightFits
  refine ⟨order.compareRows leftRow rightRow, order.compareGroups leftRow rightRow, ?_, ?_, ?_, ?_⟩
  · exact compare_rows sound leftRow rightRow
  · exact compareBytes_rows sound leftEncoding rightEncoding leftReadable rightReadable
  · exact groups_compare_rows sound leftRow rightRow
  · exact groups_compareBytes_rows sound leftEncoding rightEncoding leftReadable rightReadable

end RecordOrder

def Sample.order : RecordOrder :=
  valueOf (RecordOrder.ofPlan Sample.plan Sample.fields .empty) (by decide)

/-- A page and a visit of one place, the one before the other by their sources. -/
theorem RecordOrder.compareBytes_eq_compare_sample :
    ∃ ordering groupOrdering,
      Sample.order.compare Sample.page Sample.visit = .ok ordering ∧
      Sample.order.compareBytes (valueOf (Sample.records.encode Sample.page) (by decide +kernel))
        (valueOf (Sample.records.encode Sample.visit) (by decide +kernel)) = .ok ordering ∧
      Sample.order.groups.compare Sample.page Sample.visit = .ok groupOrdering ∧
      Sample.order.groups.compareBytes (valueOf (Sample.records.encode Sample.page) (by decide +kernel))
        (valueOf (Sample.records.encode Sample.visit) (by decide +kernel)) = .ok groupOrdering :=
  RecordOrder.compareBytes_eq_compare Sample.built Sample.made (eq_valueOf _) (eq_valueOf _)
    (eq_valueOf _) Sample.keeps_page Sample.keeps_visit (by decide +kernel) (by decide +kernel)

end Cogrouping
