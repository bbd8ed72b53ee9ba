import Cogrouping.Partition
import Cogrouping.Proofs.Order.Records
import Cogrouping.Proofs.Order.Total

/-!
Where tuples go. Rows held equal by the hashed fields have the same bytes there, since none of these
fields has a comparator, and so they are in one partition.
-/

namespace Cogrouping

theorem RecordOrder.Sound.hashed_plain {comparators : Comparators} {order : RecordOrder}
    (sound : order.Sound comparators)
    (plain : ∀ criterion ∈ Partitioner.hashed order.plan, criterion.comparator = none) :
    ∀ key ∈ order.common.take (order.plan.minDepth + 1), key.comparator = none := by
  intro key member
  obtain ⟨criterion, inside, resolved⟩ :=
    (List.forall₂_take (order.plan.minDepth + 1) sound.criteria).exists_left member
  rw [plain criterion inside, Comparators.resolve, Except.ok.injEq] at resolved
  exact resolved.symm

theorem RecordOrder.Sound.hashed_orderable {comparators : Comparators} {order : RecordOrder}
    (sound : order.Sound comparators)
    (plain : ∀ criterion ∈ Partitioner.hashed order.plan, criterion.comparator = none) :
    ∀ field ∈ order.plan.common.fields.take (order.plan.minDepth + 1), field.type.isOrderable = true := by
  intro field member
  obtain ⟨key, inside, sorts⟩ :=
    (List.forall₂_take (order.plan.minDepth + 1) sound.common).exists_left member
  simpa [sound.hashed_plain plain key inside] using sorts.usable

theorem FieldCodec.Written.bytes_eq {codec : FieldCodec} {type : DataType} {left right : Value}
    {leftBytes rightBytes : Bytes} (leftWritten : codec.Written type left leftBytes)
    (rightWritten : codec.Written type right rightBytes) (orderable : type.isOrderable = true)
    (equal : left.sortBytes = right.sortBytes) : leftBytes = rightBytes := by
  by_cases texted : type = .text
  · subst texted
    cases leftWritten with
    | text leftText _ =>
        cases rightWritten with
        | text rightText _ =>
            have sameContent : Utf8.encode leftText = Utf8.encode rightText := equal
            rw [sameContent]
  · rw [SortKey.bytes_eq_sortBytes leftWritten orderable texted,
      SortKey.bytes_eq_sortBytes rightWritten orderable texted]
    exact equal

namespace Item

variable {codec : FieldCodec}

theorem bytes_eq {left right : Item codec} (same : right.field = left.field)
    (orderable : left.field.type.isOrderable = true)
    (equal : left.cell.sortBytes = right.cell.sortBytes) : left.bytes = right.bytes := by
  obtain ⟨field, leftCell, leftBytes, leftWritten⟩ := left
  obtain ⟨_, rightCell, rightBytes, rightWritten⟩ := right
  cases same
  cases leftWritten with
  | sourceId leftId marked =>
      cases rightWritten with
      | sourceId rightId _ => exact equal
      | value unmarked _ => simp [marked] at unmarked
  | value unmarked leftWritten =>
      cases rightWritten with
      | sourceId rightId marked => simp [marked] at unmarked
      | value _ rightWritten => exact leftWritten.bytes_eq rightWritten orderable equal

theorem join_eq {keys : List SortKey} {lefts rights : List (Item codec)}
    (sorts : List.Forall₂ SortKey.SortsBy keys (lefts.map Item.field))
    (same : rights.map Item.field = lefts.map Item.field)
    (plain : ∀ key ∈ keys, key.comparator = none)
    (equal : SortKey.compareAll keys (lefts.map Item.cell) (rights.map Item.cell) = .eq) :
    join lefts = join rights := by
  induction lefts generalizing keys rights with
  | nil =>
      have none : rights = [] := List.map_eq_nil_iff.mp same
      rw [none]
  | cons left lefts ih =>
      obtain ⟨right, rest, rfl, sameField, sameFields⟩ := List.map_eq_cons_iff.mp same
      obtain ⟨key, laterKeys, first, later, rfl⟩ := List.forall₂_cons_right_iff.mp sorts
      rw [List.forall_mem_cons] at plain
      rw [List.map_cons, List.map_cons, SortKey.compareAll_cons, Ordering.then_eq_eq] at equal
      have orderable : left.field.type.isOrderable = true := by simpa [plain.1] using first.usable
      have sortBytes := SortKey.sortBytes_eq plain.1 equal.1
      rw [join_cons, join_cons, bytes_eq sameField orderable sortBytes,
        ih later sameFields plain.2 equal.2]

theorem join_eq_of_hashed {comparators : Comparators} {order : RecordOrder}
    (sound : order.Sound comparators)
    (plain : ∀ criterion ∈ Partitioner.hashed order.plan, criterion.comparator = none)
    {lefts rights : List (Item codec)}
    (leftFields : lefts.map Item.field = order.plan.common.fields.take (order.plan.minDepth + 1))
    (rightFields : rights.map Item.field = order.plan.common.fields.take (order.plan.minDepth + 1))
    (equal : SortKey.compareAll (order.common.take (order.plan.minDepth + 1)) (lefts.map Item.cell)
      (rights.map Item.cell) = .eq) :
    join lefts = join rights := by
  have sorts : List.Forall₂ SortKey.SortsBy (order.common.take (order.plan.minDepth + 1))
      (lefts.map Item.field) :=
    leftFields.symm ▸ List.forall₂_take (order.plan.minDepth + 1) sound.common
  exact join_eq sorts (rightFields.trans leftFields.symm) (sound.hashed_plain plain) equal

end Item

theorem Plan.Planned.hashedSlots_eq {plan : Plan} {declared : Source} {source : SourcePlan}
    (planned : plan.Planned declared source) (sound : plan.Sound) :
    source.commonSlots.take (plan.minDepth + 1) =
      (((source.commonSlots.take plan.groupBy.length).filterMap Slot.position?).take
        (plan.minDepth + 1)).map .field := by
  have inside : plan.minDepth + 1 ≤ plan.groupBy.length := by
    rw [sound.groupBy_length_eq]
    exact Nat.succ_le_succ sound.common.shallowest
  rw [List.map_take, ← planned.groupSlots_eq sound, List.take_take, Nat.min_eq_left inside]

namespace Partitioner

theorem checkHashed_eq_ok {criteria : List Criterion} :
    checkHashed criteria = .ok () ↔ ∀ criterion ∈ criteria, criterion.comparator = none := by
  induction criteria with
  | nil => simp [checkHashed]
  | cons criterion criteria ih =>
      rw [checkHashed, List.forall_mem_cons]
      cases given : criterion.comparator with
      | none => simp [ih]
      | some comparator => simp

theorem toNat_max_one (count : UInt64) : (max count 1).toNat = max count.toNat 1 := by
  have unfolded : max count 1 = if count ≤ 1 then 1 else count := rfl
  have one : (1 : UInt64).toNat = 1 := rfl
  rw [unfolded]
  split
  · rename_i within
    rw [UInt64.le_iff_toNat_le] at within
    omega
  · rename_i above
    rw [UInt64.le_iff_toNat_le] at above
    omega

theorem max_positive (count : UInt64) : 0 < max count 1 := by
  have zero : (0 : UInt64).toNat = 0 := rfl
  rw [UInt64.lt_iff_toNat_lt, toNat_max_one]
  omega

theorem one_lt_iff {count : UInt64} (positive : 0 < count) : 1 < count ↔ count ≠ 1 := by
  have one : (1 : UInt64).toNat = 1 := rfl
  have zero : (0 : UInt64).toNat = 0 := rfl
  rw [UInt64.lt_iff_toNat_lt] at positive ⊢
  rw [← UInt64.toNat_inj.ne]
  omega

theorem ofPlan_sound {plan : Plan} {codec : FieldCodec} {count : UInt64} {seed : Option UInt64}
    {partitioner : Partitioner} (made : ofPlan plan codec count seed = .ok partitioner) :
    partitioner = ⟨plan, codec, max count 1, seed⟩ ∧
      (1 < partitioner.count → ∀ criterion ∈ hashed plan, criterion.comparator = none) := by
  rw [ofPlan] at made
  by_cases several : 1 < max count 1
  · simp only [several, if_true] at made
    obtain ⟨_, checked, made⟩ := bind_eq_ok.mp made
    cases made
    exact ⟨rfl, fun _ => checkHashed_eq_ok.mp checked⟩
  · simp only [several, if_false] at made
    cases made
    exact ⟨rfl, fun more => absurd more several⟩

theorem route_lt (partitioner : Partitioner) (positive : 0 < partitioner.count) (key : Bytes) :
    (partitioner.route key).number.toNat < partitioner.count.toNat := by
  have below := UInt64.lt_iff_toNat_lt.mp (UInt64.mod_lt (Digest.seeded partitioner.seed key).leading
    positive)
  rw [route, UInt64.toNat_toUInt32]
  exact Nat.lt_of_le_of_lt (Nat.mod_le _ _) below

theorem encodeKey_eq (codec : FieldCodec) (tuple : Tuple) (source : SourceId) (fields : List Field)
    (positions : List Nat) :
    encodeKey codec tuple fields (positions.map .field) =
      RecordCodec.encodeSlots codec tuple source fields (positions.map .field) := by
  induction fields generalizing positions with
  | nil =>
      cases positions <;> rfl
  | cons field fields ih =>
      cases positions with
      | nil => rfl
      | cons position positions =>
          rw [List.map_cons, encodeKey, RecordCodec.encodeSlots, RecordCodec.encodeSlot, ih, bind_assoc]

end Partitioner

namespace RecordCodec.Encoding

variable {codec : FieldCodec} {plan : Plan} {row : Row plan} {record : Bytes}

def hashed (encoding : Encoding codec row record) : Bytes :=
  Item.join (encoding.common.take (plan.minDepth + 1))

theorem holds_hashed (encoding : Encoding codec row record) :
    Holds (encoding.common.take (plan.minDepth + 1)) (plan.common.fields.take (plan.minDepth + 1))
      (row.commonCells.take (plan.minDepth + 1)) := by
  constructor
  · rw [List.map_take, encoding.holdsCommon.fields]
  · rw [List.map_take, encoding.holdsCommon.cells]

theorem outcome_encodeHashed (encoding : Encoding codec row record) (buffers : Buffers) :
    ∃ scratch, outcome (encodeSlots codec row.tuple row.source.id
        (plan.common.fields.take (plan.minDepth + 1))
        (row.source.commonSlots.take (plan.minDepth + 1))) buffers =
      (.ok (), { scratch, out := buffers.out ++ encoding.hashed }) := by
  have holds : Holds (encoding.common.take (plan.minDepth + 1))
      (plan.common.fields.take (plan.minDepth + 1))
      (row.cells (row.source.commonSlots.take (plan.minDepth + 1))) := by
    rw [Row.cells, List.map_take]
    exact encoding.holds_hashed
  have feeds := List.forall₂_take (plan.minDepth + 1) row.planned.sound.feedsCommon
  exact encodeSlots_holds row feeds holds buffers

theorem hashed_eq {comparators : Comparators} {order : RecordOrder} (sound : order.Sound comparators)
    (plain : ∀ criterion ∈ Partitioner.hashed order.plan, criterion.comparator = none)
    {left right : Row order.plan} {leftRecord rightRecord : Bytes}
    (leftEncoding : Encoding order.codec left leftRecord)
    (rightEncoding : Encoding order.codec right rightRecord)
    (equal : order.comparePrefix (order.plan.minDepth + 1) left right = .eq) :
    leftEncoding.hashed = rightEncoding.hashed := by
  obtain ⟨leftFields, leftCells⟩ := leftEncoding.holds_hashed
  obtain ⟨rightFields, rightCells⟩ := rightEncoding.holds_hashed
  refine Item.join_eq_of_hashed sound plain leftFields rightFields ?_
  rw [leftCells, rightCells, ← RecordOrder.comparePrefix_take sound]
  exact equal

end RecordCodec.Encoding

namespace Partitioner

variable {comparators : Comparators} {order : RecordOrder} {partitioner : Partitioner}

def place (partitioner : Partitioner) (key : Bytes) : PartitionId :=
  if partitioner.count = 1 then ⟨0⟩ else partitioner.route key

theorem place_lt (positive : 0 < partitioner.count) (key : Bytes) :
    (partitioner.place key).number.toNat < partitioner.count.toNat := by
  rw [place]
  by_cases single : partitioner.count = 1
  · rw [if_pos single, single]
    decide
  · rw [if_neg single]
    exact partitioner.route_lt positive key

theorem assign_named (sound : partitioner.plan.Sound) (several : partitioner.count ≠ 1) {tuple : Tuple}
    {source : SourcePlan} (named : partitioner.plan.sourceNamed tuple.schema.name = .ok source)
    (buffers : Buffers) :
    outcome (partitioner.assign tuple) buffers =
      outcome (RecordCodec.encodeSlots partitioner.codec tuple source.id
          (partitioner.plan.common.fields.take (partitioner.plan.minDepth + 1))
          (source.commonSlots.take (partitioner.plan.minDepth + 1)) >>= fun _ => do
        return partitioner.route (← get).out) { buffers with out := [] } := by
  obtain ⟨declared, planned, _⟩ := (Plan.sourceNamed_eq_ok sound).mp named
  rw [assign, if_neg several, named, outcome_bind_of_ok (outcome_ofExcept _ _),
    outcome_bind_of_ok (outcome_modify _ _)]
  simp only [planned.hashedSlots_eq sound, encodeKey_eq _ _ source.id]

theorem outcome_assign (sound : partitioner.plan.Sound) {row : Row partitioner.plan} {record : Bytes}
    (encoding : RecordCodec.Encoding partitioner.codec row record) (buffers : Buffers) :
    ∃ after, outcome (partitioner.assign row.tuple) buffers =
      (.ok (partitioner.place encoding.hashed), after) := by
  rw [place]
  by_cases single : partitioner.count = 1
  · rw [assign, if_pos single, if_pos single]
    exact ⟨buffers, rfl⟩
  · obtain ⟨scratch, written⟩ := encoding.outcome_encodeHashed { buffers with out := [] }
    rw [if_neg single, assign_named sound single (row.sourceNamed sound), outcome_bind_of_ok written]
    exact ⟨_, rfl⟩

theorem exists_assigned (sound : partitioner.plan.Sound) {tuple : Tuple} {record : Bytes}
    (encoded : (RecordCodec.mk partitioner.plan partitioner.codec).encode tuple = .ok record)
    (buffers : Buffers) :
    ∃ id after, outcome (partitioner.assign tuple) buffers = (.ok id, after) := by
  have recordsSound : (RecordCodec.mk partitioner.plan partitioner.codec).plan.Sound := sound
  obtain ⟨row, rfl, ⟨encoding⟩⟩ := (RecordCodec.encode_eq_ok recordsSound).mp encoded
  obtain ⟨after, assigned⟩ := outcome_assign sound encoding buffers
  exact ⟨_, after, assigned⟩

theorem colocated (sound : order.Sound comparators)
    (plain : 1 < partitioner.count → ∀ criterion ∈ hashed order.plan, criterion.comparator = none)
    (positive : 0 < partitioner.count) {left right : Row order.plan} {leftRecord rightRecord : Bytes}
    (leftEncoding : RecordCodec.Encoding order.codec left leftRecord)
    (rightEncoding : RecordCodec.Encoding order.codec right rightRecord)
    (equal : order.comparePrefix (order.plan.minDepth + 1) left right = .eq) :
    partitioner.place leftEncoding.hashed = partitioner.place rightEncoding.hashed := by
  rw [place, place]
  by_cases single : partitioner.count = 1
  · rw [if_pos single, if_pos single]
  · rw [if_neg single, if_neg single]
    have several : 1 < partitioner.count := (one_lt_iff positive).mpr single
    exact congrArg partitioner.route (leftEncoding.hashed_eq sound (plain several) rightEncoding equal)

end Partitioner

end Cogrouping
