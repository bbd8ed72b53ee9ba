import Cogrouping.Bytes

/-!
Laws of byte strings. Their order is a total order on strings, and strings of one length are ordered
as the numbers they stand for; slices of a buffer that is put together are its parts.
-/

namespace Cogrouping

theorem compare_congr {α β : Type} [Ord α] [LT α] [LE α] [Std.LawfulOrderOrd α] [Std.LawfulOrderLT α]
    [Ord β] [LT β] [LE β] [Std.LawfulOrderOrd β] [Std.LawfulOrderLT β] {a b : α} {c d : β}
    (below : a < b ↔ c < d) (above : b < a ↔ d < c) : compare a b = compare c d := by
  cases order : compare a b with
  | lt => exact (Std.compare_eq_lt.mpr (below.mp (Std.compare_eq_lt.mp order))).symm
  | gt => exact (Std.compare_eq_gt.mpr (above.mp (Std.compare_eq_gt.mp order))).symm
  | eq =>
      cases other : compare c d with
      | eq => rfl
      | lt =>
          have absurd := Std.compare_eq_lt.mpr (below.mpr (Std.compare_eq_lt.mp other))
          simp [order] at absurd
      | gt =>
          have absurd := Std.compare_eq_gt.mpr (above.mpr (Std.compare_eq_gt.mp other))
          simp [order] at absurd

namespace Bytes

theorem order_eq_compareLex (left right : Bytes) :
    order left right = List.compareLex (compareOn UInt8.toNat) left right := by
  induction left generalizing right with
  | nil => cases right <;> rfl
  | cons first rest ih =>
      cases right with
      | nil => rfl
      | cons other others =>
          rw [order, List.compareLex_cons_cons, ih]
          rfl

instance : Std.TransCmp order := by
  rw [show order = List.compareLex (compareOn UInt8.toNat) from
    funext fun left => funext (order_eq_compareLex left)]
  infer_instance

theorem order_self (bytes : Bytes) : order bytes bytes = .eq := Std.ReflCmp.compare_self

theorem order_eq_eq {left right : Bytes} : order left right = .eq ↔ left = right := by
  constructor
  · intro same
    induction left generalizing right with
    | nil =>
        cases right with
        | nil => rfl
        | cons => simp [order] at same
    | cons first rest ih =>
        cases right with
        | nil => simp [order] at same
        | cons other others =>
            simp only [order, Ordering.then_eq_eq] at same
            rw [UInt8.toNat_inj.mp (Nat.compare_eq_eq.mp same.1), ih same.2]
  · rintro rfl
    exact order_self left

theorem order_append_right {left right : Bytes} (sameLength : left.length = right.length)
    (leftTail rightTail : Bytes) :
    order (left ++ leftTail) (right ++ rightTail) =
      (order left right).then (order leftTail rightTail) := by
  induction left generalizing right with
  | nil =>
      have empty : right = [] := List.length_eq_zero_iff.mp sameLength.symm
      simp [empty, order]
  | cons byte left ih =>
      cases right with
      | nil => simp at sameLength
      | cons other right =>
          simp only [List.length_cons, Nat.add_right_cancel_iff] at sameLength
          simp only [List.cons_append, order, ih sameLength, Ordering.then_assoc]

theorem toNat_concat (bytes : Bytes) (byte : UInt8) :
    toNat (bytes ++ [byte]) = toNat bytes * 256 + byte.toNat := by
  simp [toNat, List.foldl_append]

theorem exists_last {bytes : Bytes} {width : Nat} (sized : bytes.length = width + 1) :
    ∃ front last, bytes = front ++ [last] ∧ front.length = width := by
  have nonempty := List.ne_nil_of_length_eq_add_one sized
  refine ⟨bytes.dropLast, bytes.getLast nonempty, (List.dropLast_concat_getLast nonempty).symm, ?_⟩
  rw [List.length_dropLast]
  omega

theorem order_eq_compare_toNat {left right : Bytes} (sameLength : left.length = right.length) :
    order left right = compare (toNat left) (toNat right) := by
  generalize lengthEq : left.length = length at sameLength
  induction length generalizing left right with
  | zero =>
      rw [List.length_eq_zero_iff.mp lengthEq, List.length_eq_zero_iff.mp sameLength.symm]
      rfl
  | succ length ih =>
      obtain ⟨left, leftLast, rfl, leftLength⟩ := exists_last lengthEq
      obtain ⟨right, rightLast, rfl, rightLength⟩ := exists_last sameLength.symm
      rw [order_append_right (by omega), ih leftLength rightLength.symm, toNat_concat, toNat_concat]
      have leftBound := leftLast.toNat_lt
      have rightBound := rightLast.toNat_lt
      have lastOrder : order [leftLast] [rightLast] = compare leftLast.toNat rightLast.toNat := by
        simp [order]
      rw [lastOrder]
      cases front : compare (toNat left) (toNat right) with
      | lt =>
          have below := Nat.compare_eq_lt.mp front
          exact (Nat.compare_eq_lt.mpr (by omega)).symm
      | gt =>
          have above := Nat.compare_eq_gt.mp front
          exact (Nat.compare_eq_gt.mpr (by omega)).symm
      | eq =>
          have same := Nat.compare_eq_eq.mp front
          rw [Ordering.eq_then]
          exact compare_congr (by omega) (by omega)

@[simp] theorem ofNat_zero : ofNat 0 = [] := by rw [ofNat]; rfl

theorem ofNat_pos {number : Nat} (positive : 0 < number) :
    ofNat number = ofNat (number / 256) ++ [UInt8.ofNat number] := by
  rw [ofNat, if_neg (by omega)]

@[simp] theorem toNat_ofNat (number : Nat) : toNat (ofNat number) = number := by
  induction number using Nat.strongRecOn with
  | ind number ih =>
      by_cases zero : number = 0
      · simp [zero, toNat]
      · rw [ofNat_pos (by omega), toNat_concat, ih _ (by omega)]
        simp only [UInt8.toNat_ofNat']
        omega

theorem length_ofNat_le {number width : Nat} (bounded : number < Nat.pow 256 width) :
    (ofNat number).length ≤ width := by
  induction width generalizing number with
  | zero =>
      have zero : number = 0 := by simpa using bounded
      simp [zero]
  | succ width ih =>
      by_cases zero : number = 0
      · simp [zero]
      · have step : Nat.pow 256 (width + 1) = Nat.pow 256 width * 256 := rfl
        have less : number / 256 < Nat.pow 256 width := by omega
        have shorter := ih less
        rw [ofNat_pos (by omega)]
        simpa using shorter

theorem length_ofNat_mono {small large : Nat} (below : small ≤ large) :
    (ofNat small).length ≤ (ofNat large).length := by
  induction large using Nat.strongRecOn generalizing small with
  | ind large ih =>
      by_cases zero : small = 0
      · simp [zero]
      · have positive : 0 < large := by omega
        have less : small / 256 ≤ large / 256 := by omega
        have shorter := ih (large / 256) (by omega) less
        rw [ofNat_pos (Nat.pos_of_ne_zero zero), ofNat_pos positive]
        simpa using shorter

@[simp] theorem length_ofNatWidth (width number : Nat) : (ofNatWidth width number).length = width := by
  induction width generalizing number with
  | zero => rfl
  | succ width ih => simp [ofNatWidth, ih]

@[simp] theorem toNat_ofNatWidth (width number : Nat) :
    toNat (ofNatWidth width number) = number % Nat.pow 256 width := by
  induction width generalizing number with
  | zero => simp [ofNatWidth, toNat, Nat.mod_one]
  | succ width ih =>
      have step : Nat.pow 256 (width + 1) = 256 * Nat.pow 256 width := Nat.pow_succ'
      rw [ofNatWidth, toNat_concat, ih, step, Nat.mod_mul, UInt8.toNat_ofNat']
      omega

theorem toNat_lt (bytes : Bytes) : toNat bytes < Nat.pow 256 bytes.length := by
  generalize sized : bytes.length = width
  induction width generalizing bytes with
  | zero =>
      rw [List.length_eq_zero_iff.mp sized]
      exact Nat.one_pos
  | succ width ih =>
      obtain ⟨front, last, rfl, frontSized⟩ := exists_last sized
      have step : Nat.pow 256 (width + 1) = Nat.pow 256 width * 256 := rfl
      have below := ih front frontSized
      have bound := last.toNat_lt
      rw [toNat_concat]
      omega

theorem ofNatWidth_toNat (bytes : Bytes) : ofNatWidth bytes.length (toNat bytes) = bytes := by
  generalize sized : bytes.length = width
  induction width generalizing bytes with
  | zero =>
      rw [List.length_eq_zero_iff.mp sized]
      rfl
  | succ width ih =>
      obtain ⟨front, last, rfl, frontSized⟩ := exists_last sized
      have bound := last.toNat_lt
      have high : (toNat front * 256 + last.toNat) / 256 = toNat front := by omega
      have low : UInt8.ofNat (toNat front * 256 + last.toNat) = last := by
        apply UInt8.toNat_inj.mp
        rw [UInt8.toNat_ofNat']
        omega
      rw [toNat_concat, ofNatWidth, high, low, ih front frontSized]

theorem ofNatWidth_length_ofNat (number : Nat) :
    ofNatWidth (ofNat number).length number = ofNat number := by
  have whole := ofNatWidth_toNat (ofNat number)
  rw [toNat_ofNat] at whole
  exact whole

theorem length_ofNat_toNat_le (bytes : Bytes) : (ofNat (toNat bytes)).length ≤ bytes.length :=
  length_ofNat_le (toNat_lt bytes)

@[simp] theorem length_complement (bytes : Bytes) : (complement bytes).length = bytes.length :=
  List.length_map _

@[simp] theorem complement_complement (bytes : Bytes) : complement (complement bytes) = bytes := by
  simp [complement, Function.comp_def]

theorem toNat_not (byte : UInt8) : (~~~byte).toNat = 255 - byte.toNat := by
  simp

theorem order_complement {left right : Bytes} (sameLength : left.length = right.length) :
    order (complement left) (complement right) = order right left := by
  induction left generalizing right with
  | nil =>
      have empty : right = [] := List.length_eq_zero_iff.mp sameLength.symm
      simp [empty, complement]
  | cons byte left ih =>
      cases right with
      | nil => simp at sameLength
      | cons other right =>
          simp only [List.length_cons, Nat.add_right_cancel_iff] at sameLength
          have head : compare (~~~byte).toNat (~~~other).toNat = compare other.toNat byte.toNat := by
            have bound := byte.toNat_lt
            have otherBound := other.toNat_lt
            rw [toNat_not, toNat_not]
            exact compare_congr (by omega) (by omega)
          have tail := ih sameLength
          simp only [complement] at tail
          simp only [complement, List.map_cons, order, head, tail]

theorem slice?_middle (before middle after : Bytes) :
    slice? (before ++ middle ++ after) before.length middle.length = some middle := by
  have reaches : before.length + middle.length ≤ (before ++ middle ++ after).length := by
    simp
  rw [slice?, if_pos reaches]
  simp [List.append_assoc]

theorem take_drop_middle (before middle after : Bytes) :
    ((before ++ middle ++ after).drop before.length).take middle.length = middle := by
  simp [List.append_assoc]

/-- The bytes stand in a buffer at an offset. -/
def At (buffer : Bytes) (offset : Nat) (bytes : Bytes) : Prop :=
  ∃ before after, buffer = before ++ bytes ++ after ∧ before.length = offset

section At

variable {buffer bytes first second : Bytes} {offset size : Nat}

theorem At.reaches (stands : At buffer offset bytes) : offset + bytes.length ≤ buffer.length := by
  obtain ⟨before, after, rfl, rfl⟩ := stands
  simp only [List.length_append]
  omega

theorem At.take_drop (stands : At buffer offset bytes) :
    (buffer.drop offset).take bytes.length = bytes := by
  obtain ⟨before, after, rfl, rfl⟩ := stands
  exact take_drop_middle before bytes after

theorem at_take_drop (reaches : offset + size ≤ buffer.length) :
    At buffer offset ((buffer.drop offset).take size) := by
  refine ⟨buffer.take offset, (buffer.drop offset).drop size, ?_, ?_⟩
  · rw [List.append_assoc, List.take_append_drop, List.take_append_drop]
  · rw [List.length_take]
    omega

theorem length_take_drop (reaches : offset + size ≤ buffer.length) :
    ((buffer.drop offset).take size).length = size := by
  rw [List.length_take, List.length_drop]
  omega

theorem slice?_eq_some :
    slice? buffer offset size = some bytes ↔ At buffer offset bytes ∧ bytes.length = size := by
  constructor
  · intro found
    unfold slice? at found
    split at found
    · rename_i reaches
      cases found
      exact ⟨at_take_drop reaches, length_take_drop reaches⟩
    · cases found
  · rintro ⟨⟨before, after, rfl, rfl⟩, rfl⟩
    exact slice?_middle before bytes after

theorem At.extend (stands : At buffer offset bytes) (more : Bytes) :
    At (buffer ++ more) offset bytes := by
  obtain ⟨before, after, rfl, placed⟩ := stands
  exact ⟨before, after ++ more, by simp only [List.append_assoc], placed⟩

theorem at_append : At buffer offset (first ++ second) ↔
    At buffer offset first ∧ At buffer (offset + first.length) second := by
  constructor
  · rintro ⟨before, after, rfl, rfl⟩
    refine ⟨⟨before, second ++ after, by simp only [List.append_assoc], rfl⟩, ?_⟩
    exact ⟨before ++ first, after, by simp only [List.append_assoc], List.length_append⟩
  · rintro ⟨⟨before, after, rfl, rfl⟩, ⟨front, behind, same, placed⟩⟩
    have sized : (before ++ first).length = front.length := by
      rw [placed, List.length_append]
    have parts : before ++ first ++ after = front ++ (second ++ behind) := by
      rw [same, List.append_assoc]
    obtain ⟨_, rfl⟩ := List.append_inj parts sized
    exact ⟨before, behind, by simp only [List.append_assoc], rfl⟩

theorem at_nil (inside : offset ≤ buffer.length) : At buffer offset [] := by
  have stands : At buffer offset ((buffer.drop offset).take 0) := at_take_drop (by omega)
  rwa [List.take_zero] at stands

theorem at_self (bytes : Bytes) : At bytes 0 bytes := ⟨[], [], by simp, rfl⟩

theorem At.eq_of_length (stands : At buffer 0 bytes) (whole : bytes.length = buffer.length) :
    bytes = buffer := by
  have taken := stands.take_drop
  rw [List.drop_zero, whole, List.take_length] at taken
  exact taken.symm

end At

end Bytes

end Cogrouping
