import Cogrouping.Text.Utf8
import Mathlib.Tactic.SplitIfs

/-!
Text written as UTF-8 is read back, and the bytes that are read as a text are those it is written as. One
step reads one code point, by the range it lies in or by its leading byte.
-/

namespace Cogrouping.Utf8

theorem toNat_lt_of_char (char : Char) : char.toNat < 0x110000 := by
  have valid := char.valid
  simp only [Char.toNat]
  rcases valid with low | high
  · have bound : char.val.toNat < 0xD800 := low
    omega
  · exact high.2

theorem not_surrogate (char : Char) : char.toNat < 0xD800 ∨ 0xE000 ≤ char.toNat := by
  have valid := char.valid
  simp only [Char.toNat]
  rcases valid with low | high
  · exact .inl low
  · exact .inr high.1

theorem ofNat_eq_of_toNat (char : Char) {point : Nat} (same : point = char.toNat) :
    Char.ofNat point = char := by
  rw [same, Char.ofNat_toNat]

theorem decodeFrom_one {char : Char} (range : char.toNat < 0x80) (index : Nat) (rest : Bytes) :
    decodeFrom index (encodeChar char ++ rest) =
      (decodeFrom (index + 1) rest).map (char :: ·) := by
  have lead : (UInt8.ofNat char.toNat).toNat = char.toNat := by
    rw [UInt8.toNat_ofNat']
    omega
  have width : width? (UInt8.ofNat char.toNat) = some 1 := by
    simp only [width?, lead, if_pos range]
  simp only [encodeChar, if_pos range, List.cons_append, List.nil_append, decodeFrom, width, lead,
    Char.ofNat_toNat]

theorem decodeFrom_two {char : Char} (low : 0x80 ≤ char.toNat) (range : char.toNat < 0x800)
    (index : Nat) (rest : Bytes) :
    decodeFrom index (encodeChar char ++ rest) =
      (decodeFrom (index + 2) rest).map (char :: ·) := by
  have lead : (UInt8.ofNat (0xC0 + char.toNat / 0x40)).toNat = 0xC0 + char.toNat / 0x40 := by
    rw [UInt8.toNat_ofNat']
    omega
  have second : (UInt8.ofNat (0x80 + char.toNat % 0x40)).toNat = 0x80 + char.toNat % 0x40 := by
    rw [UInt8.toNat_ofNat']
    omega
  have width : width? (UInt8.ofNat (0xC0 + char.toNat / 0x40)) = some 2 := by
    simp only [width?, lead]
    rw [if_neg (by omega), if_neg (by omega), if_pos (by omega)]
  have allowed : allowsSecond (UInt8.ofNat (0xC0 + char.toNat / 0x40))
      (UInt8.ofNat (0x80 + char.toNat % 0x40)) = true := by
    simp only [allowsSecond, lead, second, Bool.and_eq_true, decide_eq_true_eq]
    rw [if_neg (by omega), if_neg (by omega), if_neg (by omega), if_neg (by omega)]
    omega
  simp only [encodeChar, if_neg (Nat.not_lt.mpr low), if_pos range, List.cons_append,
    List.nil_append, decodeFrom, width, allowed, Bool.not_true, Bool.false_eq_true, if_false,
    if_true, tail, lead, second]
  rw [ofNat_eq_of_toNat char (by omega)]

theorem decodeFrom_three {char : Char} (low : 0x800 ≤ char.toNat) (range : char.toNat < 0x10000)
    (index : Nat) (rest : Bytes) :
    decodeFrom index (encodeChar char ++ rest) =
      (decodeFrom (index + 3) rest).map (char :: ·) := by
  have apart := not_surrogate char
  have lead : (UInt8.ofNat (0xE0 + char.toNat / 0x1000)).toNat = 0xE0 + char.toNat / 0x1000 := by
    rw [UInt8.toNat_ofNat']
    omega
  have second : (UInt8.ofNat (0x80 + char.toNat / 0x40 % 0x40)).toNat =
      0x80 + char.toNat / 0x40 % 0x40 := by
    rw [UInt8.toNat_ofNat']
    omega
  have third : (UInt8.ofNat (0x80 + char.toNat % 0x40)).toNat = 0x80 + char.toNat % 0x40 := by
    rw [UInt8.toNat_ofNat']
    omega
  have width : width? (UInt8.ofNat (0xE0 + char.toNat / 0x1000)) = some 3 := by
    simp only [width?, lead]
    rw [if_neg (by omega), if_neg (by omega), if_neg (by omega), if_pos (by omega)]
  have allowed : allowsSecond (UInt8.ofNat (0xE0 + char.toNat / 0x1000))
      (UInt8.ofNat (0x80 + char.toNat / 0x40 % 0x40)) = true := by
    simp only [allowsSecond, lead, second, Bool.and_eq_true, decide_eq_true_eq]
    constructor <;> split <;> (try split) <;> omega
  have continues : isContinuation (UInt8.ofNat (0x80 + char.toNat % 0x40)) = true := by
    simp only [isContinuation, third, Bool.and_eq_true, decide_eq_true_eq]
    omega
  simp only [encodeChar, if_neg (Nat.not_lt.mpr low), if_neg (show ¬char.toNat < 0x80 by omega),
    if_pos range, List.cons_append, List.nil_append, decodeFrom, width, allowed, continues,
    Bool.not_true, Bool.false_eq_true, if_false, if_true, tail, lead, second, third,
    show ¬3 = 2 by omega]
  rw [ofNat_eq_of_toNat char (by omega)]

theorem decodeFrom_four {char : Char} (low : 0x10000 ≤ char.toNat) (index : Nat) (rest : Bytes) :
    decodeFrom index (encodeChar char ++ rest) =
      (decodeFrom (index + 4) rest).map (char :: ·) := by
  have range := toNat_lt_of_char char
  have lead : (UInt8.ofNat (0xF0 + char.toNat / 0x40000)).toNat = 0xF0 + char.toNat / 0x40000 := by
    rw [UInt8.toNat_ofNat']
    omega
  have second : (UInt8.ofNat (0x80 + char.toNat / 0x1000 % 0x40)).toNat =
      0x80 + char.toNat / 0x1000 % 0x40 := by
    rw [UInt8.toNat_ofNat']
    omega
  have third : (UInt8.ofNat (0x80 + char.toNat / 0x40 % 0x40)).toNat =
      0x80 + char.toNat / 0x40 % 0x40 := by
    rw [UInt8.toNat_ofNat']
    omega
  have fourth : (UInt8.ofNat (0x80 + char.toNat % 0x40)).toNat = 0x80 + char.toNat % 0x40 := by
    rw [UInt8.toNat_ofNat']
    omega
  have width : width? (UInt8.ofNat (0xF0 + char.toNat / 0x40000)) = some 4 := by
    simp only [width?, lead]
    rw [if_neg (by omega), if_neg (by omega), if_neg (by omega), if_neg (by omega),
      if_pos (by omega)]
  have allowed : allowsSecond (UInt8.ofNat (0xF0 + char.toNat / 0x40000))
      (UInt8.ofNat (0x80 + char.toNat / 0x1000 % 0x40)) = true := by
    simp only [allowsSecond, lead, second, Bool.and_eq_true, decide_eq_true_eq]
    constructor <;> split <;> (try split) <;> omega
  have thirdContinues : isContinuation (UInt8.ofNat (0x80 + char.toNat / 0x40 % 0x40)) = true := by
    simp only [isContinuation, third, Bool.and_eq_true, decide_eq_true_eq]
    omega
  have fourthContinues : isContinuation (UInt8.ofNat (0x80 + char.toNat % 0x40)) = true := by
    simp only [isContinuation, fourth, Bool.and_eq_true, decide_eq_true_eq]
    omega
  simp only [encodeChar, if_neg (Nat.not_lt.mpr low), if_neg (show ¬char.toNat < 0x80 by omega),
    if_neg (show ¬char.toNat < 0x800 by omega), List.cons_append, List.nil_append, decodeFrom,
    width, allowed, thirdContinues, fourthContinues, Bool.not_true, Bool.false_eq_true, if_false,
    tail, lead, second, third, fourth, show ¬4 = 2 by omega, show ¬4 = 3 by omega]
  rw [ofNat_eq_of_toNat char (by omega)]

theorem decodeFrom_encodeChar (char : Char) (index : Nat) (rest : Bytes) :
    decodeFrom index (encodeChar char ++ rest) =
      (decodeFrom (index + (encodeChar char).length) rest).map (char :: ·) := by
  by_cases one : char.toNat < 0x80
  · rw [decodeFrom_one one]
    simp [encodeChar, one]
  · by_cases two : char.toNat < 0x800
    · rw [decodeFrom_two (by omega) two]
      simp [encodeChar, one, two]
    · by_cases three : char.toNat < 0x10000
      · rw [decodeFrom_three (by omega) three]
        simp [encodeChar, one, two, three]
      · rw [decodeFrom_four (by omega)]
        simp [encodeChar, one, two, three]

theorem decodeFrom_encode (chars : List Char) (index : Nat) :
    decodeFrom index (chars.flatMap encodeChar) = .ok chars := by
  induction chars generalizing index with
  | nil => rfl
  | cons char chars ih =>
      rw [List.flatMap_cons, decodeFrom_encodeChar, ih]
      rfl

theorem decode_encode (text : String) : decode (encode text) = .ok text := by
  rw [decode, encode, decodeFrom_encode, Except.map, String.ofList_toList]

theorem encode_inj {text other : String} : encode text = encode other ↔ text = other := by
  constructor
  · intro same
    have read := decode_encode text
    rw [same, decode_encode] at read
    cases read
    rfl
  · exact congrArg encode

theorem toNat_ofNat (point : Nat) (scalar : point < 0xD800 ∨ 0xE000 ≤ point ∧ point < 0x110000) :
    (Char.ofNat point).toNat = point := by
  have valid : point.isValidChar := scalar.imp id fun high => ⟨by omega, high.2⟩
  rw [Char.ofNat, dif_pos valid]
  rfl

theorem byte_eq {number : Nat} (byte : UInt8) (same : number = byte.toNat) :
    UInt8.ofNat number = byte := by
  rw [same, UInt8.ofNat_toNat]

theorem range_of_width? {lead : UInt8} {width : Nat} (found : width? lead = some width) :
    width = 1 ∧ lead.toNat < 0x80 ∨ width = 2 ∧ 0xC2 ≤ lead.toNat ∧ lead.toNat < 0xE0 ∨
      width = 3 ∧ 0xE0 ≤ lead.toNat ∧ lead.toNat < 0xF0 ∨
        width = 4 ∧ 0xF0 ≤ lead.toNat ∧ lead.toNat < 0xF5 := by
  simp only [width?] at found
  split_ifs at found <;> simp only [Option.some.injEq] at found <;> omega

theorem encodeChar_one {lead : UInt8} (range : lead.toNat < 0x80) :
    encodeChar (Char.ofNat lead.toNat) = [lead] := by
  have point := toNat_ofNat lead.toNat (by omega)
  rw [encodeChar, point]
  simp only [if_pos range, UInt8.ofNat_toNat]

theorem encodeChar_two {lead second : UInt8} (low : 0xC2 ≤ lead.toNat) (high : lead.toNat < 0xE0)
    (allowed : allowsSecond lead second = true) :
    encodeChar (Char.ofNat (lead.toNat % 0x20 * 0x40 + tail second)) = [lead, second] := by
  simp only [allowsSecond, Bool.and_eq_true, decide_eq_true_eq] at allowed
  have continues : 0x80 ≤ second.toNat ∧ second.toNat < 0xC0 := by
    split_ifs at allowed <;> omega
  have point := toNat_ofNat (lead.toNat % 0x20 * 0x40 + tail second) (by
    unfold tail
    omega)
  rw [encodeChar, point]
  unfold tail
  simp only [if_neg (show ¬lead.toNat % 0x20 * 0x40 + second.toNat % 0x40 < 0x80 by omega),
    if_pos (show lead.toNat % 0x20 * 0x40 + second.toNat % 0x40 < 0x800 by omega)]
  rw [byte_eq lead (by omega), byte_eq second (by omega)]

theorem encodeChar_three {lead second third : UInt8} (low : 0xE0 ≤ lead.toNat)
    (high : lead.toNat < 0xF0) (allowed : allowsSecond lead second = true)
    (continues : isContinuation third = true) :
    encodeChar (Char.ofNat (lead.toNat % 0x10 * 0x1000 + tail second * 0x40 + tail third)) =
      [lead, second, third] := by
  simp only [allowsSecond, isContinuation, Bool.and_eq_true, decide_eq_true_eq] at allowed continues
  have shape : (lead.toNat = 0xE0 → 0xA0 ≤ second.toNat) ∧
      (lead.toNat = 0xED → second.toNat < 0xA0) ∧ 0x80 ≤ second.toNat ∧ second.toNat < 0xC0 := by
    split_ifs at allowed <;> omega
  generalize pointEq : lead.toNat % 0x10 * 0x1000 + tail second * 0x40 + tail third = number
  unfold tail at pointEq
  have point := toNat_ofNat number (by omega)
  rw [encodeChar, point]
  simp only [if_neg (show ¬number < 0x80 by omega), if_neg (show ¬number < 0x800 by omega),
    if_pos (show number < 0x10000 by omega)]
  rw [byte_eq lead (by omega), byte_eq second (by omega),
    byte_eq third (by omega)]

theorem encodeChar_four {lead second third fourth : UInt8} (low : 0xF0 ≤ lead.toNat)
    (high : lead.toNat < 0xF5) (allowed : allowsSecond lead second = true)
    (thirdContinues : isContinuation third = true) (fourthContinues : isContinuation fourth = true) :
    encodeChar (Char.ofNat (lead.toNat % 0x08 * 0x40000 + tail second * 0x1000 + tail third * 0x40 +
      tail fourth)) = [lead, second, third, fourth] := by
  simp only [allowsSecond, isContinuation, Bool.and_eq_true, decide_eq_true_eq]
    at allowed thirdContinues fourthContinues
  have shape : (lead.toNat = 0xF0 → 0x90 ≤ second.toNat) ∧
      (lead.toNat = 0xF4 → second.toNat < 0x90) ∧ 0x80 ≤ second.toNat ∧ second.toNat < 0xC0 := by
    split_ifs at allowed <;> omega
  generalize pointEq : lead.toNat % 0x08 * 0x40000 + tail second * 0x1000 + tail third * 0x40 +
    tail fourth = number
  unfold tail at pointEq
  have point := toNat_ofNat number (by omega)
  rw [encodeChar, point]
  simp only [if_neg (show ¬number < 0x80 by omega), if_neg (show ¬number < 0x800 by omega),
    if_neg (show ¬number < 0x10000 by omega)]
  rw [byte_eq lead (by omega), byte_eq second (by omega),
    byte_eq third (by omega), byte_eq fourth (by omega)]

theorem map_cons_eq_ok {char : Char} {later : Except Fault (List Char)} {chars : List Char}
    (found : later.map (char :: ·) = .ok chars) : ∃ rest, later = .ok rest ∧ chars = char :: rest := by
  cases later with
  | error fault => cases found
  | ok rest =>
      cases found
      exact ⟨rest, rfl, rfl⟩

theorem encode_of_decodeFrom {bytes : Bytes} {index : Nat} {chars : List Char}
    (found : decodeFrom index bytes = .ok chars) : chars.flatMap encodeChar = bytes := by
  fun_induction decodeFrom index bytes generalizing chars with
  | case1 =>
      cases found
      rfl
  | case3 index lead rest one ih =>
      obtain ⟨later, read, rfl⟩ := map_cons_eq_ok found
      have range := range_of_width? one
      rw [List.flatMap_cons, encodeChar_one (by omega), ih read, List.singleton_append]
  | case6 index lead second rest allowed _ two ih =>
      obtain ⟨later, read, rfl⟩ := map_cons_eq_ok found
      have range := range_of_width? two
      rw [List.flatMap_cons, encodeChar_two (by omega) (by omega) (by simpa using allowed), ih read]
      rfl
  | case9 index lead second allowed third rest continues _ three _ ih =>
      obtain ⟨later, read, rfl⟩ := map_cons_eq_ok found
      have range := range_of_width? three
      rw [List.flatMap_cons, encodeChar_three (by omega) (by omega) (by simpa using allowed)
        (by simpa using continues), ih read]
      rfl
  | case12 index lead width notOne known second allowed notTwo third thirdContinues notThree fourth rest
      fourthContinues ih =>
      obtain ⟨later, read, rfl⟩ := map_cons_eq_ok found
      have wide : width ≠ 1 := notOne
      have range := range_of_width? known
      rw [List.flatMap_cons, encodeChar_four (by omega) (by omega) (by simpa using allowed)
        (by simpa using thirdContinues) (by simpa using fourthContinues), ih read]
      rfl
  | _ => cases found

theorem encode_decode {bytes : Bytes} {text : String} (read : decode bytes = .ok text) :
    encode text = bytes := by
  unfold decode at read
  cases found : decodeFrom 0 bytes with
  | error fault => simp [found, Except.map] at read
  | ok chars =>
      rw [found] at read
      cases read
      rw [encode, String.toList_ofList, encode_of_decodeFrom found]

end Cogrouping.Utf8
