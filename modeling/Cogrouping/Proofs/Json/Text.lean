import Cogrouping.Json.Value

/-!
Scanning written JSON. The text of a value is read as the tree of its own lexemes, and each lexeme
stands for what it was written from. Numbers are naturals here.
-/

namespace Cogrouping.Json

inductive Plain : Json → Prop
  | null : Plain .null
  | bool (value : Bool) : Plain (.bool value)
  | natural (number : Nat) : Plain (.ofNat number)
  | string (text : String) : Plain (.string text)
  | array {items : List Json} (plain : ∀ item ∈ items, Plain item) : Plain (.array items)
  | object {members : List (String × Json)} (plain : ∀ member ∈ members, Plain member.2) :
      Plain (.object members)

theorem Plain.map {α : Type} {toJson : α → Json} (plain : ∀ value, Plain (toJson value))
    (values : List α) : Plain (.array (values.map toJson)) := by
  refine .array fun item member => ?_
  obtain ⟨value, _, rfl⟩ := List.mem_map.mp member
  exact plain value

def escaped (text : String) : List Char := text.toList.flatMap writeChar

mutual

def tree : Json → Tree
  | .null => .null
  | .bool value => .bool value
  | .number value => .number value.write
  | .string text => .string (escaped text)
  | .array items => .array (treeItems items)
  | .object members => .object (treeMembers members)

def treeItems : List Json → List Tree
  | [] => []
  | item :: rest => item.tree :: treeItems rest

def treeMembers : List (String × Json) → List (List Char × Tree)
  | [] => []
  | (key, value) :: rest => (escaped key, value.tree) :: treeMembers rest

end

theorem treeItems_eq_map (items : List Json) : treeItems items = items.map tree := by
  induction items with
  | nil => rfl
  | cons item rest ih => rw [treeItems, ih, List.map_cons]

theorem treeMembers_eq_map (members : List (String × Json)) :
    treeMembers members = members.map fun member => (escaped member.1, member.2.tree) := by
  induction members with
  | nil => rfl
  | cons member rest ih => rw [treeMembers, ih, List.map_cons]

/-! ### Strings -/

theorem isHexDigit_hexDigit : ∀ nibble < 16, Scan.isHexDigit (Bytes.hexDigit nibble) = true := by
  decide

theorem hexDigit_hexDigit : ∀ nibble < 16, Lexeme.hexDigit (Bytes.hexDigit nibble) = nibble := by
  decide

theorem unit_hexDigit {code : Nat} (control : code < 0x20) :
    Lexeme.unit '0' '0' (Bytes.hexDigit (code / 16)) (Bytes.hexDigit (code % 16)) = code := by
  have zero : Lexeme.hexDigit '0' = 0 := by decide
  rw [Lexeme.unit, zero, hexDigit_hexDigit _ (by omega), hexDigit_hexDigit _ (by omega)]
  omega

theorem writeChar_cases (char : Char) :
    (∃ mark, writeChar char = ['\\', mark] ∧ Scan.isShortEscape mark = true ∧
      Lexeme.shortEscape mark = char) ∨
    (char.toNat < 0x20 ∧ writeChar char = ['\\', 'u', '0', '0',
      Bytes.hexDigit (char.toNat / 16), Bytes.hexDigit (char.toNat % 16)]) ∨
    (char ≠ '"' ∧ char ≠ '\\' ∧ 0x20 ≤ char.toNat ∧ writeChar char = [char]) := by
  unfold writeChar
  split
  · exact .inl ⟨'"', rfl, by decide, by simp_all [Lexeme.shortEscape]⟩
  split
  · exact .inl ⟨'\\', rfl, by decide, by simp_all [Lexeme.shortEscape]⟩
  split
  · exact .inl ⟨'b', rfl, by decide, by simp_all [Lexeme.shortEscape]⟩
  split
  · exact .inl ⟨'t', rfl, by decide, by simp_all [Lexeme.shortEscape]⟩
  split
  · exact .inl ⟨'n', rfl, by decide, by simp_all [Lexeme.shortEscape]⟩
  split
  · exact .inl ⟨'f', rfl, by decide, by simp_all [Lexeme.shortEscape]⟩
  split
  · exact .inl ⟨'r', rfl, by decide, by simp_all [Lexeme.shortEscape]⟩
  split
  · rename_i control
    exact .inr (.inl ⟨control, rfl⟩)
  · rename_i quote backslash _ _ _ _ _ printed
    exact .inr (.inr ⟨quote, backslash, by omega, rfl⟩)

theorem ne_of_isShortEscape {mark : Char} (short : Scan.isShortEscape mark = true) : mark ≠ 'u' := by
  rintro rfl
  exact absurd short (by decide)

theorem string?_writeChar (char : Char) (rest : List Char) :
    Scan.string? (writeChar char ++ rest) =
      (Scan.string? rest).map fun (lexeme, after) => (writeChar char ++ lexeme, after) := by
  rcases writeChar_cases char with
    ⟨mark, written, short, _⟩ | ⟨control, written⟩ | ⟨quote, backslash, printed, written⟩
  · have notUnit := ne_of_isShortEscape short
    simp [written, Scan.string?, short, notUnit]
  · have high := isHexDigit_hexDigit (char.toNat / 16) (by omega)
    have low := isHexDigit_hexDigit (char.toNat % 16) (by omega)
    have zero : Scan.isHexDigit '0' = true := by decide
    simp [written, Scan.string?, high, low, zero]
  · have notControl : ¬char.toNat < 0x20 := by omega
    simp [written, Scan.string?, backslash, notControl]

theorem characters?_writeChar (char : Char) (rest : List Char) :
    Lexeme.characters? (writeChar char ++ rest) = (Lexeme.characters? rest).map (char :: ·) := by
  rcases writeChar_cases char with
    ⟨mark, written, short, stands⟩ | ⟨control, written⟩ | ⟨_, backslash, _, written⟩
  · have notUnit := ne_of_isShortEscape short
    simp [written, Lexeme.characters?, notUnit, stands]
  · have code := unit_hexDigit control
    have notLow : Lexeme.isLowSurrogate char.toNat = false := by
      simp [Lexeme.isLowSurrogate]
      omega
    have notHigh : Lexeme.isHighSurrogate char.toNat = false := by
      simp [Lexeme.isHighSurrogate]
      omega
    rw [written]
    simp only [List.cons_append, List.nil_append]
    rw [Lexeme.characters?.eq_def]
    simp [code, notLow, notHigh, Char.ofNat_toNat]
  · simp [written, Lexeme.characters?, backslash]

theorem string?_flatMap (chars rest : List Char) :
    Scan.string? (chars.flatMap writeChar ++ '"' :: rest) =
      some (chars.flatMap writeChar, rest) := by
  induction chars with
  | nil => simp [Scan.string?]
  | cons char chars ih =>
      rw [List.flatMap_cons, List.append_assoc, string?_writeChar, ih]
      rfl

theorem characters?_flatMap (chars : List Char) :
    Lexeme.characters? (chars.flatMap writeChar) = some chars := by
  induction chars with
  | nil => simp [Lexeme.characters?]
  | cons char chars ih =>
      rw [List.flatMap_cons, characters?_writeChar, ih]
      rfl

theorem string?_escaped (text : String) (rest : List Char) :
    Scan.string? (escaped text ++ '"' :: rest) = some (escaped text, rest) :=
  string?_flatMap text.toList rest

@[simp] theorem text?_escaped (text : String) : Lexeme.text? (escaped text) = some text := by
  rw [Lexeme.text?, escaped, characters?_flatMap]
  simp

/-! ### Numbers -/

theorem isDigit_iff (char : Char) :
    Scan.isDigit char = true ↔ 48 ≤ char.toNat ∧ char.toNat ≤ 57 := by
  simp [Scan.isDigit, Char.le_def, UInt32.le_iff_toNat_le]

theorem isSpace_of_isDigit {char : Char} (digit : Scan.isDigit char = true) :
    Scan.isSpace char = false := by
  rw [isDigit_iff] at digit
  simp [Scan.isSpace, ← Char.toNat_inj]
  omega

theorem toList_toString (number : Nat) : (toString number).toList = Nat.toDigits 10 number := by
  simp

theorem isDigit_of_mem_toDigits {number : Nat} {char : Char}
    (member : char ∈ Nat.toDigits 10 number) : Scan.isDigit char = true := by
  have digit := Nat.isDigit_of_mem_toDigits (by omega) (by omega) member
  rw [isDigit_iff]
  simpa [Char.isDigit, UInt32.le_iff_toNat_le] using digit

theorem natural_toDigits (number : Nat) : Lexeme.natural (Nat.toDigits 10 number) = number := by
  have value := Nat.ofDigitChars_ten_toDigits (n := number)
  rw [Nat.ofDigitChars_eq_foldl] at value
  simpa only [Lexeme.natural, Lexeme.digit, Nat.mul_comm] using value

theorem toDigits_eq_cons (number : Nat) :
    ∃ first more, Nat.toDigits 10 number = first :: more ∧ Scan.isDigit first = true ∧
      (first = '0' → more = []) := by
  have leading : 0 < number → (Nat.toDigits 10 number).head? ≠ some '0' := by
    induction number using Nat.strongRecOn with
    | ind number ih =>
        intro positive
        rw [Nat.toDigits_eq_if (by omega)]
        split
        · rename_i digit
          have nonzero : ∀ digit < 10, 0 < digit → Nat.digitChar digit ≠ '0' := by decide
          simpa using nonzero number digit positive
        · have shorter := ih (number / 10) (by omega) (by omega)
          cases digits : Nat.toDigits 10 (number / 10) with
          | nil => simp at digits
          | cons first more => simpa [digits] using shorter
  cases digits : Nat.toDigits 10 number with
  | nil => simp at digits
  | cons first more =>
      have member : first ∈ Nat.toDigits 10 number := by simp [digits]
      refine ⟨first, more, rfl, isDigit_of_mem_toDigits member, ?_⟩
      rintro rfl
      rcases Nat.eq_zero_or_pos number with rfl | positive
      · simpa using digits.symm
      · exact absurd (by simp [digits]) (leading positive)

theorem natural?_toDigits (number : Nat) :
    Lexeme.natural? (Nat.toDigits 10 number) = some number := by
  have value := natural_toDigits number
  have digits : (Nat.toDigits 10 number).all Scan.isDigit = true :=
    List.all_eq_true.mpr fun _ member => isDigit_of_mem_toDigits member
  obtain ⟨first, more, shape, _, leading⟩ := toDigits_eq_cons number
  rw [shape] at value digits ⊢
  rw [Lexeme.natural?, value, digits]
  by_cases zero : first = '0'
  · simp [leading zero]
  · simp [zero]

theorem writeChar_digit {char : Char} (digit : Scan.isDigit char = true) :
    writeChar char = [char] := by
  rw [isDigit_iff] at digit
  simp only [writeChar, ← Char.toNat_inj, Char.reduceToNat]
  repeat rw [if_neg (by omega)]

theorem escaped_toString (number : Nat) : escaped (toString number) = Nat.toDigits 10 number := by
  have plain : (Nat.toDigits 10 number).map writeChar =
      (Nat.toDigits 10 number).map fun char => [char] :=
    List.map_congr_left fun _ member => writeChar_digit (isDigit_of_mem_toDigits member)
  rw [escaped, toList_toString, List.flatMap_def, plain, ← List.flatMap_def,
    List.flatMap_singleton']

def Closes (rest : List Char) : Prop :=
  ∀ next ∈ rest.head?, next = ',' ∨ next = ']' ∨ next = '}'

theorem digits?_append {digits rest : List Char} (all : ∀ char ∈ digits, Scan.isDigit char = true)
    (nonempty : digits ≠ []) (closes : Closes rest) :
    Scan.digits? (digits ++ rest) = some (digits, rest) := by
  have stops : rest.takeWhile Scan.isDigit = [] ∧ rest.dropWhile Scan.isDigit = rest := by
    cases rest with
    | nil => simp
    | cons next rest =>
        have other : Scan.isDigit next = false := by
          rcases closes next (by simp) with rfl | rfl | rfl <;> decide
        simp [other]
  rw [Scan.digits?, List.takeWhile_append_of_pos all, List.dropWhile_append_of_pos all]
  simp [stops, nonempty]

theorem fraction?_closes {rest : List Char} (closes : Closes rest) :
    Scan.fraction? rest = some ([], rest) := by
  cases rest with
  | nil => rfl
  | cons next rest => rcases closes next (by simp) with rfl | rfl | rfl <;> rfl

theorem exponent?_closes {rest : List Char} (closes : Closes rest) :
    Scan.exponent? rest = some ([], rest) := by
  cases rest with
  | nil => rfl
  | cons next rest => rcases closes next (by simp) with rfl | rfl | rfl <;> rfl

theorem number?_toDigits (number : Nat) {rest : List Char} (closes : Closes rest) :
    Scan.number? (Nat.toDigits 10 number ++ rest) = some (Nat.toDigits 10 number, rest) := by
  have scanned : Scan.digits? (Nat.toDigits 10 number ++ rest) =
      some (Nat.toDigits 10 number, rest) :=
    digits?_append (fun _ member => isDigit_of_mem_toDigits member) (by simp) closes
  obtain ⟨first, more, shape, digit, leading⟩ := toDigits_eq_cons number
  rw [shape] at scanned ⊢
  rw [List.cons_append] at scanned ⊢
  have whole : Scan.whole? (first :: (more ++ rest)) = some (first :: more, rest) := by
    rw [Scan.whole?, scanned]
    by_cases zero : first = '0'
    · simp [leading zero]
    · simp [zero]
  have unsigned : Scan.unsigned? (first :: (more ++ rest)) = some (first :: more, rest) := by
    simp [Scan.unsigned?, whole, fraction?_closes closes, exponent?_closes closes]
  have noSign : first ≠ '-' := by
    rintro rfl
    exact absurd digit (by decide)
  rw [Scan.number?.eq_2 _ (by simpa using noSign)]
  exact unsigned

/-! ### Values -/

theorem writeString_append (text : String) (rest : List Char) :
    writeString text ++ rest = '"' :: (escaped text ++ '"' :: rest) := by
  simp [writeString, escaped]

theorem write_natural (number : Nat) : (ofNat number).write = Nat.toDigits 10 number := by
  rw [ofNat, write, Number.write]
  exact toList_toString number

theorem tree_natural (number : Nat) :
    (ofNat number).tree = .number (Nat.toDigits 10 number) := by
  rw [← write_natural, ofNat, tree, write]

theorem Plain.write_eq_cons {json : Json} (plain : Plain json) :
    ∃ first more, json.write = first :: more ∧ Scan.isSpace first = false ∧ first ≠ ']' := by
  cases plain with
  | null => exact ⟨_, _, rfl, by decide⟩
  | bool value => cases value <;> exact ⟨_, _, rfl, by decide⟩
  | natural number =>
      obtain ⟨first, more, shape, digit, _⟩ := toDigits_eq_cons number
      refine ⟨first, more, by rw [write_natural, shape], isSpace_of_isDigit digit, ?_⟩
      rintro rfl
      exact absurd digit (by decide)
  | string text => exact ⟨_, _, rfl, by decide⟩
  | array => exact ⟨_, _, rfl, by decide⟩
  | object => exact ⟨_, _, rfl, by decide⟩

theorem Plain.writeItems_eq_cons {item : Json} (plain : Plain item) (others : List Json) :
    ∃ first more, writeItems (item :: others) = first :: more ∧ Scan.isSpace first = false ∧
      first ≠ ']' := by
  obtain ⟨first, more, shape, space, bracket⟩ := plain.write_eq_cons
  cases others with
  | nil => exact ⟨first, more, by rw [writeItems, shape], space, bracket⟩
  | cons next others =>
      refine ⟨first, more ++ ',' :: writeItems (next :: others), ?_, space, bracket⟩
      rw [writeItems, shape, List.cons_append]
      simp

theorem writeMembers_eq_cons (member : String × Json) (others : List (String × Json)) :
    ∃ more, writeMembers (member :: others) = '"' :: more := by
  obtain ⟨key, value⟩ := member
  cases others with
  | nil => exact ⟨_, by rw [writeMembers, writeString_append]⟩
  | cons next others => exact ⟨_, by rw [writeMembers, List.append_assoc, writeString_append]; simp⟩

theorem closes_cons {next : Char} {rest : List Char} (closing : next = ',' ∨ next = ']' ∨ next = '}') :
    Closes (next :: rest) := by
  simpa [Closes] using closing

def Scanned (json : Json) : Prop :=
  ∀ fuel rest, json.write.length ≤ fuel → Closes rest →
    Scan.value? fuel (json.write ++ rest) = some (json.tree, rest)

theorem items?_writeItems {items : List Json} (scanned : ∀ item ∈ items, Scanned item)
    (nonempty : items ≠ []) (fuel : Nat) (rest : List Char)
    (enough : (writeItems items).length < fuel) :
    Scan.items? fuel (writeItems items ++ ']' :: rest) = some (treeItems items, rest) := by
  induction items generalizing fuel with
  | nil => exact absurd rfl nonempty
  | cons item others ih =>
      cases fuel with
      | zero => omega
      | succ fuel =>
          have first := scanned item (by simp)
          cases others with
          | nil =>
              rw [writeItems] at enough ⊢
              have read := first fuel (']' :: rest) (by omega) (closes_cons (by simp))
              simp [Scan.items?, read, Scan.skipSpace, Scan.isSpace, treeItems]
          | cons next others =>
              rw [writeItems] at enough ⊢
              -- One of the fuel goes to this item and its comma; the rest is shorter by as much.
              · simp only [List.length_append, List.length_cons] at enough
                have read := first fuel (',' :: (writeItems (next :: others) ++ ']' :: rest))
                  (by omega) (closes_cons (by simp))
                have later := ih (fun item member => scanned item (by simp [member])) (by simp) fuel
                  (by omega)
                rw [List.append_assoc, List.cons_append, Scan.items?, read]
                simp [Scan.skipSpace, Scan.isSpace, later, treeItems]
              all_goals simp

theorem members?_writeMembers {members : List (String × Json)}
    (scanned : ∀ member ∈ members, Scanned member.2) (nonempty : members ≠ []) (fuel : Nat)
    (rest : List Char) (enough : (writeMembers members).length < fuel) :
    Scan.members? fuel (writeMembers members ++ '}' :: rest) =
      some (treeMembers members, rest) := by
  induction members generalizing fuel with
  | nil => exact absurd rfl nonempty
  | cons member others ih =>
      obtain ⟨key, value⟩ := member
      cases fuel with
      | zero => omega
      | succ fuel =>
          have first : Scanned value := scanned (key, value) (by simp)
          cases others with
          | nil =>
              rw [writeMembers] at enough ⊢
              simp only [List.length_append, List.length_cons] at enough
              have read := first fuel ('}' :: rest) (by omega) (closes_cons (by simp))
              rw [List.append_assoc, List.cons_append, writeString_append, Scan.members?]
              simp [Scan.skipSpace, Scan.isSpace, string?_escaped, read, treeMembers]
          | cons next others =>
              rw [writeMembers] at enough ⊢
              · simp only [List.length_append, List.length_cons] at enough
                have read := first fuel (',' :: (writeMembers (next :: others) ++ '}' :: rest))
                  (by omega) (closes_cons (by simp))
                have later := ih (fun member among => scanned member (by simp [among])) (by simp)
                  fuel (by omega)
                simp only [List.append_assoc, List.cons_append]
                rw [writeString_append, Scan.members?]
                simp [Scan.skipSpace, Scan.isSpace, string?_escaped, read, later, treeMembers]
              all_goals simp

theorem value?_digit {first : Char} {more : List Char} (digit : Scan.isDigit first = true)
    (fuel : Nat) :
    Scan.value? (fuel + 1) (first :: more) =
      (Scan.number? (first :: more)).map fun (lexeme, after) => (.number lexeme, after) := by
  rw [Scan.value?, Scan.skipSpace, List.dropWhile_cons_of_neg (by simp [isSpace_of_isDigit digit])]
  split
  case h_7 => rfl
  all_goals
    rename_i shape
    cases shape
    exact absurd digit (by decide)

theorem value?_items {first : Char} {more : List Char} (space : Scan.isSpace first = false)
    (bracket : first ≠ ']') (fuel : Nat) :
    Scan.value? (fuel + 1) ('[' :: first :: more) =
      (Scan.items? fuel (first :: more)).map fun (items, after) => (.array items, after) := by
  have own : Scan.skipSpace (first :: more) = first :: more := by simp [Scan.skipSpace, space]
  have opened : Scan.skipSpace ('[' :: first :: more) = '[' :: first :: more := by
    simp [Scan.skipSpace, Scan.isSpace]
  simp only [Scan.value?, opened, own]
  split
  · rename_i shape
    cases shape
    exact absurd rfl bracket
  · rfl

theorem Plain.scanned_of_succ {json : Json} (plain : Plain json)
    (step : ∀ fuel rest, json.write.length ≤ fuel + 1 → Closes rest →
      Scan.value? (fuel + 1) (json.write ++ rest) = some (json.tree, rest)) : Scanned json := by
  intro fuel rest enough closes
  obtain ⟨first, more, shape, _⟩ := plain.write_eq_cons
  cases fuel with
  | zero => simp [shape] at enough
  | succ fuel => exact step fuel rest enough closes

theorem Plain.scanned {json : Json} (plain : Plain json) : Scanned json := by
  induction plain with
  | null =>
      refine Plain.null.scanned_of_succ fun fuel rest _ _ => ?_
      simp [write, Scan.value?, Scan.skipSpace, Scan.isSpace, tree]
  | bool value =>
      refine (Plain.bool value).scanned_of_succ fun fuel rest _ _ => ?_
      cases value <;> simp [write, Scan.value?, Scan.skipSpace, Scan.isSpace, tree]
  | natural number =>
      refine (Plain.natural number).scanned_of_succ fun fuel rest _ closes => ?_
      have read := number?_toDigits number closes
      obtain ⟨first, more, shape, digit, _⟩ := toDigits_eq_cons number
      rw [write_natural, tree_natural]
      rw [shape, List.cons_append] at read ⊢
      rw [value?_digit digit, read]
      rfl
  | string text =>
      refine (Plain.string text).scanned_of_succ fun fuel rest _ _ => ?_
      rw [write, writeString_append]
      simp [Scan.value?, Scan.skipSpace, Scan.isSpace, string?_escaped, tree]
  | @array items plain ih =>
      refine (Plain.array plain).scanned_of_succ fun fuel rest enough _ => ?_
      rw [write] at enough ⊢
      simp only [List.length_append, List.length_cons, List.length_nil] at enough
      cases items with
      | nil => simp [writeItems, Scan.value?, Scan.skipSpace, Scan.isSpace, tree, treeItems]
      | cons item others =>
          have read := items?_writeItems ih (by simp) fuel rest (by omega)
          obtain ⟨first, more, shape, space, bracket⟩ :=
            (plain item (by simp)).writeItems_eq_cons others
          simp only [List.append_assoc, List.cons_append, List.nil_append, tree]
          rw [shape, List.cons_append] at read ⊢
          rw [value?_items space bracket, read]
          rfl
  | @object members plain ih =>
      refine (Plain.object plain).scanned_of_succ fun fuel rest enough _ => ?_
      rw [write] at enough ⊢
      simp only [List.length_append, List.length_cons, List.length_nil] at enough
      cases members with
      | nil => simp [writeMembers, Scan.value?, Scan.skipSpace, Scan.isSpace, tree, treeMembers]
      | cons member others =>
          have read := members?_writeMembers ih (by simp) fuel rest (by omega)
          obtain ⟨more, shape⟩ := writeMembers_eq_cons member others
          simp only [List.append_assoc, List.cons_append, List.nil_append, tree]
          rw [shape, List.cons_append] at read ⊢
          simp [Scan.value?, Scan.skipSpace, Scan.isSpace, read]

theorem Plain.ofText?_text {json : Json} (plain : Plain json) :
    Tree.ofText? json.text = some json.tree := by
  have read := plain.scanned (json.write.length + 1) [] (by omega) (by simp [Closes])
  rw [List.append_nil] at read
  simp [Tree.ofText?, text, read, Scan.skipSpace]

end Cogrouping.Json
