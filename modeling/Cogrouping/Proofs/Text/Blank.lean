import Mathlib.Data.List.DropRight
import Cogrouping.Text.Blank

/-!
What the pieces look like into which text is cut, and how text that is put together from such pieces is
cut again. A trimmed piece is bare at both ends, an entry of a list holds no comma, a word no blank.
-/

namespace Cogrouping.Text

section Pieces

variable {cuts : Char → Bool} {separator : Char} {text piece rest before behind : List Char}

theorem splitAll_eq_splitOnP : splitAll separator text = text.splitOnP (· == separator) := by
  induction text with
  | nil => rfl
  | cons char rest ih =>
      rw [splitAll, List.splitOnP_cons_eq_if_modifyHead, ih]
      simp only [beq_iff_eq]
      split
      · rfl
      · split
        next none => exact absurd none (List.splitOnP_ne_nil _ _)
        next some => rw [some, List.modifyHead_cons]

theorem pieces_eq_splitOnP : words.pieces text = text.splitOnP isBlank := by
  induction text with
  | nil => rfl
  | cons char rest ih =>
      rw [words.pieces, List.splitOnP_cons_eq_if_modifyHead, ih]
      split
      · rfl
      · split
        next none => exact absurd none (List.splitOnP_ne_nil _ _)
        next some => rw [some, List.modifyHead_cons]

theorem splitOnP_cons_of_neg (cuts : Char → Bool) {char : Char} (kept : cuts char = false) :
    ∃ piece pieces, rest.splitOnP cuts = piece :: pieces ∧
      (char :: rest).splitOnP cuts = (char :: piece) :: pieces := by
  rw [List.splitOnP_cons_eq_if_modifyHead, kept]
  cases parts : rest.splitOnP cuts with
  | nil => exact absurd parts (List.splitOnP_ne_nil _ _)
  | cons piece pieces => exact ⟨piece, pieces, rfl, rfl⟩

theorem of_mem_splitOnP (member : piece ∈ text.splitOnP cuts) :
    ∀ char ∈ piece, cuts char = false ∧ char ∈ text := by
  induction text generalizing piece with
  | nil =>
      rw [List.splitOnP_nil, List.mem_singleton] at member
      simp [member]
  | cons first rest ih =>
      have later {piece : List Char} (member : piece ∈ rest.splitOnP cuts) :
          ∀ char ∈ piece, cuts char = false ∧ char ∈ first :: rest := fun char inside =>
        (ih member char inside).imp_right (List.mem_cons_of_mem _)
      cases cut : cuts first with
      | true =>
          rw [List.splitOnP_cons_eq_if_modifyHead, if_pos cut, List.mem_cons] at member
          rcases member with rfl | member
          · simp
          · exact later member
      | false =>
          obtain ⟨front, others, parts, whole⟩ := splitOnP_cons_of_neg cuts cut
          rw [whole, List.mem_cons] at member
          rcases member with rfl | member
          · refine List.forall_mem_cons.mpr ⟨⟨cut, List.mem_cons_self⟩, later ?_⟩
            exact parts ▸ List.mem_cons_self
          · exact later (parts ▸ List.mem_cons_of_mem _ member)

theorem splitFirst_append (apart : separator ∉ before) :
    splitFirst separator (before ++ separator :: behind) = some (before, behind) := by
  induction before with
  | nil => rw [List.nil_append, splitFirst, if_pos rfl]
  | cons char before ih =>
      rw [List.mem_cons, not_or] at apart
      rw [List.cons_append, splitFirst, if_neg (Ne.symm apart.1), ih apart.2]
      rfl

theorem of_splitFirst (found : splitFirst separator text = some (before, behind)) :
    text = before ++ separator :: behind ∧ separator ∉ before := by
  induction text generalizing before with
  | nil => cases found
  | cons char rest ih =>
      rw [splitFirst] at found
      by_cases same : char = separator
      · rw [if_pos same] at found
        cases found
        exact ⟨by rw [same, List.nil_append], List.not_mem_nil⟩
      · rw [if_neg same, Option.map_eq_some_iff] at found
        obtain ⟨⟨front, back⟩, found, joined⟩ := found
        cases joined
        obtain ⟨rfl, apart⟩ := ih found
        exact ⟨rfl, List.not_mem_cons_of_ne_of_not_mem (Ne.symm same) apart⟩

theorem stripOpening?_eq_some {opening : List Char} :
    stripOpening? opening text = some rest ↔ text = opening ++ rest := by
  induction opening generalizing text with
  | nil => simp [stripOpening?]
  | cons expected opening ih =>
      cases text with
      | nil => simp [stripOpening?]
      | cons char text =>
          rw [stripOpening?]
          split
          next same => simp [same, ih]
          next differs => simp [Ne.symm differs]

theorem stripClosing?_eq_some {closing : Char} :
    stripClosing? closing text = some rest ↔ text = rest ++ [closing] := by
  rcases text.eq_nil_or_concat' with rfl | ⟨front, last, rfl⟩
  · simp [stripClosing?]
  · rw [stripClosing?, List.getLast?_concat, List.dropLast_concat]
    by_cases same : last = closing
    · simp [same]
    · simp [same]

end Pieces

structure Bare (text : List Char) : Prop where
  head : ∀ char ∈ text.head?, isBlank char = false
  last : ∀ char ∈ text.getLast?, isBlank char = false

section Trimming

variable {char : Char} {text front middle back : List Char}

theorem trim_eq : trim text = (text.dropWhile isBlank).rdropWhile isBlank := rfl

theorem bare_trim (text : List Char) : Bare (trim text) where
  head char first := by
    have front : trim text <+: text.dropWhile isBlank := List.rdropWhile_prefix isBlank _
    have first : (text.dropWhile isBlank).head? = some char := by
      obtain ⟨behind, whole⟩ := front
      rw [← whole, List.head?_append, Option.mem_def.mp first, Option.some_or]
    simpa [first] using List.head?_dropWhile_not isBlank text
  last char final := by
    obtain ⟨filled, rfl⟩ := List.mem_getLast?_eq_getLast final
    exact Bool.eq_false_iff.mpr (List.rdropWhile_last_not isBlank _ filled)

theorem mem_of_mem_trim (member : char ∈ trim text) : char ∈ text :=
  List.dropWhile_subset isBlank ((List.rdropWhile_prefix isBlank _).subset member)

theorem trim_cons (blank : isBlank char = true) : trim (char :: text) = trim text := by
  rw [trim, List.dropWhile_cons_of_pos blank, trim]

namespace Bare

theorem trim_eq (bare : Bare text) : trim text = text := by
  have kept : text.dropWhile isBlank = text := by
    cases text with
    | nil => rfl
    | cons first rest => exact List.dropWhile_cons_of_neg (by simpa using bare.head first rfl)
  rw [Text.trim_eq, kept, List.rdropWhile_eq_self_iff]
  exact fun filled => by simpa using bare.last _ (List.getLast_mem_getLast? filled)

theorem singleton (kept : isBlank char = false) : Bare [char] := ⟨by simp [kept], by simp [kept]⟩

theorem append (headed : Bare front) (ended : Bare back) : Bare (front ++ back) where
  head char first := by
    rw [List.head?_append, Option.mem_def, Option.or_eq_some_iff] at first
    rcases first with first | ⟨_, first⟩
    · exact headed.head char first
    · exact ended.head char first
  last char final := by
    rw [List.getLast?_append, Option.mem_def, Option.or_eq_some_iff] at final
    rcases final with final | ⟨_, final⟩
    · exact ended.last char final
    · exact headed.last char final

theorem enclose (headed : Bare front) (ended : Bare back) (opened : front ≠ []) (closed : back ≠ []) :
    Bare (front ++ middle ++ back) where
  head char first := by
    rw [List.append_assoc, List.head?_append_of_ne_nil _ opened] at first
    exact headed.head char first
  last char final := by
    rw [List.getLast?_append_of_ne_nil _ closed] at final
    exact ended.last char final

end Bare

end Trimming

structure IsEntry (text : List Char) : Prop where
  filled : text ≠ []
  bare : Bare text
  whole : ',' ∉ text

section Entries

variable {char : Char} {text entry : List Char}

theorem entries_eq (text : List Char) :
    entries text = ((text.splitOnP (· == ',')).map trim).filter (! ·.isEmpty) := by
  rw [entries, splitAll_eq_splitOnP]

theorem isEntry_of_mem_entries (member : entry ∈ entries text) : IsEntry entry := by
  rw [entries_eq, List.mem_filter] at member
  obtain ⟨trimmed, filled⟩ := member
  obtain ⟨piece, member, rfl⟩ := List.mem_map.mp trimmed
  refine ⟨by simpa using filled, bare_trim piece, fun inside => ?_⟩
  simpa using (of_mem_splitOnP member _ (mem_of_mem_trim inside)).1

theorem IsEntry.entries_eq (alone : IsEntry entry) : entries entry = [entry] := by
  have uncut : entry.splitOnP (· == ',') = [entry] := List.splitOnP_eq_singleton fun char inside =>
    beq_eq_false_iff_ne.mpr fun comma => alone.whole (comma ▸ inside)
  rw [Text.entries_eq, uncut, List.map_singleton, alone.bare.trim_eq]
  simp [alone.filled]

theorem entries_append (front back : List Char) :
    entries (front ++ ',' :: back) = entries front ++ entries back := by
  have cut : (front ++ ',' :: back).splitOnP (· == ',') = _ :=
    List.splitOnP_append_cons front back (beq_self_eq_true ',')
  simp only [entries_eq, cut, List.map_append, List.filter_append]

theorem entries_cons (blank : isBlank char = true) : entries (char :: text) = entries text := by
  have kept : (char == ',') = false := by
    rw [beq_eq_false_iff_ne]
    rintro rfl
    exact absurd blank (by decide)
  obtain ⟨piece, pieces, parts, whole⟩ := splitOnP_cons_of_neg (· == ',') kept
  rw [entries_eq, entries_eq, whole, parts, List.map_cons, List.map_cons, trim_cons blank]

theorem entries_intercalate {listed : List (List Char)} (each : ∀ entry ∈ listed, IsEntry entry) :
    entries ([',', ' '].intercalate listed) = listed := by
  induction listed with
  | nil => rfl
  | cons entry listed ih =>
      rw [List.forall_mem_cons] at each
      cases listed with
      | nil => rw [List.intercalate_singleton, each.1.entries_eq]
      | cons next listed =>
          rw [List.intercalate_cons_cons, List.append_assoc, List.cons_append, entries_append,
            List.singleton_append, entries_cons rfl, each.1.entries_eq, ih each.2, List.singleton_append]

end Entries

structure IsWord (text : List Char) : Prop where
  filled : text ≠ []
  solid : ∀ char ∈ text, isBlank char = false

section Words

variable {char : Char} {text word : List Char}

theorem words_eq (text : List Char) : words text = (text.splitOnP isBlank).filter (! ·.isEmpty) := by
  rw [words, pieces_eq_splitOnP]

theorem isWord_of_mem_words (member : word ∈ words text) : IsWord word ∧ word ⊆ text := by
  rw [words_eq, List.mem_filter] at member
  have each := of_mem_splitOnP member.1
  exact ⟨⟨by simpa using member.2, fun char inside => (each char inside).1⟩,
    fun char inside => (each char inside).2⟩

theorem IsWord.bare (word : IsWord text) : Bare text where
  head char first := word.solid char (List.mem_of_mem_head? first)
  last char final := word.solid char (List.mem_of_mem_getLast? final)

theorem isWord_of_all (filled : text ≠ []) (solid : text.all (! isBlank ·) = true) : IsWord text :=
  ⟨filled, fun char inside => by simpa using List.all_eq_true.mp solid char inside⟩

theorem IsWord.words_eq (alone : IsWord word) : words word = [word] := by
  rw [Text.words_eq, List.splitOnP_eq_singleton alone.solid]
  simp [alone.filled]

theorem words_append (blank : isBlank char = true) (front back : List Char) :
    words (front ++ char :: back) = words front ++ words back := by
  simp only [words_eq, List.splitOnP_append_cons front back blank, List.filter_append]

end Words

end Cogrouping.Text
