import Cogrouping.SortOrder
import Cogrouping.Proofs.Paired
import Cogrouping.Proofs.Schema
import Cogrouping.Proofs.Text.Blank

/-!
Schemas and sort orders are the same when they are shown as text and read again. Nothing is escaped when
they are shown, so it matters what a text can give in the first place: names and codecs without a comma and
without blanks at their ends, field names without a colon, sorted names without any blank.
-/

namespace Cogrouping

theorem mapM_entries_displayed {α : Type} {display : α → String} {read : List Char → Except Error α}
    {items : List α} (each : ∀ item ∈ items, Text.IsEntry (display item).toList ∧
      read (display item).toList = .ok item) :
    (Text.entries (", ".intercalate (items.map display)).toList).mapM read = .ok items := by
  have pieces : ∀ piece ∈ items.map fun item => (display item).toList, Text.IsEntry piece :=
    List.forall_mem_map.mpr fun item member => (each item member).1
  have joined : (", ".intercalate (items.map display)).toList =
      [',', ' '].intercalate (items.map fun item => (display item).toList) := by
    rw [String.toList_intercalate, List.map_map]
    rfl
  rw [joined, Text.entries_intercalate pieces, mapM_eq_ok, List.forall₂_map_left_iff, List.forall₂_same]
  exact fun item member => (each item member).2

/-- The types that a text can give: no enum, and of a codec's name only what survives trimming. -/
inductive DataType.Textual : DataType → Prop
  | int32 : Textual int32
  | int64 : Textual int64
  | float32 : Textual float32
  | float64 : Textual float64
  | boolean : Textual boolean
  | text : Textual text
  | object {codec : String} (bare : Text.Bare codec.toList) (whole : ',' ∉ codec.toList) :
      Textual (object codec)

namespace DataType

variable {name chars : List Char} {type : DataType}

theorem toList_display_object (codec : String) : (object codec).display.toList =
    ['o', 'b', 'j', 'e', 'c', 't', '<'] ++ codec.toList ++ ['>'] := by
  simp [display, toString]

theorem textual_of_ofName? (whole : ',' ∉ name) (read : ofName? name = some type) : type.Textual := by
  unfold ofName? at read
  split at read
  case h_19 =>
    simp only [Option.bind_eq_bind, Option.bind_eq_some_iff, Text.stripOpening?_eq_some,
      Text.stripClosing?_eq_some] at read
    obtain ⟨rest, rfl, codec, rfl, read⟩ := read
    cases read
    refine .object ?_ ?_
    · rw [String.toList_ofList]
      exact Text.bare_trim codec
    · rw [String.toList_ofList]
      exact fun inside => whole (by simp [Text.mem_of_mem_trim inside])
  all_goals
    cases read
    constructor

theorem ofName?_display (textual : type.Textual) : ofName? type.display.toList = some type := by
  cases textual with
  | @object codec bare whole =>
      rw [toList_display_object]
      unfold ofName?
      split
      case h_19 =>
        have opened := Text.stripOpening?_eq_some.mpr (List.append_assoc ['o', 'b', 'j', 'e', 'c', 't', '<']
          codec.toList ['>'])
        have closed := Text.stripClosing?_eq_some.mpr (Eq.refl (codec.toList ++ ['>']))
        rw [opened, Option.bind_eq_bind, Option.bind_some, closed, Option.bind_some, bare.trim_eq,
          String.ofList_toList]
        rfl
      all_goals
        next same => exact absurd (congrArg (·.toList.head?) same) (by simp)
  | _ => decide

theorem isEntry_display (textual : type.Textual) : Text.IsEntry type.display.toList := by
  cases textual with
  | object bare whole =>
      have opening : Text.IsWord ['o', 'b', 'j', 'e', 'c', 't', '<'] := Text.isWord_of_all (by decide) rfl
      rw [toList_display_object]
      refine ⟨by simp, .enclose opening.bare (.singleton rfl) opening.filled (by simp), ?_⟩
      simp [whole]
  | _ =>
      refine ⟨by decide, Text.IsWord.bare ?_, by decide⟩
      exact Text.isWord_of_all (by decide) rfl

theorem textual_of_ofChars (whole : ',' ∉ chars) (read : ofChars chars = .ok type) : type.Textual := by
  unfold ofChars at read
  simp only at read
  split at read
  next found =>
    cases read
    exact textual_of_ofName? (fun inside => whole (Text.mem_of_mem_trim inside)) found
  next => cases read

theorem ofChars_display (textual : type.Textual) : ofChars type.display.toList = .ok type := by
  simp only [ofChars, (isEntry_display textual).bare.trim_eq, ofName?_display textual]

end DataType

structure Field.Textual (field : Field) : Prop where
  bare : Text.Bare field.name.toList
  whole : ',' ∉ field.name.toList
  apart : ':' ∉ field.name.toList
  typed : field.type.Textual
  intrinsic : field.comparator = none

namespace Field

variable {entry : List Char} {field : Field}

theorem toList_display (field : Field) :
    field.display.toList = field.name.toList ++ ':' :: field.type.display.toList := by
  simp [display, toString]

theorem textual_of_ofEntry (alone : Text.IsEntry entry) (read : ofEntry entry = .ok field) :
    field.Textual := by
  unfold ofEntry at read
  split at read
  next => cases read
  next name typeChars found =>
    obtain ⟨type, typed, made⟩ := bind_eq_ok.mp read
    cases made
    obtain ⟨rfl, apart⟩ := Text.of_splitFirst found
    obtain ⟨named, behind⟩ := not_or.mp (List.mem_append.not.mp alone.whole)
    have kept {char : Char} (absent : char ∉ name) : char ∉ (String.ofList (Text.trim name)).toList := by
      rw [String.toList_ofList]
      exact fun inside => absent (Text.mem_of_mem_trim inside)
    refine ⟨?_, kept named, kept apart, DataType.textual_of_ofChars ?_ typed, rfl⟩
    · rw [String.toList_ofList]
      exact Text.bare_trim name
    · exact fun inside => behind (List.mem_cons_of_mem _ inside)

theorem ofEntry_display (textual : field.Textual) : ofEntry field.display.toList = .ok field := by
  simp only [ofEntry, toList_display, Text.splitFirst_append textual.apart,
    DataType.ofChars_display textual.typed, ok_bind, textual.bare.trim_eq, String.ofList_toList, pure_eq_ok,
    ← textual.intrinsic]

theorem isEntry_display (textual : field.Textual) : Text.IsEntry field.display.toList := by
  have typed := DataType.isEntry_display textual.typed
  rw [toList_display]
  refine ⟨by simp, textual.bare.append (.append (.singleton rfl) typed.bare), ?_⟩
  simp [textual.whole, typed.whole]

end Field

namespace Schema

variable {name text : String} {schema : Schema}

theorem textual_of_parse (read : parse name text = .ok schema) :
    schema.name = name ∧ schema.validate = .ok () ∧ ∀ field ∈ schema.fields, field.Textual := by
  obtain ⟨fields, each, declared⟩ := bind_eq_ok.mp read
  obtain ⟨_, valid, made⟩ := bind_eq_ok.mp declared
  cases made
  refine ⟨rfl, valid, fun field member => ?_⟩
  obtain ⟨entry, listed, read⟩ := (mapM_eq_ok.mp each).exists_left member
  exact Field.textual_of_ofEntry (Text.isEntry_of_mem_entries listed) read

theorem parse_display (valid : schema.validate = .ok ())
    (textual : ∀ field ∈ schema.fields, field.Textual) :
    parse schema.name schema.display = .ok schema := by
  have each := mapM_entries_displayed fun field member =>
    ⟨Field.isEntry_display (textual field member), Field.ofEntry_display (textual field member)⟩
  rw [parse, display, each, ok_bind, declare, valid]
  rfl

theorem exists_parse_iff : (∃ text, parse name text = .ok schema) ↔
    schema.name = name ∧ schema.Valid ∧ ∀ field ∈ schema.fields, field.Textual := by
  constructor
  · rintro ⟨text, read⟩
    obtain ⟨named, valid, textual⟩ := textual_of_parse read
    exact ⟨named, validate_eq_ok.mp valid, textual⟩
  · rintro ⟨rfl, valid, textual⟩
    exact ⟨schema.display, parse_display (validate_eq_ok.mpr valid) textual⟩

end Schema

namespace Direction

theorem ofWord_display (direction : Direction) :
    ofWord direction.display.toList = .ok direction := by
  cases direction <;> decide

theorem isWord_display (direction : Direction) : Text.IsWord direction.display.toList := by
  cases direction <;> exact Text.isWord_of_all (by decide) rfl

theorem comma_not_mem_display (direction : Direction) : ',' ∉ direction.display.toList := by
  cases direction <;> decide

end Direction

/-- The entries of a sort order that a text can give: none names a comparator. -/
inductive SortEntry.Textual : SortEntry → Prop
  | field {name : String} {direction : Direction} (word : Text.IsWord name.toList)
      (whole : ',' ∉ name.toList) (unmarked : name ≠ sourceIdName) :
      Textual (.field name direction none)
  | sourceId {direction : Direction} : Textual (.sourceId direction)

namespace SortEntry

variable {text : String} {part name : List Char} {rest : List (List Char)} {entry : SortEntry}
variable {direction : Direction}

def named (name : String) (direction : Direction) : SortEntry :=
  if name = sourceIdName then .sourceId direction else .field name direction none

def ofWords (part name : List Char) : List (List Char) → Except Error SortEntry
  | [] => .ok (named (String.ofList name) .ascending)
  | [word] => (Direction.ofWord word).map (named (String.ofList name))
  | word :: extra :: _ => Direction.ofWord word >>= fun _ =>
      .error (.config (.extraWord (String.ofList extra) (String.ofList part)))

theorem ofPart_eq (parts : Text.words part = name :: rest) :
    ofPart text part = ofWords part name rest := by
  have made (direction : Direction) : (if String.ofList name = sourceIdName then
      pure (sourceId direction) else pure (field (String.ofList name) direction none)) =
      (.ok (named (String.ofList name) direction) : Except Error SortEntry) :=
    (apply_ite Except.ok _ _ _).symm
  unfold ofPart
  rw [parts]
  match rest with
  | [] => exact made .ascending
  | [word] =>
      cases directed : Direction.ofWord word with
      | error cause => simp [ofWords, directed, Except.map]
      | ok direction => simpa [ofWords, directed, Except.map] using made direction
  | word :: extra :: _ => rfl

theorem textual_named (word : Text.IsWord name) (whole : ',' ∉ name) :
    (named (String.ofList name) direction).Textual := by
  rw [← String.toList_ofList (l := name)] at word whole
  rw [named]
  split
  next => exact .sourceId
  next unmarked => exact .field word whole unmarked

theorem textual_of_ofPart (whole : ',' ∉ part) (read : ofPart text part = .ok entry) :
    entry.Textual := by
  cases parts : Text.words part with
  | nil => simp [ofPart, parts] at read
  | cons name rest =>
      obtain ⟨word, inside⟩ := Text.isWord_of_mem_words (parts ▸ List.mem_cons_self)
      have made (direction : Direction) : (named (String.ofList name) direction).Textual :=
        textual_named word fun comma => whole (inside comma)
      rw [ofPart_eq parts] at read
      match rest with
      | [] =>
          cases read
          exact made .ascending
      | [_] =>
          obtain ⟨direction, _, rfl⟩ := map_eq_ok.mp read
          exact made direction
      | _ :: _ :: _ =>
          obtain ⟨_, _, refused⟩ := bind_eq_ok.mp read
          cases refused

theorem Textual.word (textual : entry.Textual) :
    Text.IsWord entry.name.toList ∧ ',' ∉ entry.name.toList := by
  cases textual with
  | field word whole => exact ⟨word, whole⟩
  | sourceId =>
      rw [SortEntry.name]
      exact ⟨Text.isWord_of_all (by decide) rfl, by decide⟩

theorem Textual.named_eq (textual : entry.Textual) : named entry.name entry.direction = entry := by
  cases textual with
  | field _ _ unmarked => exact if_neg unmarked
  | sourceId => rfl

theorem Textual.toList_display (textual : entry.Textual) :
    entry.display.toList = entry.name.toList ++ ' ' :: entry.direction.display.toList := by
  cases textual <;> simp [display, toString, SortEntry.name, SortEntry.direction, comparator]

theorem ofPart_display (text : String) (textual : entry.Textual) :
    ofPart text entry.display.toList = .ok entry := by
  have parts : Text.words entry.display.toList = [entry.name.toList, entry.direction.display.toList] := by
    rw [textual.toList_display, Text.words_append rfl, textual.word.1.words_eq,
      (Direction.isWord_display _).words_eq, List.singleton_append]
  rw [ofPart_eq parts, ofWords, Direction.ofWord_display, Except.map, String.ofList_toList, textual.named_eq]

theorem isEntry_display (textual : entry.Textual) : Text.IsEntry entry.display.toList := by
  have directed := Direction.isWord_display entry.direction
  rw [textual.toList_display, List.append_cons]
  refine ⟨by simp, .enclose textual.word.1.bare directed.bare textual.word.1.filled directed.filled, ?_⟩
  simp [textual.word.2, Direction.comma_not_mem_display]

end SortEntry

namespace SortOrder

variable {text : String} {order : SortOrder}

theorem textual_of_parse (read : parse text = .ok order) : ∀ entry ∈ order.entries, entry.Textual := by
  obtain ⟨entries, each, rfl⟩ := map_eq_ok.mp read
  intro entry member
  obtain ⟨part, listed, read⟩ := (mapM_eq_ok.mp each).exists_left member
  exact SortEntry.textual_of_ofPart (Text.isEntry_of_mem_entries listed).whole read

theorem parse_display (textual : ∀ entry ∈ order.entries, entry.Textual) :
    parse order.display = .ok order := by
  have each := mapM_entries_displayed fun entry member => ⟨SortEntry.isEntry_display (textual entry member),
    SortEntry.ofPart_display order.display (textual entry member)⟩
  exact map_eq_ok.mpr ⟨order.entries, each, rfl⟩

theorem exists_parse_iff :
    (∃ text, parse text = .ok order) ↔ ∀ entry ∈ order.entries, entry.Textual :=
  ⟨fun ⟨_, read⟩ => textual_of_parse read, fun textual => ⟨order.display, parse_display textual⟩⟩

end SortOrder

/-- What a text gives, in whatever spelling it was accepted, is given by its own text as well. These are the
schemas that keep the rules and the sort orders whose parts are such as stand in texts. -/
theorem parse_display_of_parse :
    (∀ name text schema, Schema.parse name text = .ok schema →
      Schema.parse name schema.display = .ok schema) ∧
    (∀ text order, SortOrder.parse text = .ok order → SortOrder.parse order.display = .ok order) ∧
    (∀ name schema, (∃ text, Schema.parse name text = .ok schema) ↔
      schema.name = name ∧ schema.Valid ∧ ∀ field ∈ schema.fields, field.Textual) ∧
    ∀ order, (∃ text, SortOrder.parse text = .ok order) ↔ ∀ entry ∈ order.entries, entry.Textual := by
  refine ⟨fun name text schema read => ?_, fun text order read => ?_,
    fun name schema => Schema.exists_parse_iff, fun order => SortOrder.exists_parse_iff⟩
  · obtain ⟨rfl, valid, textual⟩ := Schema.textual_of_parse read
    exact Schema.parse_display valid textual
  · exact SortOrder.parse_display (SortOrder.textual_of_parse read)

namespace Spelled

def visits : Schema :=
  ⟨"visits", [⟨"a", .int32, none⟩, ⟨"b c", .object "<:>", none⟩, ⟨"asc", .object "", none⟩]⟩

def order : SortOrder :=
  ⟨[.field "a" .descending none, .sourceId .ascending, .field "b:c>" .ascending none]⟩

end Spelled

theorem parse_display_of_parse_spelled :
    Schema.parse "visits" " \u0085 a\u00a0:\u2003i32 ,,b c: object< <:> > ,asc:object<>," =
      .ok Spelled.visits ∧
    Spelled.visits.display = "a:int, b c:object<<:>>, asc:object<>" ∧
    Schema.parse "visits" Spelled.visits.display = .ok Spelled.visits ∧
    SortOrder.parse " \u0085 a\u00a0DESC ,, #source#, b:c>  " = .ok Spelled.order ∧
    Spelled.order.display = "a desc, #source# asc, b:c> asc" ∧
    SortOrder.parse Spelled.order.display = .ok Spelled.order := by
  have read : Schema.parse "visits" " \u0085 a\u00a0:\u2003i32 ,,b c: object< <:> > ,asc:object<>," =
      .ok Spelled.visits := by rfl
  have ordered : SortOrder.parse " \u0085 a\u00a0DESC ,, #source#, b:c>  " = .ok Spelled.order := by rfl
  exact ⟨read, by rfl, parse_display_of_parse.1 _ _ _ read, ordered, by rfl,
    parse_display_of_parse.2.1 _ _ ordered⟩

end Cogrouping
