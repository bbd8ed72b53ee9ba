import Cogrouping.Proofs.Outcome
import Cogrouping.Proofs.Text.Utf8
import Cogrouping.Proofs.Value
import Cogrouping.Proofs.Wire.Constants
import Cogrouping.Proofs.Wire.OrderedFloat
import Cogrouping.Proofs.Wire.Varint
import Cogrouping.Wire.Field

/-!
Laws of writing single fields. Writing a value appends bytes that depend on the value alone. What has to
hold of a value and of the codec for the value to be read back is named here.
-/

namespace Cogrouping

namespace Writing

@[simp] theorem outcome_append (bytes : Bytes) (buffers : Buffers) :
    outcome (append bytes) buffers = (.ok (), { buffers with out := buffers.out ++ bytes }) := rfl

@[simp] theorem outcome_clearScratch (buffers : Buffers) :
    outcome clearScratch buffers = (.ok (), { buffers with scratch := [] }) := rfl

@[simp] theorem outcome_stage (codec : ObjectCodec) (json : Json) (buffers : Buffers) :
    outcome (stage codec json) buffers =
      ((codec.encode json).2, { buffers with scratch := buffers.scratch ++ (codec.encode json).1 }) := by
  rw [stage, outcome_bind, outcome_modify]
  exact outcome_ofExcept _ _

end Writing

namespace FieldCodec

variable (codec : FieldCodec)

def objectBytes (name : String) (json : Json) : Except Error Bytes := do
  let object ← codec.objects.find name
  (object.encode json).2
  return Varint.encode (Int64.ofNat (object.encode json).1.length) ++ (object.encode json).1

def sizedText (field text : String) : Except Error Bytes :=
  if codec.limit < (Utf8.encode text).length then
    .error (.codec (.textTooLong field (Utf8.encode text).length codec.limit))
  else .ok (Varint.encode (Int64.ofNat (Utf8.encode text).length) ++ Utf8.encode text)

def bytesOf (field : Field) (value : Value) : Except Error Bytes := do
  value.check field.name field.type
  match value, field.type with
  | .int32 number, _ => .ok (Varint.encode number.toInt64)
  | .int64 number, _ => .ok (Varint.encode number)
  | .float32 number, _ => .ok (OrderedFloat.encode32 number)
  | .float64 number, _ => .ok (OrderedFloat.encode64 number)
  | .boolean truth, _ => .ok [if truth then 1 else 0]
  | .text text, _ => codec.sizedText field.name text
  | .constant constant, _ => .ok (Varint.encode (Int64.ofNat constant.ordinal.toNat))
  | .null, .object _ => .ok (Varint.encode absentSize)
  | .object json, .object name => codec.objectBytes name json
  | _, _ => .error (.invariant (.noEncoding value.kind field.name))

/-- An action that appends the bytes of a result, or appends nothing and fails as the result does. The
scratch buffer is left with anything. -/
def Appends (action : Writing Unit) (result : Except Error Bytes) : Prop :=
  ∀ buffers, ∃ scratch, outcome action buffers =
    (result.map fun _ => (), { scratch, out := buffers.out ++ result.toOption.getD [] })

theorem appends_append (bytes : Bytes) : Appends (Writing.append bytes) (.ok bytes) := by
  intro buffers
  exact ⟨buffers.scratch, rfl⟩

theorem appends_throw (cause : Error) : Appends (throw cause) (.error cause) := by
  intro buffers
  exact ⟨buffers.scratch, by simp [Except.map, Except.toOption]⟩

theorem appends_encodeText (field text : String) :
    Appends (codec.encodeText field text) (codec.sizedText field text) := by
  intro buffers
  refine ⟨buffers.scratch, ?_⟩
  rw [encodeText, sizedText]
  by_cases long : codec.limit < (Utf8.encode text).length
  · simp only [if_pos long]
    simp [Except.map, Except.toOption]
  · simp only [if_neg long]
    simp [outcome_bind, Except.map, Except.toOption]

theorem appends_encodeObject (name : String) (json : Json) :
    Appends (codec.encodeObject name json) (codec.objectBytes name json) := by
  intro buffers
  rw [encodeObject, objectBytes]
  cases found : codec.objects.find name with
  | error cause =>
      refine ⟨[], ?_⟩
      simp [outcome_bind, Except.map, Except.toOption]
  | ok object =>
      refine ⟨(object.encode json).1, ?_⟩
      cases staged : (object.encode json).2 with
      | error cause => simp [outcome_bind, staged, Except.map, Except.toOption]
      | ok => simp [outcome_bind, staged, Except.map, Except.toOption]

theorem appends_encode (field : Field) (value : Value) :
    Appends (codec.encode field value) (codec.bytesOf field value) := by
  intro buffers
  unfold encode bytesOf
  cases checked : value.check field.name field.type with
  | error cause =>
      refine ⟨buffers.scratch, ?_⟩
      rw [outcome_bind_of_error (outcome_ofExcept _ _), error_bind]
      simp [Except.map, Except.toOption]
  | ok =>
      rw [outcome_bind_of_ok (outcome_ofExcept _ _), ok_bind]
      cases value with
      | int32 number => exact appends_append _ buffers
      | int64 number => exact appends_append _ buffers
      | float32 number => exact appends_append _ buffers
      | float64 number => exact appends_append _ buffers
      | boolean truth => exact appends_append _ buffers
      | text text => exact codec.appends_encodeText _ _ buffers
      | constant constant => exact appends_append _ buffers
      | null =>
          cases field.type with
          | object name => exact appends_append _ buffers
          | _ => exact appends_throw _ buffers
      | object json =>
          cases field.type with
          | object name => exact codec.appends_encodeObject _ _ buffers
          | _ => exact appends_throw _ buffers

inductive Written : DataType → Value → Bytes → Prop
  | int32 (number : Int32) : Written .int32 (.int32 number) (Varint.encode number.toInt64)
  | int64 (number : Int64) : Written .int64 (.int64 number) (Varint.encode number)
  | float32 (number : Decimal.Binary32) :
      Written .float32 (.float32 number) (OrderedFloat.encode32 number)
  | float64 (number : Decimal.Binary64) :
      Written .float64 (.float64 number) (OrderedFloat.encode64 number)
  | boolean (truth : Bool) : Written .boolean (.boolean truth) [if truth then 1 else 0]
  | text (text : String) : (Utf8.encode text).length ≤ codec.limit →
      Written .text (.text text)
        (Varint.encode (Int64.ofNat (Utf8.encode text).length) ++ Utf8.encode text)
  | constant {type : EnumType} {constant : EnumConstant} : constant.typeName = type.name →
      constant.ordinal.toNat < type.symbols.length →
      Written (.enumeration type) (.constant constant)
        (Varint.encode (Int64.ofNat constant.ordinal.toNat))
  | absent (name : String) : Written (.object name) .null (Varint.encode absentSize)
  | object {name : String} {object : ObjectCodec} {json : Json} :
      codec.objects.find name = .ok object → (object.encode json).2 = .ok () →
      Written (.object name) (.object json)
        (Varint.encode (Int64.ofNat (object.encode json).1.length) ++ (object.encode json).1)

variable {codec}

theorem Written.conforms {type : DataType} {value : Value} {bytes : Bytes}
    (written : codec.Written type value bytes) : value.conformsTo type = true := by
  rw [Value.conformsTo_eq_true]
  cases written with
  | int32 number => exact .int32 number
  | int64 number => exact .int64 number
  | float32 number => exact .float32 number
  | float64 number => exact .float64 number
  | boolean truth => exact .boolean truth
  | text text short => exact .text text
  | constant named inside => exact .constant named inside
  | absent name => exact .absent name
  | object found succeeded => exact .object _ _

theorem sizedText_eq_ok {field text : String} {bytes : Bytes} :
    codec.sizedText field text = .ok bytes ↔ (Utf8.encode text).length ≤ codec.limit ∧
      bytes = Varint.encode (Int64.ofNat (Utf8.encode text).length) ++ Utf8.encode text := by
  unfold sizedText
  split
  · rename_i long
    simp only [reduceCtorEq, false_iff, not_and]
    omega
  · rename_i short
    simp only [Except.ok.injEq, Nat.not_lt.mp short, true_and]
    exact eq_comm

theorem objectBytes_eq_ok {name : String} {json : Json} {bytes : Bytes} :
    codec.objectBytes name json = .ok bytes ↔ ∃ object, codec.objects.find name = .ok object ∧
      (object.encode json).2 = .ok () ∧
      bytes = Varint.encode (Int64.ofNat (object.encode json).1.length) ++
        (object.encode json).1 := by
  simp only [objectBytes, bind_eq_ok, pure_eq_ok, Except.ok.injEq]
  constructor
  · rintro ⟨object, found, result, succeeded, rfl⟩
    exact ⟨object, found, succeeded, rfl⟩
  · rintro ⟨object, found, succeeded, rfl⟩
    exact ⟨object, found, (), succeeded, rfl⟩

theorem bytesOf_eq_ok {field : Field} {value : Value} {bytes : Bytes} :
    codec.bytesOf field value = .ok bytes ↔ codec.Written field.type value bytes := by
  constructor
  · intro found
    unfold bytesOf at found
    obtain ⟨_, checked, found⟩ := bind_eq_ok.mp found
    have admitted := Value.conformsTo_eq_true.mp (Value.check_eq_ok.mp checked)
    revert admitted found
    generalize field.type = type
    intro found admitted
    cases admitted with
    | int32 number =>
        cases found
        exact .int32 number
    | int64 number =>
        cases found
        exact .int64 number
    | float32 number =>
        cases found
        exact .float32 number
    | float64 number =>
        cases found
        exact .float64 number
    | boolean truth =>
        cases found
        exact .boolean truth
    | text text =>
        obtain ⟨short, rfl⟩ := sizedText_eq_ok.mp found
        exact .text text short
    | constant named inside =>
        cases found
        exact .constant named inside
    | absent name =>
        cases found
        exact .absent name
    | object name json =>
        obtain ⟨object, known, succeeded, rfl⟩ := objectBytes_eq_ok.mp found
        exact .object known succeeded
  · intro written
    unfold bytesOf
    rw [Value.check_eq_ok.mpr written.conforms, ok_bind]
    revert written
    generalize field.type = type
    intro written
    cases written with
    | text text short => exact sizedText_eq_ok.mpr ⟨short, rfl⟩
    | object named succeeded => exact objectBytes_eq_ok.mpr ⟨_, named, succeeded, rfl⟩
    | _ => rfl

/-- Reading gives back such a value of the type: the ordinal of a constant is the place of its symbol,
and an object survives its codec within the limit. -/
def Keeps (codec : FieldCodec) : DataType → Value → Prop
  | .enumeration type, .constant constant =>
      type.ordinalOf? constant.symbol = some constant.ordinal.toNat
  | .object name, .object json => ∀ object, codec.objects.find name = .ok object →
      object.decode (object.encode json).1 = .ok json ∧
        (object.encode json).1.length ≤ codec.limit
  | _, _ => True

def Oversized (codec : FieldCodec) : DataType → Value → Prop
  | .object name, .object json => ∃ object, codec.objects.find name = .ok object ∧
      codec.limit < (object.encode json).1.length
  | _, _ => False

theorem Keeps.within {type : DataType} {value : Value} (kept : codec.Keeps type value) :
    ¬codec.Oversized type value := by
  cases type with
  | object name =>
      cases value with
      | object json =>
          rintro ⟨object, found, long⟩
          obtain ⟨_, short⟩ := kept object found
          omega
      | _ => exact id
  | _ => exact id

def Knows (codec : FieldCodec) : DataType → Prop
  | .enumeration type => ∃ constants, EnumConstants.ofType type = .ok constants ∧
      codec.constants.byType.find? type.name = some constants
  | _ => True

theorem Keeps.place {type : EnumType} {constant : EnumConstant}
    (kept : codec.Keeps (.enumeration type) (.constant constant)) :
    type.symbols[constant.ordinal.toNat]? = some constant.symbol := by
  obtain ⟨listed, place⟩ := EnumType.ordinalOf?_eq_some.mp kept
  rw [← place, List.getElem?_idxOf listed]

theorem Knows.held {type : EnumType} (known : codec.Knows (.enumeration type)) :
    codec.constants.byType.find? type.name = some (type.symbols.map type.constant) :=
  EnumConstants.held_of_listed known

theorem resolve_constant {type : EnumType} {constant : EnumConstant}
    (known : codec.Knows (.enumeration type)) (named : constant.typeName = type.name)
    (kept : codec.Keeps (.enumeration type) (.constant constant)) :
    codec.constants.resolve type.name constant.ordinal.toNat = .ok constant := by
  have same : type.constant constant.symbol = constant := by
    rw [EnumType.constant, (EnumType.ordinalOf?_eq_some.mp kept).2, UInt32.ofNat_toNat, ← named]
  exact (EnumConstants.resolve_eq known.held kept.place).trans (congrArg Except.ok same)

end FieldCodec

end Cogrouping
