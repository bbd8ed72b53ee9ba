import Cogrouping.Proofs.Wire.RoundTrip

/-!
The limit on fields from both sides. Writing and reading refuse the same texts, but only reading refuses an
object for its length: what is written for a value is read and passed over unless it is such an object.
-/

namespace Cogrouping

namespace FieldCodec

def Reads (codec : FieldCodec) : DataType → Value → Prop
  | .object name, .object json => ∀ object, codec.objects.find name = .ok object →
      ∃ read, object.decode (object.encode json).1 = .ok read
  | _, _ => True

variable {codec : FieldCodec}

theorem exists_resolve {type : EnumType} (known : codec.Knows (.enumeration type)) {ordinal : Nat}
    (inside : ordinal < type.symbols.length) :
    ∃ constant, codec.constants.resolve type.name ordinal = .ok constant := by
  exact ⟨_, EnumConstants.resolve_eq known.held (List.getElem?_eq_getElem inside)⟩

theorem exists_decode_written {type : DataType} {value : Value} {bytes : Bytes}
    (written : codec.Written type value bytes) (known : codec.Knows type)
    (reads : codec.Reads type value) (within : ¬codec.Oversized type value)
    (fits : bytes.length < 0x8000000000000000) (before after : Bytes) :
    ∃ read, codec.decode (before ++ bytes ++ after) before.length type = .ok (read, bytes.length) := by
  have kept : codec.Keeps type value → ∃ read, codec.Spelled type read bytes :=
    fun kept => ⟨value, written.spelled known kept fits⟩
  have spelled : ∃ read, codec.Spelled type read bytes := by
    cases written with
    | int32 number => exact kept trivial
    | int64 number => exact kept trivial
    | float32 number => exact kept trivial
    | float64 number => exact kept trivial
    | boolean truth => exact kept trivial
    | text text short => exact kept trivial
    | absent name => exact kept trivial
    | @constant type constant named inside =>
        obtain ⟨read, resolved⟩ := exists_resolve known inside
        have bound := constant.ordinal.toNat_lt
        exact ⟨_, .constant (Varint.encode_spellsSize (by omega)) (by omega) resolved⟩
    | @object name object json found succeeded =>
        obtain ⟨read, decoded⟩ := reads object found
        have short := Nat.not_lt.mp fun long => within ⟨object, found, long⟩
        rw [List.length_append] at fits
        exact ⟨_, .object (Varint.encode_spellsSize (by omega)) short found decoded⟩
  obtain ⟨read, spelled⟩ := spelled
  exact ⟨read, decode_eq_ok.mpr ⟨bytes, at_middle before bytes after, rfl, spelled⟩⟩

theorem refuses_oversized {type : DataType} {value : Value} {bytes : Bytes}
    (written : codec.Written type value bytes) (long : codec.Oversized type value)
    (fits : bytes.length < 0x8000000000000000) (before after : Bytes) :
    ∃ size, codec.limit < size ∧
      codec.decode (before ++ bytes ++ after) before.length type =
        .error (.codec (.lengthOutside (Int64.ofNat size) before.length codec.limit)) ∧
      codec.skip (before ++ bytes ++ after) before.length type =
        .error (.codec (.lengthOutside (Int64.ofNat size) before.length codec.limit)) := by
  cases written with
  | @object name object json found succeeded =>
      obtain ⟨same, known, more⟩ := long
      obtain rfl := Except.ok.inj (found.symm.trans known)
      generalize (object.encode json).1 = blob at more fits
      rw [List.length_append] at fits
      have fewer : blob.length < 0x8000000000000000 := by omega
      have announced := Varint.read_encode before (blob ++ after) (Int64.ofNat blob.length)
      have refused := Varint.readSize_encode_of_gt before (blob ++ after) fewer more
      have present := ofNat_ne_absentSize fewer
      have parts : before ++ (Varint.encode (Int64.ofNat blob.length) ++ blob) ++ after =
          before ++ Varint.encode (Int64.ofNat blob.length) ++ (blob ++ after) := by
        simp only [List.append_assoc]
      rw [parts]
      refine ⟨blob.length, more, ?_, ?_⟩
      · simp only [decode, decodeObject, announced, refused, ok_bind, error_bind, if_neg present]
      · simp only [skip, announcedSize, objectSize, announced, refused, ok_bind, error_bind,
          if_neg present]
  | _ => exact long.elim

theorem out_of_encode {field : Field} {value : Value} {before after : Buffers}
    (encoded : outcome (codec.encode field value) before = (.ok (), after)) :
    ∃ bytes, codec.Written field.type value bytes ∧ after.out = before.out ++ bytes := by
  obtain ⟨scratch, appended⟩ := codec.appends_encode field value before
  rw [encoded] at appended
  cases result : codec.bytesOf field value with
  | error cause => simp [result, Except.map] at appended
  | ok bytes =>
      rw [result, Prod.mk.injEq] at appended
      refine ⟨bytes, bytesOf_eq_ok.mp result, ?_⟩
      rw [appended.2]
      rfl

/-- What a plan's codec writes for a value of a declared field is read and passed over where it stands,
unless it is an object longer than the limit; that one is refused for its length. -/
theorem encode_read_or_refused {job : Job} {plan : Plan} (built : Plan.build job = .ok plan)
    {objects : ObjectCodecs} {limit : Nat} (made : ofPlan plan objects limit = .ok codec)
    {source : Source} (member : source ∈ job.sources) {field : Field}
    (declared : field ∈ source.schema.fields) {value : Value} {before after : Buffers}
    (encoded : outcome (codec.encode field value) before = (.ok (), after))
    (reads : codec.Reads field.type value) (fits : after.out.length < 0x8000000000000000) :
    ∃ bytes, after.out = before.out ++ bytes ∧ ∀ rest,
      (¬codec.Oversized field.type value →
        (∃ read, codec.decode (after.out ++ rest) before.out.length field.type =
          .ok (read, bytes.length)) ∧
        codec.skip (after.out ++ rest) before.out.length field.type = .ok bytes.length) ∧
      (codec.Oversized field.type value → ∃ size, limit < size ∧
        codec.decode (after.out ++ rest) before.out.length field.type =
          .error (.codec (.lengthOutside (Int64.ofNat size) before.out.length limit)) ∧
        codec.skip (after.out ++ rest) before.out.length field.type =
          .error (.codec (.lengthOutside (Int64.ofNat size) before.out.length limit))) := by
  obtain ⟨planSound, rfl⟩ := Plan.build_sound built
  have known := ofPlan_knows planSound made source member field declared
  have sameLimit : codec.limit = limit := by
    obtain ⟨_, _, made⟩ := bind_eq_ok.mp made
    obtain ⟨_, _, made⟩ := bind_eq_ok.mp made
    cases made
    rfl
  subst sameLimit
  obtain ⟨bytes, written, appended⟩ := out_of_encode encoded
  rw [appended, List.length_append] at fits
  refine ⟨bytes, appended, fun rest => ?_⟩
  rw [appended]
  constructor
  · intro within
    constructor
    · exact exists_decode_written written known reads within (by omega) before.out rest
    · exact skip_written written within (by omega) before.out rest
  · intro long
    exact refuses_oversized written long (by omega) before.out rest

end FieldCodec

namespace Notes

def notes : Schema := ⟨"notes", [⟨"key", .text, none⟩, ⟨"body", .object "json", none⟩]⟩

def job : Job := { sources := [⟨⟨1⟩, notes⟩], groupBy := ["key"] }

def plan : Plan := valueOf (Plan.build job) (by decide +kernel)

def fields : FieldCodec := valueOf (FieldCodec.ofPlan plan .standard 4) (by decide +kernel)

def body : Field := ⟨"body", .object "json", none⟩

def short : Json := .array [.ofNat 1]

def long : Json := .array [.ofNat 1, .ofNat 2, .ofNat 3]

def note (json : Json) : Tuple := ⟨notes, [.text "a", .object json], rfl⟩

def records : RecordCodec := ⟨plan, fields⟩

theorem find_json {object : ObjectCodec} (found : fields.objects.find "json" = .ok object) :
    object = .json := by
  have json : fields.objects.find "json" = .ok .json := by rfl
  exact Except.ok.inj (found.symm.trans json)

theorem reads_short : fields.Reads body.type (.object short) := by
  intro object found
  rw [find_json found]
  exact ⟨short, by decide +kernel⟩

theorem within_short : ¬fields.Oversized body.type (.object short) := by
  rintro ⟨object, found, more⟩
  rw [find_json found] at more
  have size : (ObjectCodec.json.encode short).1.length = 3 := by decide +kernel
  have limit : fields.limit = 4 := by decide +kernel
  omega

end Notes

/-- A short object behind a byte that was there before, and before one that comes later. -/
theorem FieldCodec.encode_read_or_refused_note :
    ∃ after bytes,
      outcome (Notes.fields.encode Notes.body (.object Notes.short)) ⟨[], [7]⟩ = (.ok (), after) ∧
      after.out = [7] ++ bytes ∧
      (∃ read, Notes.fields.decode (after.out ++ [1]) 1 Notes.body.type = .ok (read, bytes.length)) ∧
      Notes.fields.skip (after.out ++ [1]) 1 Notes.body.type = .ok bytes.length := by
  have encoded : outcome (Notes.fields.encode Notes.body (.object Notes.short)) ⟨[], [7]⟩ =
      (.ok (), ⟨[91, 49, 93], [7, 129, 3, 91, 49, 93]⟩) := by decide +kernel
  have member : (⟨⟨1⟩, Notes.notes⟩ : Source) ∈ Notes.job.sources := List.mem_singleton_self _
  have declared : Notes.body ∈ Notes.notes.fields := List.mem_cons_of_mem _ List.mem_cons_self
  obtain ⟨bytes, appended, read⟩ := FieldCodec.encode_read_or_refused (eq_valueOf _) (eq_valueOf _)
    member declared encoded Notes.reads_short (by decide)
  obtain ⟨decoded, skipped⟩ := (read [1]).1 Notes.within_short
  exact ⟨_, bytes, encoded, appended, decoded, skipped⟩

/-- An object of seven bytes is written under a limit of four, as a field and within a record. Its own
codec reads these bytes, but the field is refused, and so is the record. -/
theorem FieldCodec.encode_long_note :
    ∃ after, outcome (Notes.fields.encode Notes.body (.object Notes.long)) ⟨[], []⟩ = (.ok (), after) ∧
      ObjectCodec.json.decode (ObjectCodec.json.encode Notes.long).1 = .ok Notes.long ∧
      Notes.fields.decode after.out 0 Notes.body.type =
        .error (.codec (.lengthOutside 7 0 4)) ∧
      Notes.fields.skip after.out 0 Notes.body.type = .error (.codec (.lengthOutside 7 0 4)) ∧
      ∃ record, Notes.records.encode (Notes.note Notes.long) = .ok record ∧
        Notes.records.decode record = .error (.codec (.lengthOutside 7 3 4)) := by
  refine ⟨⟨[91, 49, 44, 50, 44, 51, 93], [129, 7, 91, 49, 44, 50, 44, 51, 93]⟩, ?_, ?_, ?_, ?_,
    [129, 1, 97, 129, 7, 91, 49, 44, 50, 44, 51, 93], ?_, ?_⟩
  · decide +kernel
  · decide +kernel
  · decide +kernel
  · decide +kernel
  · decide +kernel
  · decide +kernel

end Cogrouping
