import Cogrouping.Order.Record
import Cogrouping.Proofs.Wire.RoundTrip

/-!
Ordinals of enum constants on the wire. An ordinal is read as the constant of the symbol at its place, whose
ordinal is the first place of that symbol. So an ordinal comes back as it was written unless its symbol was
listed before, and in just those cases a comparator is shown other ordinals for records than for tuples.
-/

namespace Cogrouping

def EnumConstant.bytes (constant : EnumConstant) : Bytes :=
  Varint.encode (Int64.ofNat constant.ordinal.toNat)

namespace FieldCodec

/-- A constant is written, and another one is read from its bytes wherever they stand. -/
structure Rereads (codec : FieldCodec) (field : Field) (written read : EnumConstant) : Prop where
  appended : ∀ buffers, outcome (codec.encode field (.constant written)) buffers =
    (.ok (), { buffers with out := buffers.out ++ written.bytes })
  decoded : ∀ before after,
    codec.decode (before ++ written.bytes ++ after) before.length field.type =
      .ok (.constant read, written.bytes.length)

variable {codec : FieldCodec} {field : Field} {type : EnumType} {constant : EnumConstant}

theorem outcome_encode_constant
    (accepted : (Value.constant constant).check field.name field.type = .ok ()) (buffers : Buffers) :
    outcome (codec.encode field (.constant constant)) buffers =
      (.ok (), { buffers with out := buffers.out ++ constant.bytes }) := by
  unfold encode
  rw [outcome_bind, outcome_ofExcept, accepted]
  exact Writing.outcome_append _ _

theorem exists_rereads
    (held : codec.constants.byType.find? type.name = some (type.symbols.map type.constant))
    (typed : field.type = .enumeration type)
    (accepted : (Value.constant constant).check field.name field.type = .ok ()) :
    ∃ symbol, type.symbols[constant.ordinal.toNat]? = some symbol ∧
      codec.Rereads field constant (type.constant symbol) := by
  have admitted := Value.conformsTo_eq_true.mp (Value.check_eq_ok.mp accepted)
  rw [typed] at admitted
  cases admitted with
  | constant named inside =>
      have placed := List.getElem?_eq_getElem inside
      have bound := constant.ordinal.toNat_lt
      refine ⟨_, placed, outcome_encode_constant accepted, fun before after => ?_⟩
      rw [typed, decode_eq_ok]
      exact ⟨constant.bytes, at_middle before _ after, rfl,
        .constant (Varint.encode_spellsSize (by omega)) (by omega)
          (EnumConstants.resolve_eq held placed)⟩

end FieldCodec

namespace SortKey

variable {key : SortKey} {comparator : Comparator} {codec : FieldCodec} {field : Field}
variable {left right leftRead rightRead : EnumConstant}

theorem compareValues_of_accepted (typed : key.type = field.type)
    (custom : key.comparator = some comparator)
    (leftAccepted : (Value.constant left).check field.name field.type = .ok ())
    (rightAccepted : (Value.constant right).check field.name field.type = .ok ()) :
    key.compareValues (.constant left) (.constant right) =
      .ok (comparator (.constant left) (.constant right)) := by
  have leftFits : (Value.constant left).check key.name field.type = .ok () :=
    Value.check_eq_ok.mpr (Value.check_eq_ok.mp leftAccepted)
  have rightFits : (Value.constant right).check key.name field.type = .ok () :=
    Value.check_eq_ok.mpr (Value.check_eq_ok.mp rightAccepted)
  simp only [compareValues, custom, typed, leftFits, rightFits, ok_bind, pure_eq_ok]

theorem compareEncoded_of_rereads (typed : key.type = field.type)
    (custom : key.comparator = some comparator) (leftRereads : codec.Rereads field left leftRead)
    (rightRereads : codec.Rereads field right rightRead)
    (leftBefore leftAfter rightBefore rightAfter : Bytes) :
    key.compareEncoded codec (leftBefore ++ left.bytes ++ leftAfter) leftBefore.length
        (rightBefore ++ right.bytes ++ rightAfter) rightBefore.length =
      .ok (comparator (.constant leftRead) (.constant rightRead), left.bytes.length,
        right.bytes.length) := by
  simp only [compareEncoded, custom, typed, leftRereads.decoded, rightRereads.decoded, ok_bind,
    pure_eq_ok]

end SortKey

namespace EnumConstants

/-- An ordinal within a declared type is resolved to the constant of its symbol and any other one is refused.
A constant comes back with its ordinal, and a comparator sees this ordinal on both ways of comparing, just
where the symbol at the ordinal stands at no earlier place. -/
theorem ordinals_reread {job : Job} {plan : Plan} (built : Plan.build job = .ok plan) :
    ∃ constants, ofTypes plan.enumTypes = .ok constants ∧
      ∀ source ∈ job.sources, ∀ field ∈ source.schema.fields, ∀ type,
        field.type = .enumeration type →
        (∀ ordinal symbol, type.symbols[ordinal]? = some symbol →
          constants.resolve type.name ordinal = .ok (type.constant symbol) ∧
          ((type.constant symbol).ordinal.toNat = ordinal ↔
            ordinal < 0x100000000 ∧ symbol ∉ type.symbols.take ordinal)) ∧
        (∀ ordinal, type.symbols.length ≤ ordinal → constants.resolve type.name ordinal =
          .error (.codec (.ordinalOutside ordinal type.name type.symbols.length))) ∧
        ∀ codec : FieldCodec, codec.constants = constants →
          (∀ constant, (Value.constant constant).check field.name field.type = .ok () →
            ∃ symbol, type.symbols[constant.ordinal.toNat]? = some symbol ∧
              codec.Rereads field constant (type.constant symbol) ∧
              ((type.constant symbol).ordinal = constant.ordinal ↔
                symbol ∉ type.symbols.take constant.ordinal.toNat)) ∧
          ∀ (key : SortKey) (comparator : Comparator), key.type = field.type →
            key.comparator = some comparator → ∀ left right,
            (Value.constant left).check field.name field.type = .ok () →
            (Value.constant right).check field.name field.type = .ok () →
            key.compareValues (.constant left) (.constant right) =
              .ok (comparator (.constant left) (.constant right)) ∧
            ∃ leftSymbol rightSymbol, type.symbols[left.ordinal.toNat]? = some leftSymbol ∧
              type.symbols[right.ordinal.toNat]? = some rightSymbol ∧
              ∀ leftBefore leftAfter rightBefore rightAfter,
                key.compareEncoded codec (leftBefore ++ left.bytes ++ leftAfter) leftBefore.length
                    (rightBefore ++ right.bytes ++ rightAfter) rightBefore.length =
                  .ok (comparator (.constant (type.constant leftSymbol))
                    (.constant (type.constant rightSymbol)), left.bytes.length,
                    right.bytes.length) := by
  obtain ⟨sound, rfl⟩ := Plan.build_sound built
  obtain ⟨constants, made⟩ := exists_ofTypes plan.enumTypes
  refine ⟨constants, made, fun source member field declared type typed => ?_⟩
  have held := held_of_listed
    (FieldCodec.ofTypes_find? made (sound.enums source member field declared type typed))
  refine ⟨fun ordinal symbol placed => ?_, fun ordinal outside => ?_, ?_⟩
  · exact ⟨resolve_eq held placed, EnumType.toNat_ordinal_eq_iff placed⟩
  · exact resolve_of_length_le held outside
  · rintro codec rfl
    refine ⟨fun constant accepted => ?_, ?_⟩
    · obtain ⟨symbol, placed, rereads⟩ := FieldCodec.exists_rereads held typed accepted
      refine ⟨symbol, placed, rereads, ?_⟩
      have bound := constant.ordinal.toNat_lt
      rw [← UInt32.toNat_inj, EnumType.toNat_ordinal_eq_iff placed]
      exact and_iff_right (by omega)
    · intro key comparator sameType custom left right leftAccepted rightAccepted
      obtain ⟨leftSymbol, leftPlaced, leftRereads⟩ :=
        FieldCodec.exists_rereads held typed leftAccepted
      obtain ⟨rightSymbol, rightPlaced, rightRereads⟩ :=
        FieldCodec.exists_rereads held typed rightAccepted
      exact ⟨SortKey.compareValues_of_accepted sameType custom leftAccepted rightAccepted,
        leftSymbol, rightSymbol, leftPlaced, rightPlaced,
        SortKey.compareEncoded_of_rereads sameType custom leftRereads rightRereads⟩

end EnumConstants

/-! A job with an enum type that lists a symbol twice. -/

namespace Levels

def type : EnumType := ⟨"Level", ["low", "high", "low"]⟩

def level : Field := ⟨"level", .enumeration type, none⟩

def visits : Schema := ⟨"visits", [level]⟩

def job : Job :=
  { sources := [⟨⟨1⟩, visits⟩]
    orderBy := ⟨[.field "level" .ascending (some "reversed")]⟩
    groupBy := ["level"] }

def plan : Plan := valueOf (Plan.build job) (by decide +kernel)

def fields : FieldCodec := valueOf (FieldCodec.ofPlan plan .standard 100) (by decide +kernel)

def records : RecordCodec := ⟨plan, fields⟩

def reversed : Comparator := fun left right => ((left.naturalOrder? right).getD .eq).swap

def order : RecordOrder :=
  valueOf (RecordOrder.ofPlan plan fields (Comparators.empty.register "reversed" reversed)) (by decide +kernel)

def constant (ordinal : UInt32) (symbol : String) : EnumConstant := ⟨"Level", ordinal, symbol⟩

def visit (constant : EnumConstant) : Tuple := ⟨visits, [.constant constant], rfl⟩

end Levels

namespace EnumConstants

theorem ordinals_reread_levels :
    ∃ constants, ofTypes Levels.plan.enumTypes = .ok constants ∧
      constants.resolve "Level" 1 = .ok (Levels.constant 1 "high") ∧
      constants.resolve "Level" 3 = .error (.codec (.ordinalOutside 3 "Level" 3)) ∧
      ∃ symbol, ["low", "high", "low"][2]? = some symbol ∧
        (FieldCodec.mk constants .standard 100).Rereads Levels.level (Levels.constant 2 "low")
          (Levels.type.constant symbol) ∧
        ((Levels.type.constant symbol).ordinal = 2 ↔ symbol ∉ ["low", "high"]) := by
  have built : Plan.build Levels.job = .ok Levels.plan := eq_valueOf _
  obtain ⟨constants, made, serves⟩ := ordinals_reread built
  obtain ⟨resolved, refused, reads⟩ := serves ⟨⟨1⟩, Levels.visits⟩ List.mem_cons_self Levels.level
    List.mem_cons_self Levels.type rfl
  obtain ⟨symbol, placed, rereads, same⟩ := (reads ⟨constants, .standard, 100⟩ rfl).1
    (Levels.constant 2 "low") (by decide)
  exact ⟨constants, made, (resolved 1 "high" rfl).1, refused 3 (by decide), symbol, placed, rereads,
    same⟩

/-- The second place of a symbol is resolved to the constant of the first one. A tuple with the ordinal of
the second place is written, read with another ordinal, and compared otherwise as a record than as a tuple. -/
theorem ordinal_of_repeated_symbol :
    Plan.build Levels.job = .ok Levels.plan ∧
      FieldCodec.ofPlan Levels.plan .standard 100 = .ok Levels.fields ∧
      Levels.fields.constants.resolve "Level" 2 = .ok (Levels.constant 0 "low") ∧
      (Value.constant (Levels.constant 2 "low")).check "level" Levels.level.type = .ok () ∧
      Levels.records.encode (Levels.visit (Levels.constant 2 "low")) = .ok [0x81, 2] ∧
      Levels.fields.decode [0x81, 2] 0 Levels.level.type =
        .ok (.constant (Levels.constant 0 "low"), 2) ∧
      Levels.records.encode (Levels.visit (Levels.constant 1 "high")) = .ok [0x81, 1] ∧
      Levels.order.compare (Levels.visit (Levels.constant 1 "high"))
        (Levels.visit (Levels.constant 2 "low")) = .ok .gt ∧
      Levels.order.compareBytes [0x81, 1] [0x81, 2] = .ok .lt := by
  refine ⟨eq_valueOf _, eq_valueOf _, ?_, ?_, ?_, ?_, ?_, ?_, ?_⟩
  · decide +kernel
  · decide +kernel
  · decide +kernel
  · decide +kernel
  · decide +kernel
  · decide +kernel
  · decide +kernel

end EnumConstants

end Cogrouping
