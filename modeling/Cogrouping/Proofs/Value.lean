import Cogrouping.Value

/-!
The values that a type admits, case by case.
-/

namespace Cogrouping.Value

inductive Admitted : DataType → Value → Prop
  | int32 (number : Int32) : Admitted .int32 (.int32 number)
  | int64 (number : Int64) : Admitted .int64 (.int64 number)
  | float32 (number : Decimal.Binary32) : Admitted .float32 (.float32 number)
  | float64 (number : Decimal.Binary64) : Admitted .float64 (.float64 number)
  | boolean (truth : Bool) : Admitted .boolean (.boolean truth)
  | text (text : String) : Admitted .text (.text text)
  | constant {type : EnumType} {constant : EnumConstant} : constant.typeName = type.name →
      constant.ordinal.toNat < type.symbols.length →
      Admitted (.enumeration type) (.constant constant)
  | absent (name : String) : Admitted (.object name) .null
  | object (name : String) (json : Json) : Admitted (.object name) (.object json)

theorem conformsTo_eq_true {type : DataType} {value : Value} :
    value.conformsTo type = true ↔ Admitted type value := by
  constructor
  · intro conforms
    unfold conformsTo at conforms
    split at conforms
    · exact .int32 _
    · exact .int64 _
    · exact .float32 _
    · exact .float64 _
    · exact .boolean _
    · exact .text _
    · exact .absent _
    · exact .object _ _
    · rw [Bool.and_eq_true, beq_iff_eq, decide_eq_true_eq] at conforms
      exact .constant conforms.1 conforms.2
    · simp at conforms
  · intro admitted
    cases admitted with
    | constant named inside => simp [conformsTo, named, inside]
    | _ => rfl

theorem check_eq_ok {field : String} {type : DataType} {value : Value} :
    value.check field type = .ok () ↔ value.conformsTo type = true := by
  unfold check
  split
  · simp_all
  · split <;> simp_all

end Cogrouping.Value
