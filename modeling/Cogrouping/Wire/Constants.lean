import Cogrouping.Dictionary
import Cogrouping.Value

/-!
The constants of enum types by their ordinals, as reading needs them.
-/

namespace Cogrouping

structure EnumConstants where
  byType : Dictionary String (List EnumConstant)

namespace EnumConstants

def ofType (type : EnumType) : Except Error (List EnumConstant) :=
  type.symbols.mapM (EnumConstant.ofSymbol type)

def ofTypes (types : Dictionary String EnumType) : Except Error EnumConstants := do
  let entries ← types.entries.mapM fun (name, type) => do
    let constants ← ofType type
    return (name, constants)
  return ⟨.ofList entries⟩

def resolve (constants : EnumConstants) (typeName : String) (ordinal : Nat) :
    Except Error EnumConstant :=
  match constants.byType.find? typeName with
  | none => .error (.codec (.unknownEnum typeName))
  | some values =>
      match values[ordinal]? with
      | some constant => .ok constant
      | none => .error (.codec (.ordinalOutside ordinal typeName values.length))

def size (constants : EnumConstants) : Nat := constants.byType.entries.length

end EnumConstants

end Cogrouping
