import Mathlib.Data.List.Basic
import Cogrouping.Proofs.Outcome
import Cogrouping.Proofs.Paired
import Cogrouping.Wire.Constants

/-!
The constants that an enum type stands for. Of equal symbols the first gives the ordinal, so a place is
resolved to a constant with the symbol at the place, but maybe with a lower ordinal.
-/

namespace Cogrouping

namespace EnumType

def constant (type : EnumType) (symbol : String) : EnumConstant where
  typeName := type.name
  ordinal := UInt32.ofNat (type.symbols.idxOf symbol)
  symbol := symbol

variable {type : EnumType} {symbol : String} {ordinal : Nat}

theorem ordinalOf?_eq_some : type.ordinalOf? symbol = some ordinal ↔
    symbol ∈ type.symbols ∧ type.symbols.idxOf symbol = ordinal := by
  rw [ordinalOf?, List.findIdx?_eq_some_iff_findIdx_eq, ← List.idxOf, ← List.idxOf_lt_length_iff]
  constructor
  · rintro ⟨inside, rfl⟩
    exact ⟨inside, rfl⟩
  · rintro ⟨inside, rfl⟩
    exact ⟨inside, rfl⟩

theorem idxOf_le (placed : type.symbols[ordinal]? = some symbol) :
    type.symbols.idxOf symbol ≤ ordinal := by
  have upTo : symbol ∈ type.symbols.take (ordinal + 1) := by
    rw [List.take_add_one, placed]
    exact List.mem_append_right _ List.mem_cons_self
  rw [List.mem_take_iff_idxOf_lt (List.mem_of_getElem? placed)] at upTo
  exact Nat.lt_succ_iff.mp upTo

theorem ofSymbol_eq (listed : symbol ∈ type.symbols) :
    EnumConstant.ofSymbol type symbol = .ok (type.constant symbol) := by
  rw [EnumConstant.ofSymbol, ordinalOf?_eq_some.mpr ⟨listed, rfl⟩]
  rfl

theorem ofType_eq (type : EnumType) :
    EnumConstants.ofType type = .ok (type.symbols.map type.constant) := by
  rw [EnumConstants.ofType, mapM_eq_ok, List.forall₂_map_right_iff, List.forall₂_same]
  exact fun symbol listed => ofSymbol_eq listed

theorem toNat_ordinal_eq_iff (placed : type.symbols[ordinal]? = some symbol) :
    (type.constant symbol).ordinal.toNat = ordinal ↔
      ordinal < 0x100000000 ∧ symbol ∉ type.symbols.take ordinal := by
  have upTo := idxOf_le placed
  rw [List.mem_take_iff_idxOf_lt (List.mem_of_getElem? placed), constant, UInt32.toNat_ofNat']
  omega

end EnumType

namespace EnumConstants

variable {constants : EnumConstants} {type : EnumType} {ordinal : Nat}

theorem exists_ofTypes (types : Dictionary String EnumType) :
    ∃ constants, ofTypes types = .ok constants := by
  let listed := types.entries.map fun entry => (entry.1, entry.2.symbols.map entry.2.constant)
  refine ⟨⟨.ofList listed⟩, bind_eq_ok.mpr ⟨listed, mapM_eq_ok.mpr ?_, rfl⟩⟩
  rw [List.forall₂_map_right_iff, List.forall₂_same]
  intro entry _
  dsimp only
  rw [EnumType.ofType_eq, ok_bind, pure_eq_ok]

theorem held_of_listed (listed : ∃ values, ofType type = .ok values ∧
    constants.byType.find? type.name = some values) :
    constants.byType.find? type.name = some (type.symbols.map type.constant) := by
  obtain ⟨values, made, found⟩ := listed
  rw [EnumType.ofType_eq] at made
  rw [found, ← Except.ok.inj made]

section Held

variable (held : constants.byType.find? type.name = some (type.symbols.map type.constant))

include held

theorem resolve_eq {symbol : String} (placed : type.symbols[ordinal]? = some symbol) :
    constants.resolve type.name ordinal = .ok (type.constant symbol) := by
  simp only [resolve, held, List.getElem?_map, placed, Option.map_some]

theorem resolve_of_length_le (outside : type.symbols.length ≤ ordinal) :
    constants.resolve type.name ordinal =
      .error (.codec (.ordinalOutside ordinal type.name type.symbols.length)) := by
  simp only [resolve, held, List.getElem?_map, List.getElem?_eq_none outside, Option.map_none,
    List.length_map]

theorem resolve_eq_ok {constant : EnumConstant} :
    constants.resolve type.name ordinal = .ok constant ↔
      ∃ symbol, type.symbols[ordinal]? = some symbol ∧ type.constant symbol = constant := by
  constructor
  · intro resolved
    by_cases outside : type.symbols.length ≤ ordinal
    · rw [resolve_of_length_le held outside] at resolved
      cases resolved
    · have placed := List.getElem?_eq_getElem (Nat.not_le.mp outside)
      rw [resolve_eq held placed] at resolved
      exact ⟨_, placed, Except.ok.inj resolved⟩
  · rintro ⟨symbol, placed, rfl⟩
    exact resolve_eq held placed

end Held

end EnumConstants

end Cogrouping
