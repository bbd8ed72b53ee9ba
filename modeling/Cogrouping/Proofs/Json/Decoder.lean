import Mathlib.Data.List.Nodup
import Cogrouping.Json.Decoder
import Cogrouping.Proofs.Json.Text

/-!
Reading typed data back from the lexemes it was written with: texts, numbers, lists, and objects whose
members have distinct names.
-/

namespace Cogrouping.Json.Decoder

@[simp] theorem text?_tree (text : String) : text? (Json.string text).tree = some text := by
  simp [text?, tree]

@[simp] theorem optional?_tree (text : String) :
    optional? text? (Json.string text).tree = some (some text) := by
  simp [optional?, text?, tree]

theorem natural?_tree {number bound : Nat} (below : number < bound) :
    natural? bound (Json.ofNat number).tree = some number := by
  simp [tree_natural, natural?, natural?_toDigits, below]

theorem mapM_map_eq_some {α β : Type} {write : α → β} {read? : β → Option α}
    (read : ∀ value, read? (write value) = some value) (values : List α) :
    (values.map write).mapM read? = some values := by
  have inverse : read? ∘ write = fun value => pure (id value) := funext read
  rw [List.mapM_map, inverse, List.mapM_pure, List.map_id]
  rfl

theorem list?_tree {α : Type} {toJson : α → Json} {read? : Tree → Option α}
    (read : ∀ value, read? (toJson value).tree = some value) (values : List α) :
    list? read? (Json.array (values.map toJson)).tree = some values := by
  rw [tree, treeItems_eq_map, List.map_map, list?]
  exact mapM_map_eq_some read values

def known (names : List String) (members : List (String × Json)) : Members :=
  (members.filter fun member => names.contains member.1).map fun member => (member.1, member.2.tree)

theorem member?_known {names : List String} {name : String} (asked : name ∈ names)
    (members : List (String × Json)) :
    member? (known names members) name = (members.lookup name).map tree := by
  induction members with
  | nil => rfl
  | cons member rest ih =>
      obtain ⟨key, value⟩ := member
      rw [member?, known] at ih ⊢
      by_cases same : name = key
      · subst same
        simp [asked]
      · have other : (name == key) = false := beq_false_of_ne same
        by_cases wanted : key ∈ names
        · simpa [wanted, List.lookup_cons, other] using ih
        · simpa [wanted, List.lookup_cons, other] using ih

theorem known?_treeMembers (names : List String) {members : List (String × Json)}
    (distinct : (members.map Prod.fst).Nodup) :
    known? names (treeMembers members) = some (known names members) := by
  induction members with
  | nil => rfl
  | cons member rest ih =>
      obtain ⟨key, value⟩ := member
      rw [List.map_cons, List.nodup_cons] at distinct
      have fresh : ∀ other, (key, other) ∉ rest := by
        intro other member
        exact distinct.1 (List.mem_map.mpr ⟨_, member, rfl⟩)
      rw [treeMembers, known?, text?_escaped, ih distinct.2]
      by_cases wanted : key ∈ names
      · simp [known, wanted, fresh]
      · simp [known, wanted]

theorem record?_tree (names : List String) {members : List (String × Json)}
    (distinct : (members.map Prod.fst).Nodup) :
    record? names (Json.object members).tree = some (known names members) := by
  rw [tree, record?, known?_treeMembers names distinct]

theorem exists_members? {members : List (String × Json)}
    (texts : ∀ member ∈ members, ∃ text, member.2 = .string text) (depth : Nat)
    (placed : List (String × Json)) :
    ∃ values, Json.members? depth (treeMembers members) placed = some values := by
  induction members generalizing placed with
  | nil => exact ⟨placed, rfl⟩
  | cons member rest ih =>
      obtain ⟨key, value⟩ := member
      obtain ⟨text, rfl⟩ := texts (key, value) (by simp)
      obtain ⟨values, later⟩ := ih (fun member among => texts member (by simp [among]))
        (Dictionary.place key (.string text) placed)
      exact ⟨values, by simp [treeMembers, Json.members?, tree, Json.ofTree?, later]⟩

theorem exists_ofTree?_texts {members : List (String × Json)} {depth : Nat} (positive : 0 < depth)
    (texts : ∀ member ∈ members, ∃ text, member.2 = .string text) :
    ∃ value, Json.ofTree? depth (Json.object members).tree = some value := by
  obtain ⟨values, read⟩ := exists_members? texts (depth - 1) []
  exact ⟨.object values, by simp [tree, Json.ofTree?, Nat.ne_of_gt positive, read]⟩

end Cogrouping.Json.Decoder
