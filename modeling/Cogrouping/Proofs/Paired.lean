import Mathlib.Data.List.Forall2

/-!
Lists that are related place by place: from an item of one list to its counterpart in the other.
-/

namespace List

variable {α β : Type} {relation : α → β → Prop} {left : List α} {right : List β}

theorem Forall₂.exists_left (related : Forall₂ relation left right) {item : β}
    (member : item ∈ right) : ∃ other ∈ left, relation other item := by
  induction related with
  | nil => simp at member
  | cons first _ ih =>
      rcases mem_cons.mp member with same | later
      · exact ⟨_, mem_cons_self, same ▸ first⟩
      · obtain ⟨other, inside, holds⟩ := ih later
        exact ⟨other, mem_cons_of_mem _ inside, holds⟩

theorem Forall₂.exists_right (related : Forall₂ relation left right) {item : α}
    (member : item ∈ left) : ∃ other ∈ right, relation item other := by
  obtain ⟨other, inside, holds⟩ := Forall₂.exists_left related.flip member
  exact ⟨other, inside, holds⟩

theorem Forall₂.getElem?_left (related : Forall₂ relation left right) {position : Nat} {item : α}
    (found : left[position]? = some item) :
    ∃ other, right[position]? = some other ∧ relation item other := by
  induction related generalizing position with
  | nil => simp at found
  | cons first _ ih =>
      cases position with
      | zero =>
          simp only [getElem?_cons_zero, Option.some.injEq] at found
          exact ⟨_, rfl, found ▸ first⟩
      | succ position => exact ih found

theorem exists_forall₂ {items : List α} :
    (∃ others, Forall₂ relation items others) ↔ ∀ item ∈ items, ∃ other, relation item other := by
  constructor
  · rintro ⟨others, related⟩ item member
    obtain ⟨other, _, holds⟩ := related.exists_right member
    exact ⟨other, holds⟩
  · intro each
    induction items with
    | nil => exact ⟨[], .nil⟩
    | cons item items ih =>
        rw [forall_mem_cons] at each
        obtain ⟨other, holds⟩ := each.1
        obtain ⟨others, related⟩ := ih each.2
        exact ⟨other :: others, .cons holds related⟩

end List
