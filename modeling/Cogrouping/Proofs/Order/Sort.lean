import Cogrouping.Order.Sort
import Cogrouping.Proofs.Outcome
import Mathlib.Data.List.Chain
import Mathlib.Data.List.Pairwise

/-!
Sorting by a total order. There is one list that holds items in ascending order and keeps those held
equal in the order in which they were given, and inserting the items one by one finds it.
-/

namespace Cogrouping.Sort

variable {ε α β : Type}

/-- A list holds items in ascending order, those held equal in the order in which they were given. -/
structure StablySorts (order : α → α → Ordering) (items sorted : List α) : Prop where
  perm : sorted.Perm items
  ascending : sorted.Pairwise fun left right => (order left right).isLE
  stable : ∀ item, sorted.filter (order item · == .eq) = items.filter (order item · == .eq)

variable {order : α → α → Ordering} [Std.TransCmp order]

theorem isLE_of_cons {first item : α} {rest : List α}
    (ascending : (first :: rest).Pairwise fun left right => (order left right).isLE)
    (member : item ∈ first :: rest) : (order first item).isLE := by
  rcases List.mem_cons.mp member with rfl | later
  · have reflexive : order item item = .eq := Std.ReflCmp.compare_self
    simp [reflexive]
  · exact List.rel_of_pairwise_cons ascending later

theorem eq_of_stable {left right : List α} (same : left.Perm right)
    (leftAscending : left.Pairwise fun first second => (order first second).isLE)
    (rightAscending : right.Pairwise fun first second => (order first second).isLE)
    (stable : ∀ item, left.filter (order item · == .eq) = right.filter (order item · == .eq)) :
    left = right := by
  induction left generalizing right with
  | nil => exact (List.nil_perm.mp same).symm
  | cons first left ih =>
      cases right with
      | nil => exact List.perm_nil.mp same
      | cons second right =>
          have below := isLE_of_cons leftAscending (same.mem_iff.mpr List.mem_cons_self)
          have above := isLE_of_cons rightAscending (same.mem_iff.mp List.mem_cons_self)
          have equal := Std.OrientedCmp.isLE_antisymm below above
          have heads := stable first
          have reflexive : order first first = .eq := Std.ReflCmp.compare_self
          rw [List.filter_cons_of_pos (by simp [reflexive]), List.filter_cons_of_pos (by simp [equal])]
            at heads
          obtain ⟨rfl, _⟩ := List.cons_eq_cons.mp heads
          refine congrArg (first :: ·) (ih same.cons_inv leftAscending.tail rightAscending.tail ?_)
          intro item
          have filtered := stable item
          rw [List.filter_cons, List.filter_cons] at filtered
          by_cases held : (order item first == .eq) = true
          · rw [if_pos held, if_pos held] at filtered
            exact List.tail_eq_of_cons_eq filtered
          · rw [if_neg held, if_neg held] at filtered
            exact filtered

namespace StablySorts

variable {items sorted others : List α}

theorem unique (first : StablySorts order items sorted) (second : StablySorts order items others) :
    sorted = others := by
  refine eq_of_stable (first.perm.trans second.perm.symm) first.ascending second.ascending ?_
  intro item
  rw [first.stable, second.stable]

omit [Std.TransCmp order] in
theorem filter (sorts : StablySorts order items sorted) (keep : α → Bool) :
    StablySorts order (items.filter keep) (sorted.filter keep) := by
  constructor
  · exact sorts.perm.filter keep
  · exact sorts.ascending.filter keep
  · intro item
    have swapped : ∀ list : List α, (list.filter keep).filter (order item · == .eq) =
        (list.filter (order item · == .eq)).filter keep := by
      intro list
      simp only [List.filter_filter, Bool.and_comm]
    rw [swapped, swapped, sorts.stable]

theorem insert {before after : List α} {element : α}
    (sorts : StablySorts order items (before ++ after))
    (below : ∀ item ∈ before, (order item element).isLE)
    (above : ∀ item ∈ after, order element item = .lt) :
    StablySorts order (items ++ [element]) (before ++ element :: after) := by
  have pieces := List.pairwise_append.mp sorts.ascending
  constructor
  · exact (List.perm_middle.trans (sorts.perm.cons element)).trans
      (List.perm_append_singleton element items).symm
  · rw [List.pairwise_append, List.pairwise_cons]
    refine ⟨pieces.1, ⟨fun item later => by simp [above item later], pieces.2.1⟩, ?_⟩
    intro item earlier other later
    rcases List.mem_cons.mp later with rfl | later
    · exact below item earlier
    · exact pieces.2.2 item earlier other later
  · intro item
    have old := sorts.stable item
    rw [List.filter_append] at old
    rw [List.filter_append, List.filter_cons, List.filter_append, List.filter_cons, List.filter_nil,
      ← old]
    by_cases held : (order item element == .eq) = true
    · have none : after.filter (order item · == .eq) = [] := by
        rw [List.filter_eq_nil_iff]
        intro other later
        have apart : order item other = .lt :=
          Std.TransCmp.lt_of_eq_of_lt (by simpa using held) (above other later)
        simp [apart]
      simp [held, none]
    · simp [held]

end StablySorts

def Agrees (compare : β → β → Except ε Ordering) (view : α → β) (order : α → α → Ordering) : Prop :=
  ∀ left right, compare (view left) (view right) = .ok (order left right)

def alike (compare : β → β → Except ε Ordering) (left right : β) : Bool :=
  match compare left right with
  | .ok .eq => true
  | _ => false

structure StablySortsBy (compare : β → β → Except ε Ordering) (items sorted : List β) : Prop where
  perm : sorted.Perm items
  ascending : sorted.Pairwise fun left right =>
    ∃ ordering, compare left right = .ok ordering ∧ ordering.isLE
  stable : ∀ item ∈ items, sorted.filter (alike compare item) = items.filter (alike compare item)

variable {compare : β → β → Except ε Ordering} {view : α → β}

omit [Std.TransCmp order] in
theorem Agrees.alike_eq (agrees : Agrees compare view order) (left right : α) :
    alike compare (view left) (view right) = (order left right == .eq) := by
  rw [alike, agrees left right]
  cases order left right <;> rfl

theorem Agrees.pairwise (agrees : Agrees compare view order) {items : List α}
    (ascending : (items.map view).IsChain fun left right => compare left right ≠ .ok .gt) :
    items.Pairwise fun left right => (order left right).isLE := by
  let below (left right : α) : Prop := (order left right).isLE
  have transitive : Trans below below below := ⟨Std.TransCmp.isLE_trans⟩
  refine (((List.isChain_map _).mp ascending).imp fun left right below => ?_).pairwise
  rw [agrees left right] at below
  exact Ordering.ne_gt_iff_isLE.mp fun above => below (congrArg Except.ok above)

omit [Std.TransCmp order] in
theorem Agrees.filter_map (agrees : Agrees compare view order) (item : α) (items : List α) :
    (items.map view).filter (alike compare (view item)) =
      (items.filter (order item · == .eq)).map view := by
  rw [List.filter_map]
  refine congrArg (List.map view) (List.filter_congr fun other _ => ?_)
  exact agrees.alike_eq item other

omit [Std.TransCmp order] in
theorem StablySorts.map {items sorted : List α} (sorts : StablySorts order items sorted)
    (agrees : Agrees compare view order) :
    StablySortsBy compare (items.map view) (sorted.map view) := by
  constructor
  · exact sorts.perm.map view
  · rw [List.pairwise_map]
    refine sorts.ascending.imp fun {left right} below => ?_
    exact ⟨order left right, agrees left right, below⟩
  · intro image member
    obtain ⟨item, _, rfl⟩ := List.mem_map.mp member
    rw [agrees.filter_map, agrees.filter_map, sorts.stable]

theorem insertLast_splits (agrees : Agrees compare view order) (element : α) {placed : List α}
    (descending : placed.Pairwise fun later earlier => (order earlier later).isLE) :
    ∃ after before, placed = after ++ before ∧
      insertLast compare (view element) (placed.map view) =
        .ok ((after ++ element :: before).map view) ∧
      (∀ item ∈ before, (order item element).isLE) ∧ ∀ item ∈ after, order element item = .lt := by
  induction placed with
  | nil => exact ⟨[], [], rfl, rfl, by simp, by simp⟩
  | cons last placed ih =>
      rw [List.pairwise_cons] at descending
      have stops : order element last ≠ .lt → ∀ item ∈ last :: placed, (order item element).isLE := by
        intro notBelow item member
        have reaches : (order last element).isLE := by
          rw [← Std.OrientedCmp.isGE_iff_isLE, Ordering.isGE_iff_ne_lt]
          exact notBelow
        rcases List.mem_cons.mp member with rfl | deeper
        · exact reaches
        · exact Std.TransCmp.isLE_trans (descending.1 item deeper) reaches
      rw [List.map_cons, insertLast, agrees element last, ok_bind]
      cases compared : order element last with
      | lt =>
          obtain ⟨after, before, rfl, inserted, below, above⟩ := ih descending.2
          refine ⟨last :: after, before, rfl, ?_, below, ?_⟩
          · simp only [inserted, ok_bind, pure_eq_ok, List.map_cons, List.cons_append]
          · rw [List.forall_mem_cons]
            exact ⟨compared, above⟩
      | eq =>
          exact ⟨[], last :: placed, rfl, rfl, stops (by simp [compared]), by simp⟩
      | gt =>
          exact ⟨[], last :: placed, rfl, rfl, stops (by simp [compared]), by simp⟩

theorem insertAll_sorts (agrees : Agrees compare view order) {items placed : List α}
    (sorts : StablySorts order items placed.reverse) (rest : List α) :
    ∃ last : List α, insertAll compare (placed.map view) (rest.map view) = .ok (last.map view) ∧
      StablySorts order (items ++ rest) last.reverse := by
  induction rest generalizing items placed with
  | nil => exact ⟨placed, rfl, by simpa using sorts⟩
  | cons element rest ih =>
      have descending := List.pairwise_reverse.mp sorts.ascending
      obtain ⟨after, before, rfl, inserted, below, above⟩ := insertLast_splits agrees element descending
      rw [List.reverse_append] at sorts
      have grown := sorts.insert (by simpa using below) (by simpa using above)
      have reversed : before.reverse ++ element :: after.reverse =
          (after ++ element :: before).reverse := by simp
      rw [reversed] at grown
      obtain ⟨last, done, whole⟩ := ih grown
      refine ⟨last, ?_, by simpa using whole⟩
      rw [List.map_cons, insertAll, inserted, ok_bind, done]

/-- Sorting succeeds where comparing does, with the one stable order of the items. -/
theorem stable_sorts (agrees : Agrees compare view order) (network : Network) (items : List α) :
    ∃ sorted : List α, stable network compare (items.map view) = .ok (sorted.map view) ∧
      StablySorts order items sorted := by
  have empty : StablySorts order [] ([] : List α).reverse := ⟨.nil, .nil, fun _ => rfl⟩
  obtain ⟨last, done, sorts⟩ := insertAll_sorts agrees empty items
  refine ⟨last.reverse, ?_, by simpa using sorts⟩
  have inserted : byInsertion compare (items.map view) = .ok (last.reverse.map view) := by
    rw [byInsertion, insertBehind, List.reverse_nil, ← List.map_nil, done, List.map_reverse]
    rfl
  rw [stable, inserted]

end Cogrouping.Sort
