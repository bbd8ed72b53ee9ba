import Mathlib.Data.List.Nodup
import Cogrouping.Dictionary

/-!
Laws of finite maps: what they hold after an insertion, and that a list of entries with distinct keys
is held whole.
-/

namespace Cogrouping.Dictionary

variable {κ α : Type} [Ord κ] [Std.TransOrd κ] [Std.LawfulEqOrd κ]

omit [Std.TransOrd κ] in
theorem keys_nodup (map : Dictionary κ α) : (map.entries.map Prod.fst).Nodup := by
  rw [List.nodup_iff_pairwise_ne, List.pairwise_map]
  refine map.ascending.imp fun {earlier later} below same => ?_
  have self : compare later.1 later.1 = .eq := Std.ReflCmp.compare_self
  rw [same, self] at below
  exact absurd below (by decide)

omit [Std.TransOrd κ] in
theorem find?_eq_some {map : Dictionary κ α} {key : κ} {value : α} :
    map.find? key = some value ↔ (key, value) ∈ map.entries := by
  obtain ⟨entries, ascending⟩ := map
  have distinct := keys_nodup (Dictionary.mk entries ascending)
  simp only [find?] at distinct ⊢
  clear ascending
  induction entries with
  | nil => simp
  | cons entry rest ih =>
      rw [List.map_cons, List.nodup_cons] at distinct
      rw [List.find?_cons]
      cases order : compare entry.1 key == .eq with
      | true =>
          have same : entry.1 = key := Std.LawfulEqOrd.eq_of_compare (beq_iff_eq.mp order)
          simp only [Option.map_some, Option.some.injEq, List.mem_cons]
          constructor
          · rintro rfl
            exact .inl (by rw [← same])
          · rintro (head | later)
            · rw [← head]
            · have member : key ∈ rest.map Prod.fst := List.mem_map.mpr ⟨_, later, rfl⟩
              exact absurd (same ▸ member) distinct.1
      | false =>
          simp only [ih distinct.2, List.mem_cons]
          constructor
          · exact .inr
          · rintro (head | later)
            · have same : compare entry.1 key = .eq := by
                rw [← head]
                exact Std.ReflCmp.compare_self
              simp [same] at order
            · exact later

theorem mem_place_iff {key : κ} {value : α} {entry : κ × α} {entries : List (κ × α)}
    (sorted : entries.Pairwise fun earlier later => compare earlier.1 later.1 = .lt) :
    entry ∈ place key value entries ↔
      entry = (key, value) ∨ entry ∈ entries ∧ entry.1 ≠ key := by
  induction entries with
  | nil => simp [place]
  | cons head rest ih =>
      obtain ⟨first, tail⟩ := List.pairwise_cons.mp sorted
      have apart : ∀ later ∈ rest, compare key head.1 ≠ .gt → later.1 ≠ key := by
        intro later member notAbove same
        have below := first later member
        rw [same] at below
        exact notAbove (Std.OrientedCmp.gt_of_lt below)
      unfold place
      split
      · rename_i below
        have headApart : head.1 ≠ key := by
          intro same
          have self : compare key key = .eq := Std.ReflCmp.compare_self
          rw [same, self] at below
          exact absurd below (by decide)
        constructor
        · intro member
          rcases List.mem_cons.mp member with same | old
          · exact .inl same
          · refine .inr ⟨old, ?_⟩
            rcases List.mem_cons.mp old with same | later
            · exact same ▸ headApart
            · exact apart entry later (by simp [below])
        · rintro (same | ⟨old, _⟩)
          · exact same ▸ List.mem_cons_self
          · exact List.mem_cons_of_mem _ old
      · rename_i equal
        have same := Std.LawfulEqOrd.eq_of_compare equal
        constructor
        · intro member
          rcases List.mem_cons.mp member with head | later
          · exact .inl head
          · exact .inr ⟨List.mem_cons_of_mem _ later, apart entry later (by simp [equal])⟩
        · rintro (head | ⟨old, different⟩)
          · exact head ▸ List.mem_cons_self
          · rcases List.mem_cons.mp old with first | later
            · exact absurd (by rw [first, same]) different
            · exact List.mem_cons_of_mem _ later
      · rename_i above
        have headApart : head.1 ≠ key := by
          intro same
          have self : compare key key = .eq := Std.ReflCmp.compare_self
          rw [same, self] at above
          exact absurd above (by decide)
        rw [List.mem_cons, ih tail, List.mem_cons]
        constructor
        · rintro (same | same | ⟨old, different⟩)
          · exact .inr ⟨.inl same, same ▸ headApart⟩
          · exact .inl same
          · exact .inr ⟨.inr old, different⟩
        · rintro (same | ⟨same | old, different⟩)
          · exact .inr (.inl same)
          · exact .inl same
          · exact .inr (.inr ⟨old, different⟩)

theorem mem_insert {map : Dictionary κ α} {key : κ} {value : α} {entry : κ × α} :
    entry ∈ (map.insert key value).entries ↔
      entry = (key, value) ∨ entry ∈ map.entries ∧ entry.1 ≠ key :=
  mem_place_iff map.ascending

theorem find?_insert_self (map : Dictionary κ α) (key : κ) (value : α) :
    (map.insert key value).find? key = some value :=
  find?_eq_some.mpr (mem_insert.mpr (.inl rfl))

theorem find?_insert_of_ne {map : Dictionary κ α} {key other : κ} {value found : α}
    (different : other ≠ key) :
    (map.insert key value).find? other = some found ↔ map.find? other = some found := by
  rw [find?_eq_some, find?_eq_some, mem_insert]
  constructor
  · rintro (same | ⟨old, _⟩)
    · exact absurd (congrArg Prod.fst same) different
    · exact old
  · intro old
    exact .inr ⟨old, different⟩

omit [Std.TransOrd κ] in
theorem place_perm {key : κ} {value : α} {entries : List (κ × α)}
    (fresh : key ∉ entries.map Prod.fst) :
    (place key value entries).Perm ((key, value) :: entries) := by
  induction entries with
  | nil => exact .refl _
  | cons head rest ih =>
      rw [List.map_cons, List.mem_cons, not_or] at fresh
      unfold place
      split
      · exact .refl _
      · rename_i equal
        exact absurd (Std.LawfulEqOrd.eq_of_compare equal) fresh.1
      · exact ((ih fresh.2).cons head).trans (.swap _ _ _)

theorem foldl_insert_perm {entries : List (κ × α)} {map : Dictionary κ α}
    (distinct : ((map.entries ++ entries).map Prod.fst).Nodup) :
    (entries.foldl (fun map entry => map.insert entry.1 entry.2) map).entries.Perm
      (map.entries ++ entries) := by
  induction entries generalizing map with
  | nil => simp
  | cons entry rest ih =>
      have moved :
          (map.entries ++ entry :: rest).Perm ((map.insert entry.1 entry.2).entries ++ rest) := by
        have fresh : entry.1 ∉ map.entries.map Prod.fst := by
          rw [List.map_append, List.map_cons] at distinct
          exact fun member =>
            List.disjoint_of_nodup_append distinct member List.mem_cons_self
        exact List.perm_middle.trans ((place_perm fresh).symm.append_right rest)
      rw [List.foldl_cons]
      exact (ih ((moved.map Prod.fst).nodup distinct)).trans moved.symm

theorem ofList_perm {entries : List (κ × α)} (distinct : (entries.map Prod.fst).Nodup) :
    (ofList entries).entries.Perm entries := by
  have fresh : (((empty : Dictionary κ α).entries ++ entries).map Prod.fst).Nodup := by
    simpa [empty] using distinct
  exact foldl_insert_perm fresh

theorem find?_ofList {entries : List (κ × α)} (distinct : (entries.map Prod.fst).Nodup)
    {key : κ} {value : α} :
    (ofList entries).find? key = some value ↔ (key, value) ∈ entries := by
  rw [find?_eq_some, (ofList_perm distinct).mem_iff]

omit [Std.LawfulEqOrd κ] in
theorem eq_of_perm {left right : Dictionary κ α} (same : left.entries.Perm right.entries) :
    left = right := by
  obtain ⟨entries, ascending⟩ := left
  obtain ⟨others, othersAscending⟩ := right
  have equal : entries = others := by
    refine same.eq_of_pairwise (fun earlier later _ _ below above => ?_) ascending othersAscending
    rw [Std.OrientedCmp.gt_of_lt above] at below
    cases below
  cases equal
  rfl

theorem eq_of_mem_iff {left right : Dictionary κ α}
    (same : ∀ entry, entry ∈ left.entries ↔ entry ∈ right.entries) : left = right :=
  eq_of_perm ((List.perm_ext_iff_of_nodup (left.keys_nodup.of_map _)
    (right.keys_nodup.of_map _)).mpr same)

theorem ofList_eq_of_perm {entries others : List (κ × α)} (same : entries.Perm others)
    (distinct : (entries.map Prod.fst).Nodup) : ofList entries = ofList others := by
  have othersDistinct := (same.map Prod.fst).nodup distinct
  exact eq_of_perm (((ofList_perm distinct).trans same).trans (ofList_perm othersDistinct).symm)

@[simp] theorem ofList_entries (map : Dictionary κ α) : ofList map.entries = map :=
  eq_of_perm (ofList_perm map.keys_nodup)

end Cogrouping.Dictionary
