import Cogrouping.Proofs.Order.Runs

/-!
Items dealt out by number, class by class. Every part of a list in order then has the runs that begin
with its own items, and the items that open the runs of all parts are one of each class.
-/

namespace Cogrouping.Sort

variable {α β : Type}

structure Represents (same : α → α → Prop) (items firsts : List α) : Prop where
  inside : ∀ first ∈ firsts, first ∈ items
  covers : ∀ item ∈ items, ∃ first ∈ firsts, same first item
  apart : firsts.Pairwise fun left right => ¬same left right

namespace Represents

variable {same : α → α → Prop} {items firsts : List α}

theorem of_perm (represents : Represents same items firsts) {others : List α}
    (perm : items.Perm others) : Represents same others firsts := by
  constructor
  · intro first member
    exact perm.mem_iff.mp (represents.inside first member)
  · intro item member
    exact represents.covers item (perm.mem_iff.mpr member)
  · exact represents.apart

theorem map (represents : Represents same items firsts) {sameView : β → β → Prop} {view : α → β}
    (agrees : ∀ left right, sameView (view left) (view right) ↔ same left right) :
    Represents sameView (items.map view) (firsts.map view) := by
  constructor
  · intro image member
    obtain ⟨first, inside, rfl⟩ := List.mem_map.mp member
    exact List.mem_map_of_mem (represents.inside first inside)
  · intro image member
    obtain ⟨item, inside, rfl⟩ := List.mem_map.mp member
    obtain ⟨first, here, equal⟩ := represents.covers item inside
    exact ⟨view first, List.mem_map_of_mem here, (agrees first item).mpr equal⟩
  · rw [List.pairwise_map]
    refine represents.apart.imp fun differ equal => ?_
    exact differ ((agrees _ _).mp equal)

theorem coarsen {coarse : α → α → Prop} {coarseFirsts : List α}
    (represents : Represents same items firsts)
    (coarser : ∀ left right, same left right → coarse left right)
    (transitive : ∀ left middle right, coarse left middle → coarse middle right → coarse left right)
    (again : Represents coarse firsts coarseFirsts) : Represents coarse items coarseFirsts := by
  constructor
  · intro first member
    exact represents.inside first (again.inside first member)
  · intro item member
    obtain ⟨middle, within, equal⟩ := represents.covers item member
    obtain ⟨first, here, held⟩ := again.covers middle within
    exact ⟨first, here, transitive first middle item held (coarser middle item equal)⟩
  · exact again.apart

end Represents

/-- A comparison never fails on some items, and among these there is one of each of its classes. -/
structure Classifies {ε : Type} (compare : β → β → Except ε Ordering) (items firsts : List β) :
    Prop where
  compares : ∀ left ∈ items, ∀ right ∈ items, ∃ ordering, compare left right = .ok ordering
  represents : Represents (fun left right => alike compare left right = true) items firsts

theorem Represents.classifies {ε : Type} {compare : β → β → Except ε Ordering} {view : α → β}
    {order : α → α → Ordering} {items firsts : List α}
    (represents : Represents (order · · = .eq) items firsts) (agrees : Agrees compare view order) :
    Classifies compare (items.map view) (firsts.map view) := by
  constructor
  · intro left leftMember right rightMember
    obtain ⟨first, _, rfl⟩ := List.mem_map.mp leftMember
    obtain ⟨second, _, rfl⟩ := List.mem_map.mp rightMember
    exact ⟨order first second, agrees first second⟩
  · refine represents.map fun left right => ?_
    rw [agrees.alike_eq, beq_iff_eq]

theorem perm_parts (place : α → Nat) {count : Nat} {items : List α}
    (below : ∀ item ∈ items, place item < count) :
    ((List.range count).flatMap fun number => items.filter (place · == number)).Perm items := by
  have dealt : ∀ upTo : Nat, ((List.range upTo).flatMap fun number =>
      items.filter (place · == number)).Perm (items.filter fun item => decide (place item < upTo)) := by
    intro upTo
    induction upTo with
    | zero => simp
    | succ upTo ih =>
        rw [List.range_succ, List.flatMap_append, List.flatMap_singleton]
        refine (ih.append_right _).trans ?_
        have split := List.filter_append_perm (fun item => decide (place item < upTo))
          (items.filter fun item => decide (place item < upTo + 1))
        rw [List.filter_filter, List.filter_filter] at split
        refine .trans (.of_eq ?_) split
        congr 1
        · refine List.filter_congr fun item _ => ?_
          rw [Bool.eq_iff_iff]
          simp only [decide_eq_true_eq, Bool.and_eq_true]
          omega
        · refine List.filter_congr fun item _ => ?_
          rw [Bool.eq_iff_iff]
          simp only [beq_iff_eq, decide_eq_true_eq, Bool.and_eq_true, Bool.not_eq_true',
            decide_eq_false_iff_not]
          omega
  have all : items.filter (fun item => decide (place item < count)) = items := by
    rw [List.filter_eq_self]
    intro item member
    simpa using below item member
  have whole := dealt count
  rw [all] at whole
  exact whole

theorem sum_parts (place : α → Nat) {count : Nat} {items : List α}
    (below : ∀ item ∈ items, place item < count) :
    ((List.range count).map fun number => (items.filter (place · == number)).length).sum =
      items.length := by
  rw [← (perm_parts place below).length_eq, List.length_flatMap]

variable {order : α → α → Ordering} [Std.TransCmp order]

namespace Cuts

variable {items : List α} {runs : List (Run α)}

omit [Std.TransCmp order] in
theorem filter (cuts : Cuts order items runs) {keep : α → Bool}
    (whole : ∀ left right, order left right = .eq → keep left = keep right) :
    Cuts order (items.filter keep) (runs.filter (keep ·.first)) := by
  obtain ⟨joined, alike, ascending⟩ := cuts
  refine ⟨?_, ?_, ascending.filter _⟩
  · subst joined
    induction runs with
    | nil => rfl
    | cons run runs ih =>
        rw [List.forall_mem_cons] at alike
        have together : ∀ item ∈ run.items, keep item = keep run.first := by
          intro item member
          exact (whole run.first item (alike.1 item member)).symm
        rw [List.flatMap_cons, List.filter_append, ← ih alike.2 ascending.tail]
        by_cases kept : keep run.first = true
        · have all : run.items.filter keep = run.items := by
            rw [List.filter_eq_self]
            intro item member
            rw [together item member, kept]
          rw [List.filter_cons_of_pos (by simpa using kept), List.flatMap_cons, all]
        · have none : run.items.filter keep = [] := by
            rw [List.filter_eq_nil_iff]
            intro item member
            rw [together item member]
            exact kept
          rw [List.filter_cons_of_neg (by simpa using kept), none, List.nil_append]
  · intro run member
    exact alike run (List.mem_filter.mp member).1

omit [Std.TransCmp order] in
theorem represents (cuts : Cuts order items runs) :
    Represents (order · · = .eq) items (runs.map Run.first) := by
  constructor
  · intro first member
    obtain ⟨run, inside, rfl⟩ := List.mem_map.mp member
    exact cuts.first_mem inside
  · intro item member
    obtain ⟨run, inside, equal⟩ := cuts.exists_run member
    exact ⟨run.first, List.mem_map_of_mem inside, equal⟩
  · rw [List.pairwise_map]
    refine cuts.ascending.imp fun less equal => ?_
    simp [less] at equal

end Cuts

theorem represents_heads {place : α → Nat} {count : Nat} {items : List α}
    (ascending : items.Pairwise fun left right => (order left right).isLE)
    (below : ∀ item ∈ items, place item < count)
    (whole : ∀ left right, order left right = .eq → place left = place right) :
    Represents (order · · = .eq) items
      ((List.range count).flatMap fun number =>
        heads order none (items.filter (place · == number))) := by
  have inPart : ∀ number, ∀ head ∈ heads order none (items.filter (place · == number)),
      head ∈ items ∧ place head = number := by
    intro number head member
    simpa using (heads_sublist none _).subset member
  constructor
  · intro first member
    obtain ⟨number, _, head⟩ := List.mem_flatMap.mp member
    exact (inPart number first head).1
  · intro item member
    have inside : item ∈ items.filter (place · == place item) := by simpa using member
    have found : (∃ head ∈ heads order none (items.filter (place · == place item)),
        order head item = .eq) ∨ _ := exists_head none inside
    rcases found with ⟨head, here, equal⟩ | ⟨before, none, _⟩
    · refine ⟨head, List.mem_flatMap.mpr ⟨place item, ?_, here⟩, equal⟩
      exact List.mem_range.mpr (below item member)
    · simp at none
  · rw [List.pairwise_flatMap]
    constructor
    · intro number _
      refine (heads_ascending none (ascending.filter _)).imp fun less equal => ?_
      simp [less] at equal
    · refine List.nodup_range.imp fun {number other} differ left leftHead right rightHead equal => ?_
      apply differ
      rw [← (inPart number left leftHead).2, ← (inPart other right rightHead).2]
      exact whole left right equal

end Cogrouping.Sort
