import Cogrouping.Proofs.Order.Sort
import Mathlib.Algebra.Ring.Nat

/-!
Cutting an ascending list where its items are no longer held equal. Each class of items is one run, and
the items that open a run are one of each class.
-/

namespace Cogrouping.Sort

variable {α : Type}

structure Run (α : Type) where
  first : α
  rest : List α

def Run.items (run : Run α) : List α := run.first :: run.rest

def Run.map {β : Type} (view : α → β) (run : Run α) : Run β := ⟨view run.first, run.rest.map view⟩

def prepend (same : α → α → Bool) (item : α) : List (Run α) → List (Run α)
  | [] => [⟨item, []⟩]
  | run :: behind =>
      if same item run.first then ⟨item, run.items⟩ :: behind else ⟨item, []⟩ :: run :: behind

def runs (same : α → α → Bool) : List α → List (Run α)
  | [] => []
  | item :: items => prepend same item (runs same items)

theorem prepend_append (same : α → α → Bool) (item : α) (run : Run α) (runs behind : List (Run α)) :
    prepend same item (run :: runs ++ behind) = prepend same item (run :: runs) ++ behind := by
  rw [List.cons_append, prepend, prepend]
  by_cases joins : same item run.first = true
  · rw [if_pos joins, if_pos joins, List.cons_append]
  · rw [if_neg joins, if_neg joins, List.cons_append, List.cons_append]

theorem exists_runs_cons (same : α → α → Bool) (item : α) (items : List α) :
    ∃ rest behind, runs same (item :: items) = ⟨item, rest⟩ :: behind := by
  rw [runs]
  cases runs same items with
  | nil => exact ⟨[], [], rfl⟩
  | cons run behind =>
      rw [prepend]
      split
      · exact ⟨_, _, rfl⟩
      · exact ⟨_, _, rfl⟩

theorem runs_joined (same : α → α → Bool) (items : List α) :
    (runs same items).flatMap Run.items = items := by
  induction items with
  | nil => rfl
  | cons item items ih =>
      rw [runs]
      cases behind : runs same items with
      | nil =>
          rw [← ih, behind]
          rfl
      | cons run others =>
          rw [← ih, behind, prepend]
          split <;> rfl

theorem runs_map {β : Type} (same : β → β → Bool) (view : α → β) (items : List α) :
    runs same (items.map view) =
      (runs (fun left right => same (view left) (view right)) items).map (Run.map view) := by
  induction items with
  | nil => rfl
  | cons item items ih =>
      rw [List.map_cons, runs, runs, ih]
      cases runs (fun left right => same (view left) (view right)) items with
      | nil => rfl
      | cons run behind =>
          rw [List.map_cons, prepend, prepend, Run.map]
          by_cases joins : same (view item) (view run.first) = true
          · rw [if_pos joins, if_pos joins]
            rfl
          · rw [if_neg joins, if_neg joins]
            rfl

theorem runs_refine {fine coarse : α → α → Bool}
    (finer : ∀ left right, fine left right = true → coarse left right = true) (items : List α) :
    runs fine items = (runs coarse items).flatMap fun run => runs fine run.items := by
  induction items with
  | nil => rfl
  | cons item items ih =>
      rw [runs, runs, ih]
      cases runs coarse items with
      | nil => rfl
      | cons run behind =>
          obtain ⟨rest, others, begins⟩ := exists_runs_cons fine run.first run.rest
          have inner : runs fine run.items = ⟨run.first, rest⟩ :: others := begins
          rw [List.flatMap_cons, inner, prepend_append, ← inner]
          by_cases joins : coarse item run.first = true
          · have coarseRuns : prepend coarse item (run :: behind) = ⟨item, run.items⟩ :: behind := by
              rw [prepend, if_pos joins]
            rw [coarseRuns]
            rfl
          · have apart : ¬fine item run.first = true := fun same => joins (finer _ _ same)
            have coarseRuns : prepend coarse item (run :: behind) = ⟨item, []⟩ :: run :: behind := by
              rw [prepend, if_neg joins]
            rw [coarseRuns, inner, prepend, if_neg apart, List.flatMap_cons, List.flatMap_cons, inner]
            rfl

structure Cuts (order : α → α → Ordering) (items : List α) (runs : List (Run α)) : Prop where
  joined : runs.flatMap Run.items = items
  alike : ∀ run ∈ runs, ∀ item ∈ run.items, order run.first item = .eq
  ascending : runs.Pairwise fun left right => order left.first right.first = .lt

variable {order : α → α → Ordering} [Std.TransCmp order]

theorem cuts_runs {items : List α}
    (ascending : items.Pairwise fun left right => (order left right).isLE) :
    Cuts order items (runs (order · · == .eq) items) := by
  suffices facts : (∀ run ∈ runs (order · · == .eq) items, ∀ item ∈ run.items,
      order run.first item = .eq) ∧ (runs (order · · == .eq) items).Pairwise fun left right =>
      order left.first right.first = .lt from ⟨runs_joined _ items, facts.1, facts.2⟩
  -- From behind: an item joins the run that begins after it, or begins one of its own.
  induction items with
  | nil => exact ⟨by simp [runs], .nil⟩
  | cons item items ih =>
      have reflexive : order item item = .eq := Std.ReflCmp.compare_self
      rw [List.pairwise_cons] at ascending
      have joined := runs_joined (order · · == .eq) items
      obtain ⟨alike, apart⟩ := ih ascending.2
      rw [runs]
      generalize runs (order · · == .eq) items = behind at joined alike apart ⊢
      cases behind with
      | nil => exact ⟨by simp [prepend, Run.items, reflexive], List.pairwise_singleton _ _⟩
      | cons run behind =>
          rw [List.forall_mem_cons] at alike
          rw [List.pairwise_cons] at apart
          have inside : run.first ∈ items := by simp [← joined, Run.items]
          have below := ascending.1 run.first inside
          rw [prepend]
          by_cases equal : order item run.first = .eq
          · rw [if_pos (by simp [equal])]
            constructor
            · rw [List.forall_mem_cons]
              refine ⟨fun other member => ?_, alike.2⟩
              rcases List.mem_cons.mp member with rfl | later
              · exact reflexive
              · exact Std.TransCmp.eq_trans equal (alike.1 other later)
            · rw [List.pairwise_cons]
              refine ⟨fun other later => ?_, apart.2⟩
              exact Std.TransCmp.lt_of_eq_of_lt equal (apart.1 other later)
          · have less : order item run.first = .lt :=
              (Ordering.isLE_iff_eq_lt_or_eq_eq.mp below).resolve_right equal
            rw [if_neg (by simp [equal])]
            constructor
            · rw [List.forall_mem_cons, List.forall_mem_cons]
              exact ⟨by simp [Run.items, reflexive], alike⟩
            · rw [List.pairwise_cons, List.forall_mem_cons, List.pairwise_cons]
              refine ⟨⟨less, fun other later => ?_⟩, apart⟩
              exact Std.TransCmp.lt_trans less (apart.1 other later)

theorem exists_cuts {items : List α}
    (ascending : items.Pairwise fun left right => (order left right).isLE) :
    ∃ runs, Cuts order items runs := ⟨_, cuts_runs ascending⟩

namespace Cuts

variable {items : List α} {runs : List (Run α)}

omit [Std.TransCmp order] in
theorem exists_run (cuts : Cuts order items runs) {item : α} (member : item ∈ items) :
    ∃ run ∈ runs, order run.first item = .eq := by
  rw [← cuts.joined] at member
  obtain ⟨run, inside, held⟩ := List.mem_flatMap.mp member
  exact ⟨run, inside, cuts.alike run inside item held⟩

omit [Std.TransCmp order] in
theorem mem_of_run (cuts : Cuts order items runs) {run : Run α} (member : run ∈ runs) {item : α}
    (held : item ∈ run.items) : item ∈ items := by
  rw [← cuts.joined]
  exact List.mem_flatMap.mpr ⟨run, member, held⟩

omit [Std.TransCmp order] in
theorem first_mem (cuts : Cuts order items runs) {run : Run α} (member : run ∈ runs) :
    run.first ∈ items :=
  cuts.mem_of_run member List.mem_cons_self

theorem equal (cuts : Cuts order items runs) {run : Run α} (member : run ∈ runs) {left right : α}
    (leftHeld : left ∈ run.items) (rightHeld : right ∈ run.items) : order left right = .eq :=
  Std.TransCmp.eq_trans (Std.OrientedCmp.eq_symm (cuts.alike run member left leftHeld))
    (cuts.alike run member right rightHeld)

theorem apart (cuts : Cuts order items runs) : runs.Pairwise fun before behind =>
    ∀ left ∈ before.items, ∀ right ∈ behind.items, order left right = .lt := by
  refine cuts.ascending.imp_of_mem fun {before behind} beforeMember behindMember less => ?_
  intro left leftHeld right rightHeld
  have below := Std.TransCmp.lt_of_lt_of_eq less (cuts.alike behind behindMember right rightHeld)
  have equal := Std.OrientedCmp.eq_symm (cuts.alike before beforeMember left leftHeld)
  exact Std.TransCmp.lt_of_eq_of_lt equal below

theorem items_eq (cuts : Cuts order items runs) {run : Run α} (member : run ∈ runs) :
    run.items = items.filter (order run.first · == .eq) := by
  obtain ⟨joined, alike, ascending⟩ := cuts
  induction runs generalizing items with
  | nil => exact absurd member List.not_mem_nil
  | cons other runs ih =>
      rw [List.forall_mem_cons] at alike
      rw [List.pairwise_cons] at ascending
      rw [← joined, List.flatMap_cons, List.filter_append]
      rcases List.mem_cons.mp member with rfl | later
      · have whole : run.items.filter (order run.first · == .eq) = run.items := by
          rw [List.filter_eq_self]
          intro item held
          simp [alike.1 item held]
        have none : (runs.flatMap Run.items).filter (order run.first · == .eq) = [] := by
          rw [List.filter_eq_nil_iff]
          intro item held
          obtain ⟨behind, inside, held⟩ := List.mem_flatMap.mp held
          have apart : order run.first item = .lt :=
            Std.TransCmp.lt_of_lt_of_eq (ascending.1 behind inside) (alike.2 behind inside item held)
          simp [apart]
        rw [whole, none, List.append_nil]
      · have none : other.items.filter (order run.first · == .eq) = [] := by
          rw [List.filter_eq_nil_iff]
          intro item held
          have apart : order item run.first = .lt :=
            Std.TransCmp.lt_of_eq_of_lt (Std.OrientedCmp.eq_symm (alike.1 item held))
              (ascending.1 run later)
          simp [Std.OrientedCmp.gt_of_lt apart]
        rw [none, List.nil_append]
        exact ih later rfl alike.2 ascending.2

omit [Std.TransCmp order] in
theorem length_eq (cuts : Cuts order items runs) :
    (runs.map fun run => run.items.length).sum = items.length := by
  rw [← cuts.joined, List.length_flatMap]

end Cuts

def heads (order : α → α → Ordering) : Option α → List α → List α
  | _, [] => []
  | previous, item :: rest =>
      if previous.any (order · item == .eq) then heads order (some item) rest
      else item :: heads order (some item) rest

omit [Std.TransCmp order] in
theorem heads_sublist (previous : Option α) (items : List α) :
    (heads order previous items).Sublist items := by
  induction items generalizing previous with
  | nil => exact .slnil
  | cons item items ih =>
      rw [heads]
      split
      · exact (ih (some item)).cons item
      · exact (ih (some item)).cons_cons item

theorem exists_head (previous : Option α) {items : List α} {item : α} (member : item ∈ items) :
    (∃ head ∈ heads order previous items, order head item = .eq) ∨
      ∃ before, previous = some before ∧ order before item = .eq := by
  induction items generalizing previous with
  | nil => exact absurd member List.not_mem_nil
  | cons first items ih =>
      have reflexive : order first first = .eq := Std.ReflCmp.compare_self
      have here : (∃ head ∈ heads order previous (first :: items), order head first = .eq) ∨
          ∃ before, previous = some before ∧ order before first = .eq := by
        rw [heads]
        by_cases same : previous.any (order · first == .eq) = true
        · rw [if_pos same]
          simpa [Option.any_eq_true] using Or.inr same
        · rw [if_neg same]
          exact .inl ⟨first, List.mem_cons_self, reflexive⟩
      have carried : ∀ head ∈ heads order (some first) items,
          head ∈ heads order previous (first :: items) := by
        intro head inside
        rw [heads]
        split
        · exact inside
        · exact List.mem_cons_of_mem _ inside
      have through : order first item = .eq →
          (∃ head ∈ heads order previous (first :: items), order head item = .eq) ∨
            ∃ before, previous = some before ∧ order before item = .eq := by
        intro equal
        rcases here with ⟨head, inside, held⟩ | ⟨before, same, held⟩
        · exact .inl ⟨head, inside, Std.TransCmp.eq_trans held equal⟩
        · exact .inr ⟨before, same, Std.TransCmp.eq_trans held equal⟩
      rcases List.mem_cons.mp member with rfl | later
      · exact through reflexive
      · rcases ih (some first) later with ⟨head, inside, held⟩ | ⟨before, same, held⟩
        · exact .inl ⟨head, carried head inside, held⟩
        · cases same
          exact through held

theorem heads_above {before : α} {items : List α}
    (below : ∀ item ∈ items, (order before item).isLE)
    (ascending : items.Pairwise fun left right => (order left right).isLE) :
    ∀ head ∈ heads order (some before) items, order before head = .lt := by
  induction items generalizing before with
  | nil => simp [heads]
  | cons item items ih =>
      rw [List.forall_mem_cons] at below
      rw [List.pairwise_cons] at ascending
      have later := ih ascending.1 ascending.2
      intro head member
      rw [heads, Option.any_some] at member
      by_cases equal : order before item = .eq
      · rw [if_pos (by simp [equal])] at member
        exact Std.TransCmp.lt_of_eq_of_lt equal (later head member)
      · have less := (Ordering.isLE_iff_eq_lt_or_eq_eq.mp below.1).resolve_right equal
        rw [if_neg (by simp [equal])] at member
        rcases List.mem_cons.mp member with rfl | behind
        · exact less
        · exact Std.TransCmp.lt_trans less (later head behind)

theorem heads_ascending (previous : Option α) {items : List α}
    (ascending : items.Pairwise fun left right => (order left right).isLE) :
    (heads order previous items).Pairwise fun left right => order left right = .lt := by
  induction items generalizing previous with
  | nil => exact .nil
  | cons item items ih =>
      rw [List.pairwise_cons] at ascending
      rw [heads]
      split
      · exact ih (some item) ascending.2
      · rw [List.pairwise_cons]
        exact ⟨heads_above ascending.1 ascending.2, ih (some item) ascending.2⟩

end Cogrouping.Sort
