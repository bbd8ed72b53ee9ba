import Cogrouping.Proofs.Rollup.Brackets
import Mathlib.Data.List.TakeWhile
import Mathlib.Data.Prod.Basic

/-!
Sorted input under requests in any order. What a caller has been told tells what it will be told next:
no tuple is lost or comes twice, and a group has just the tuples that are held equal to its key.
Asking for group after group comes to an end, and to a failure exactly if the tuples are not in order.
-/

namespace Cogrouping

section Contract

variable {σ : Type} [SortedGroups σ] {input : σ} {cause : Error}

inductive Breaks : σ → Error → Prop
  | here {input last : σ} {cause : Error} :
      outcome (SortedGroups.nextValue (σ := σ)) input = (.error cause, last) → Breaks input cause
  | later {input between : σ} {tuple : Tuple} {cause : Error} :
      outcome (SortedGroups.nextValue (σ := σ)) input = (.ok (some tuple), between) →
      Breaks between cause → Breaks input cause

inductive Fails : σ → Error → Prop
  | key {input last : σ} {cause : Error} :
      outcome (SortedGroups.nextKey (σ := σ)) input = (.error cause, last) → Fails input cause
  | value {input begun : σ} {first : Tuple} {cause : Error} :
      outcome (SortedGroups.nextKey (σ := σ)) input = (.ok (some first), begun) →
      Breaks begun cause → Fails input cause
  | later {input begun behind : σ} {first : Tuple} {tuples : List Tuple} {cause : Error} :
      outcome (SortedGroups.nextKey (σ := σ)) input = (.ok (some first), begun) →
      Yields begun tuples behind → Fails behind cause → Fails input cause

theorem Yields.unique {last other : σ} {tuples others : List Tuple} (first : Yields input tuples last)
    (second : Yields input others other) : last = other := by
  induction first generalizing others with
  | done asked =>
      cases second with
      | done again =>
          cases asked.symm.trans again
          rfl
      | value again => cases asked.symm.trans again
  | value asked _ ih =>
      cases second with
      | done again => cases asked.symm.trans again
      | value again later =>
          cases asked.symm.trans again
          exact ih later

theorem Breaks.not_yields {last : σ} {tuples : List Tuple} (breaks : Breaks input cause) :
    ¬Yields input tuples last := by
  intro yields
  induction yields with
  | done asked =>
      cases breaks with
      | here again => cases asked.symm.trans again
      | later again => cases asked.symm.trans again
  | value asked _ ih =>
      cases breaks with
      | here again => cases asked.symm.trans again
      | later again breaks =>
          cases asked.symm.trans again
          exact ih breaks

theorem Fails.not_delivers {groups : List (Tuple × List Tuple)} (fails : Fails input cause) :
    ¬Delivers input groups := by
  intro delivers
  induction delivers with
  | done asked =>
      cases fails with
      | key again => cases asked.symm.trans again
      | value again => cases asked.symm.trans again
      | later again => cases asked.symm.trans again
  | group asked yields _ ih =>
      cases fails with
      | key again => cases asked.symm.trans again
      | value again breaks =>
          cases asked.symm.trans again
          exact breaks.not_yields yields
      | later again others fails =>
          cases asked.symm.trans again
          obtain rfl := yields.unique others
          exact ih fails

end Contract

namespace GroupedTuples

inductive Request
  | key
  | value

def Request.action : Request → Pulling GroupedTuples (Option Tuple)
  | key => nextKey
  | value => nextValue

structure Seen where
  given : List Tuple
  key : Option Tuple
  inside : Bool

namespace Seen

def nothing : Seen := { given := [], key := none, inside := false }

def after (seen : Seen) : Request → Except Error (Option Tuple) → Seen
  | .key, .ok (some first) => { seen with key := some first, inside := true }
  | .key, .ok none => { seen with key := none }
  | .value, .ok (some tuple) => { seen with given := seen.given ++ [tuple] }
  | .value, .ok none => { seen with inside := false }
  | _, .error _ => seen

end Seen

def ask : List Request → Seen → GroupedTuples → Seen × GroupedTuples
  | [], seen, input => (seen, input)
  | request :: requests, seen, input =>
      let (answer, next) := outcome request.action input
      ask requests (seen.after request answer) next

/-- What is answered to any request, given what was told before and the tuples that are left. -/
structure Answers (order : GroupOrder) (left : List Tuple) (seen : Seen) (input : GroupedTuples) :
    Prop where
  begun : seen.inside = true → seen.key.isSome
  refused : seen.inside = true → outcome nextKey input = (.error (.invariant .notDrained), input)
  ended : seen.inside = false → left = [] → (outcome nextKey input).1 = .ok none
  unsorted : seen.inside = false → ∀ next ∈ left.head?, ∀ cause,
    (outcome nextKey input).1 = .error cause ↔ ∃ key ∈ seen.key, order.compare next key = .ok .lt ∧
      cause = .invariant (.unsorted next.display key.display)
  begins : seen.inside = false → ∀ next ∈ left.head?,
    (∀ key ∈ seen.key, order.compare next key ≠ .ok .lt) →
    ∃ begun, outcome nextKey input = (.ok (some next), begun) ∧
      (outcome nextValue begun).1 = .ok (some next)
  gives : ∀ tuple, (outcome nextValue input).1 = .ok (some tuple) ↔
    seen.inside = true ∧ left.head? = some tuple ∧ ∃ key ∈ seen.key, order.compare key tuple = .ok .eq
  ends : seen.inside = true → ((outcome nextValue input).1 = .ok none ↔
    ∀ next ∈ left.head?, ∃ key ∈ seen.key, order.compare key next ≠ .ok .eq)
  outside : seen.inside = false → outcome nextValue input = (.ok none, input)

variable {α : Type} {groupOrder : GroupOrder} {view : α → Tuple} {order : α → α → Ordering}
  {left : List α} {current : Option α} {seen : Seen} {input : GroupedTuples}

structure Stands (groupOrder : GroupOrder) (view : α → Tuple) (left : List α) (current : Option α)
    (seen : Seen) (input : GroupedTuples) : Prop where
  holds : input.Holds groupOrder view left
  key : input.key = current.map view
  seenKey : seen.key = current.map view
  inside : input.inGroup = seen.inside
  begun : seen.inside = true → current.isSome

section Steps

variable [Std.TransCmp order] (agrees : Sort.Agrees groupOrder.compare view order)

include agrees

theorem checkSorted_eq_ok {item : α} (notBelow : ∀ previous ∈ current, order item previous ≠ .lt) :
    checkSorted groupOrder (current.map view) (view item) = .ok () := by
  cases current with
  | none => rfl
  | some previous =>
      have notAbove : order previous item ≠ .gt := by
        intro above
        exact notBelow previous rfl (Std.OrientedCmp.lt_of_gt above)
      rw [Option.map_some, checkSorted, agrees previous item]
      simp [notAbove]

theorem checkSorted_eq_error {item previous : α} (below : order item previous = .lt) :
    checkSorted groupOrder (some (view previous)) (view item) =
      .error (.invariant (.unsorted (view item).display (view previous).display)) := by
  have above : order previous item = .gt := Std.OrientedCmp.gt_of_lt below
  rw [checkSorted, agrees previous item, above]
  rfl

namespace Stands

variable (stands : Stands groupOrder view left current seen input)

include stands

theorem nextKey_below {item previous : α} (outside : seen.inside = false) (next : item ∈ left.head?)
    (held : previous ∈ current) (below : order item previous = .lt) :
    ∃ last, outcome nextKey input =
        (.error (.invariant (.unsorted (view item).display (view previous).display)), last) ∧
      Stands groupOrder view left current seen last := by
  obtain ⟨rest, rfl⟩ := List.head?_eq_some_iff.mp next
  obtain rfl := Option.mem_def.mp held
  have asked := outcome_nextKey_ahead stands.holds.ahead (stands.inside.trans outside)
  rw [stands.holds.order, stands.key, Option.map_some, checkSorted_eq_error agrees below] at asked
  exact ⟨_, asked, ⟨rfl, rfl⟩, rfl, stands.seenKey, stands.inside, stands.begun⟩

theorem nextKey_next {item : α} (outside : seen.inside = false) (next : item ∈ left.head?)
    (notBelow : ∀ previous ∈ current, order item previous ≠ .lt) :
    ∃ begun, outcome nextKey input = (.ok (some (view item)), begun) ∧
      Stands groupOrder view left (some item) { seen with key := some (view item), inside := true }
        begun := by
  obtain ⟨rest, rfl⟩ := List.head?_eq_some_iff.mp next
  have sorted : checkSorted groupOrder input.key (view item) = .ok () := by
    rw [stands.key]
    exact checkSorted_eq_ok agrees notBelow
  obtain ⟨begun, asked, begunKey, inside, holds⟩ :=
    outcome_nextKey_cons stands.holds (stands.inside.trans outside) sorted
  exact ⟨begun, asked, holds, begunKey, rfl, inside, fun _ => rfl⟩

omit agrees [Std.TransCmp order] in
theorem nextKey_end (outside : seen.inside = false) (empty : left = []) :
    ∃ last, outcome nextKey input = (.ok none, last) ∧
      Stands groupOrder view left none { seen with key := none } last := by
  subst empty
  have asked := outcome_nextKey_end stands.holds.ahead (stands.inside.trans outside)
  refine ⟨_, asked, ⟨stands.holds.order, stands.holds.ahead⟩, rfl, rfl, stands.inside, ?_⟩
  intro inside
  rw [outside] at inside
  cases inside

omit [Std.TransCmp order] in
theorem nextValue_next {item first : α} {rest : List α} (inside : seen.inside = true)
    (split : left = item :: rest) (held : first ∈ current) (equal : order first item = .eq) :
    ∃ last, outcome nextValue input = (.ok (some (view item)), last) ∧
      Stands groupOrder view rest current { seen with given := seen.given ++ [view item] } last := by
  subst split
  obtain rfl := Option.mem_def.mp held
  have asked := outcome_nextValue_cons agrees stands.holds (stands.inside.trans inside) stands.key
  rw [if_pos equal] at asked
  exact ⟨_, asked, ⟨stands.holds.order, rfl⟩, stands.key, stands.seenKey, stands.inside, stands.begun⟩

omit [Std.TransCmp order] in
theorem nextValue_end (inside : seen.inside = true)
    (apart : ∀ item ∈ left.head?, ∃ first ∈ current, order first item ≠ .eq) :
    ∃ last, outcome nextValue input = (.ok none, last) ∧
      Stands groupOrder view left current { seen with inside := false } last := by
  have inGroup := stands.inside.trans inside
  cases left with
  | nil =>
      have asked := outcome_nextValue_end stands.holds.ahead inGroup
      exact ⟨_, asked, ⟨stands.holds.order, stands.holds.ahead⟩, stands.key, stands.seenKey, rfl, by simp⟩
  | cons item rest =>
      obtain ⟨first, held, differs⟩ := apart item rfl
      obtain rfl := Option.mem_def.mp held
      have asked := outcome_nextValue_cons agrees stands.holds inGroup stands.key
      rw [if_neg differs] at asked
      exact ⟨_, asked, ⟨stands.holds.order, rfl⟩, stands.key, stands.seenKey, rfl, by simp⟩

omit agrees [Std.TransCmp order] in
theorem next_value_or_end (order : α → α → Ordering) (inside : seen.inside = true) :
    (∃ item rest first, left = item :: rest ∧ first ∈ current ∧ order first item = .eq) ∨
      ∀ item ∈ left.head?, ∃ first ∈ current, order first item ≠ .eq := by
  obtain ⟨first, held⟩ := Option.isSome_iff_exists.mp (stands.begun inside)
  cases left with
  | nil => exact .inr (by simp)
  | cons item rest =>
      by_cases equal : order first item = .eq
      · exact .inl ⟨item, rest, first, rfl, held, equal⟩
      · refine .inr fun other next => ?_
        obtain rfl := Option.some.inj next
        exact ⟨first, held, equal⟩

theorem step (request : Request) : ∃ later following,
    (seen.after request (outcome request.action input).1).given ++ later.map view =
      seen.given ++ left.map view ∧
    Stands groupOrder view later following (seen.after request (outcome request.action input).1)
      (outcome request.action input).2 := by
  cases request with
  | key =>
      cases inside : seen.inside with
      | true =>
          rw [Request.action, outcome_nextKey_inside (stands.inside.trans inside)]
          exact ⟨left, current, rfl, stands⟩
      | false =>
          cases next : left.head? with
          | none =>
              obtain ⟨last, asked, stands⟩ := stands.nextKey_end inside (List.head?_eq_none_iff.mp next)
              rw [Request.action, asked]
              exact ⟨left, none, rfl, stands⟩
          | some item =>
              by_cases descends : ∃ previous ∈ current, order item previous = .lt
              · obtain ⟨previous, held, below⟩ := descends
                obtain ⟨last, asked, stands⟩ := stands.nextKey_below agrees inside next held below
                rw [Request.action, asked]
                exact ⟨left, current, rfl, stands⟩
              · have notBelow : ∀ previous ∈ current, order item previous ≠ .lt :=
                  fun previous held below => descends ⟨previous, held, below⟩
                obtain ⟨begun, asked, stands⟩ := stands.nextKey_next agrees inside next notBelow
                rw [Request.action, asked]
                exact ⟨left, some item, rfl, stands⟩
  | value =>
      cases inside : seen.inside with
      | false =>
          rw [Request.action, outcome_nextValue_outside (stands.inside.trans inside)]
          refine ⟨left, current, rfl, ?_⟩
          have unchanged : seen.after .value (.ok none) = seen := by
            rw [Seen.after, ← inside]
          rw [unchanged]
          exact stands
      | true =>
          rcases stands.next_value_or_end order inside with ⟨item, rest, first, split, held, equal⟩ | apart
          · obtain ⟨last, asked, stands⟩ := stands.nextValue_next agrees inside split held equal
            rw [Request.action, asked, split]
            exact ⟨rest, current, by simp [Seen.after], stands⟩
          · obtain ⟨last, asked, stands⟩ := stands.nextValue_end agrees inside apart
            rw [Request.action, asked]
            exact ⟨left, current, rfl, stands⟩

theorem requests (requests : List Request) {known : Seen} {last : GroupedTuples}
    (asked : ask requests seen input = (known, last)) : ∃ later following,
    known.given ++ later.map view = seen.given ++ left.map view ∧
      Stands groupOrder view later following known last := by
  induction requests generalizing left current seen input with
  | nil =>
      cases asked
      exact ⟨left, current, rfl, stands⟩
  | cons request requests ih =>
      obtain ⟨between, following, kept, stands⟩ := stands.step agrees request
      obtain ⟨later, last, same, stands⟩ := ih stands asked
      exact ⟨later, last, same.trans kept, stands⟩

theorem answers : Answers groupOrder (left.map view) seen input where
  begun inside := by
    rw [stands.seenKey, Option.isSome_map]
    exact stands.begun inside
  refused inside := outcome_nextKey_inside (stands.inside.trans inside)
  ended outside empty := by
    obtain ⟨last, asked, _⟩ := stands.nextKey_end outside (List.map_eq_nil_iff.mp empty)
    rw [asked]
  unsorted outside next first cause := by
    rw [List.head?_map] at first
    obtain ⟨item, head, rfl⟩ := Option.map_eq_some_iff.mp first
    rw [stands.seenKey]
    by_cases descends : ∃ previous ∈ current, order item previous = .lt
    · obtain ⟨previous, held, below⟩ := descends
      obtain ⟨last, asked, _⟩ := stands.nextKey_below agrees outside head held below
      obtain rfl := Option.mem_def.mp held
      rw [asked]
      simp [agrees item previous, below, eq_comm]
    · have notBelow : ∀ previous ∈ current, order item previous ≠ .lt :=
        fun previous held below => descends ⟨previous, held, below⟩
      obtain ⟨begun, asked, _⟩ := stands.nextKey_next agrees outside head notBelow
      rw [asked]
      refine iff_of_false (by simp) ?_
      rintro ⟨key, known, below, _⟩
      obtain ⟨previous, held, rfl⟩ := Option.map_eq_some_iff.mp known
      rw [agrees item previous, Except.ok.injEq] at below
      exact notBelow previous held below
  begins outside next first notBelow := by
    rw [List.head?_map] at first
    obtain ⟨item, head, rfl⟩ := Option.map_eq_some_iff.mp first
    have notBelow : ∀ previous ∈ current, order item previous ≠ .lt := by
      intro previous held below
      refine notBelow (view previous) ?_ ((agrees item previous).trans (congrArg Except.ok below))
      rw [stands.seenKey]
      exact Option.mem_map_of_mem view held
    obtain ⟨begun, asked, stands⟩ := stands.nextKey_next agrees outside head notBelow
    obtain ⟨rest, split⟩ := List.head?_eq_some_iff.mp head
    obtain ⟨last, again, _⟩ := stands.nextValue_next agrees rfl split rfl Std.ReflCmp.compare_self
    exact ⟨begun, asked, by rw [again]⟩
  gives tuple := by
    cases inside : seen.inside with
    | false =>
        rw [outcome_nextValue_outside (stands.inside.trans inside)]
        simp
    | true =>
        rw [stands.seenKey, List.head?_map]
        rcases stands.next_value_or_end order inside with ⟨item, rest, first, rfl, held, equal⟩ | apart
        · obtain ⟨last, asked, _⟩ := stands.nextValue_next agrees inside rfl held equal
          obtain rfl := Option.mem_def.mp held
          rw [asked]
          constructor
          · rintro same
            cases same
            exact ⟨rfl, rfl, view first, rfl, by rw [agrees first item, equal]⟩
          · rintro ⟨-, head, -⟩
            exact congrArg Except.ok head
        · obtain ⟨last, asked, _⟩ := stands.nextValue_end agrees inside apart
          rw [asked]
          refine iff_of_false (by simp) ?_
          rintro ⟨-, head, key, known, equal⟩
          obtain ⟨item, next, rfl⟩ := Option.map_eq_some_iff.mp head
          obtain ⟨first, held, differs⟩ := apart item next
          obtain rfl := Option.mem_def.mp held
          obtain rfl := Option.some.inj known
          rw [agrees first item, Except.ok.injEq] at equal
          exact differs equal
  ends inside := by
    rw [stands.seenKey, List.head?_map]
    rcases stands.next_value_or_end order inside with ⟨item, rest, first, rfl, held, equal⟩ | apart
    · obtain ⟨last, asked, _⟩ := stands.nextValue_next agrees inside rfl held equal
      obtain rfl := Option.mem_def.mp held
      rw [asked]
      refine iff_of_false (by simp) fun all => ?_
      obtain ⟨key, known, differs⟩ := all (view item) rfl
      obtain rfl := Option.some.inj known
      exact differs ((agrees first item).trans (congrArg Except.ok equal))
    · obtain ⟨last, asked, _⟩ := stands.nextValue_end agrees inside apart
      rw [asked]
      refine iff_of_true rfl fun next head => ?_
      obtain ⟨item, next, rfl⟩ := Option.map_eq_some_iff.mp head
      obtain ⟨first, held, differs⟩ := apart item next
      refine ⟨view first, Option.mem_map_of_mem view held, ?_⟩
      rw [agrees first item]
      exact fun same => differs (Except.ok.inj same)
  outside outside := outcome_nextValue_outside (stands.inside.trans outside)

end Stands

end Steps

section Loop

theorem exists_alike (order : α → α → Ordering) (first : α) (items : List α) :
    ∃ values later, items = values ++ later ∧ (∀ item ∈ values, order first item = .eq) ∧
      ∀ item ∈ later.head?, order first item ≠ .eq := by
  refine ⟨items.takeWhile (order first · == .eq), items.dropWhile (order first · == .eq),
    List.takeWhile_append_dropWhile.symm, ?_, ?_⟩
  · intro item member
    simpa using List.mem_takeWhile_imp member
  · intro item next equal
    have refused := List.head?_dropWhile_not (order first · == .eq) items
    rw [Option.mem_def.mp next] at refused
    simp [equal] at refused

variable [Std.TransCmp order]

theorem ascending_of_run {first : α} {values later : List α}
    (notBelow : ∀ previous ∈ current, order first previous ≠ .lt)
    (alike : ∀ item ∈ values, order first item = .eq)
    (ascending : (first :: later).Pairwise fun left right => (order left right).isLE) :
    (current.toList ++ (values ++ later)).Pairwise fun left right => (order left right).isLE := by
  rw [List.pairwise_cons] at ascending
  have above : ∀ item ∈ values ++ later, (order first item).isLE := by
    intro item member
    rcases List.mem_append.mp member with inside | behind
    · simp [alike item inside]
    · exact ascending.1 item behind
  have within : ∀ item ∈ values, ∀ other ∈ values ++ later, (order item other).isLE := by
    intro item inside other member
    have equal : order item first = .eq := Std.OrientedCmp.eq_symm (alike item inside)
    exact Std.TransCmp.isLE_trans (Ordering.isLE_of_eq_eq equal) (above other member)
  rw [List.pairwise_append, List.pairwise_append]
  refine ⟨by cases current <;> simp, ⟨?_, ascending.2, ?_⟩, ?_⟩
  · exact List.pairwise_of_forall_mem_list fun item inside other member =>
      within item inside other (List.mem_append_left _ member)
  · exact fun item inside other behind => within item inside other (List.mem_append_right _ behind)
  · intro previous held item member
    have reaches : (order previous first).isLE := by
      rw [← Std.OrientedCmp.isGE_iff_isLE, Ordering.isGE_iff_ne_lt]
      exact notBelow previous (Option.mem_toList.mp held)
    exact Std.TransCmp.isLE_trans reaches (above item member)

theorem fails_of_unsorted (agrees : Sort.Agrees groupOrder.compare view order)
    (holds : input.Holds groupOrder view left) (outside : input.inGroup = false)
    (key : input.key = current.map view)
    (unsorted : ¬(current.toList ++ left).Pairwise fun left right => (order left right).isLE) :
    ∃ cause, Fails input cause := by
  generalize size : left.length = count
  induction count using Nat.strongRecOn generalizing left current input with
  | ind count ih =>
      cases left with
      | nil => exact absurd (by cases current <;> simp) unsorted
      | cons first rest =>
          by_cases descends : ∃ previous ∈ current, order first previous = .lt
          · obtain ⟨previous, held, below⟩ := descends
            obtain rfl := Option.mem_def.mp held
            have asked := outcome_nextKey_ahead holds.ahead outside
            rw [holds.order, key, Option.map_some, checkSorted_eq_error agrees below] at asked
            exact ⟨_, .key asked⟩
          · have notBelow : ∀ previous ∈ current, order first previous ≠ .lt :=
              fun previous held below => descends ⟨previous, held, below⟩
            have sorted : checkSorted groupOrder input.key (view first) = .ok () := by
              rw [key]
              exact checkSorted_eq_ok agrees notBelow
            obtain ⟨begun, asked, begunKey, inside, begunHolds⟩ :=
              outcome_nextKey_cons holds outside sorted
            obtain ⟨values, later, split, alike, apart⟩ := exists_alike order first rest
            have equal : ∀ item ∈ first :: values, order first item = .eq :=
              List.forall_mem_cons.mpr ⟨Std.ReflCmp.compare_self, alike⟩
            have ahead : begun.Holds groupOrder view (first :: values ++ later) := by
              rw [List.cons_append, ← split]
              exact begunHolds
            obtain ⟨last, yields, lastKey, lastOutside, lastHolds⟩ :=
              yields_run agrees ahead inside begunKey equal apart
            have shorter : later.length < count := by
              rw [← size, split, List.length_cons, List.length_append]
              omega
            have unsortedLater : ¬((some first).toList ++ later).Pairwise
                fun left right => (order left right).isLE := by
              intro ascending
              refine unsorted ?_
              rw [split]
              exact ascending_of_run notBelow equal ascending
            have lastHeld : last.key = (some first).map view := lastKey
            obtain ⟨cause, fails⟩ :=
              ih later.length shorter lastHolds lastOutside lastHeld unsortedLater rfl
            exact ⟨cause, .later asked yields fails⟩

end Loop

end GroupedTuples

namespace RecordOrder

variable {comparators : Comparators} {order : RecordOrder}

/-- Whatever is asked of a list of tuples, and in whatever order, the answers follow from those before.
Group after group is given to the end exactly if the tuples are in group order, and else up to a failure. -/
theorem ask_answers {job : Job} {plan : Plan} {codec : FieldCodec} (built : Plan.build job = .ok plan)
    (made : ofPlan plan codec comparators = .ok order) (total : comparators.Total) {tuples : List Tuple}
    (keyed : ∀ tuple ∈ tuples, job.HasKey tuple) :
    (∀ requests seen input,
      GroupedTuples.ask requests .nothing (.ofList order.groups (tuples.map .ok)) = (seen, input) →
      ∃ left, seen.given ++ left = tuples ∧ GroupedTuples.Answers order.groups left seen input) ∧
    ((∃ groups, Delivers (GroupedTuples.ofList order.groups (tuples.map .ok)) groups) ↔
      tuples.IsChain fun left right => order.groups.compare left right ≠ .ok .gt) ∧
    ((∃ cause, Fails (GroupedTuples.ofList order.groups (tuples.map .ok)) cause) ↔
      ¬tuples.IsChain fun left right => order.groups.compare left right ≠ .ok .gt) := by
  obtain ⟨planSound, rfl⟩ := Plan.build_sound built
  obtain ⟨sound, rfl, -⟩ := ofPlan_sound planSound made
  obtain ⟨rows, rfl⟩ := planSound.exists_keyRows keyed
  have := transCmp_compareKeys sound total (Nat.le_refl order.groups.size)
  have agrees : Sort.Agrees order.groups.compare KeyRow.tuple (order.compareKeys order.groups.size) :=
    compareBy_keys sound (Nat.le_refl _)
  have holds : (GroupedTuples.ofList order.groups ((rows.map KeyRow.tuple).map .ok)).Holds order.groups
      KeyRow.tuple rows := ⟨rfl, List.map_map⟩
  have delivers : (rows.map KeyRow.tuple).IsChain
      (fun left right => order.groups.compare left right ≠ .ok .gt) →
      ∃ groups, Delivers (GroupedTuples.ofList order.groups ((rows.map KeyRow.tuple).map .ok)) groups := by
    intro ascending
    obtain ⟨runs, cuts⟩ := Sort.exists_cuts (agrees.pairwise ascending)
    rw [List.map_map]
    exact ⟨_, GroupedTuples.ofList_delivers agrees cuts⟩
  have fails : ¬(rows.map KeyRow.tuple).IsChain
      (fun left right => order.groups.compare left right ≠ .ok .gt) →
      ∃ cause, Fails (GroupedTuples.ofList order.groups ((rows.map KeyRow.tuple).map .ok)) cause := by
    intro unsorted
    have descends : ¬((none : Option (KeyRow order.plan)).toList ++ rows).Pairwise
        fun left right => (order.compareKeys order.groups.size left right).isLE := by
      intro ascending
      refine unsorted (List.isChain_map _ |>.mpr (ascending.isChain.imp fun left right below => ?_))
      rw [agrees left right]
      exact fun above => Ordering.ne_gt_iff_isLE.mpr below (Except.ok.inj above)
    exact GroupedTuples.fails_of_unsorted agrees holds rfl rfl descends
  refine ⟨?_, ⟨?_, delivers⟩, ⟨?_, fails⟩⟩
  · intro requests seen input asked
    have outside : GroupedTuples.Seen.nothing.inside = true → (none : Option (KeyRow order.plan)).isSome := by
      simp [GroupedTuples.Seen.nothing]
    have stands : GroupedTuples.Stands order.groups KeyRow.tuple rows none .nothing
        (.ofList order.groups ((rows.map KeyRow.tuple).map .ok)) := ⟨holds, rfl, rfl, rfl, outside⟩
    obtain ⟨later, following, kept, stands⟩ := stands.requests agrees requests asked
    exact ⟨later.map KeyRow.tuple, kept, stands.answers agrees⟩
  · rintro ⟨groups, delivered⟩
    by_contra unsorted
    obtain ⟨cause, failed⟩ := fails unsorted
    exact failed.not_delivers delivered
  · rintro ⟨cause, failed⟩ ascending
    obtain ⟨groups, delivered⟩ := delivers ascending
    exact failed.not_delivers delivered

end RecordOrder

namespace Visits

def mixed : List Tuple := [visit "b" 1 0, visit "b" 1 1, visit "a" 2 2]

def requests : List GroupedTuples.Request := [.key, .key, .value, .value, .value]

def asked : GroupedTuples.Seen × GroupedTuples :=
  GroupedTuples.ask requests .nothing (.ofList order.groups (mixed.map .ok))

theorem mixed_descends :
    ¬mixed.IsChain fun left right => order.groups.compare left right ≠ .ok .gt := by
  have descent : order.groups.compare (visit "b" 1 1) (visit "a" 2 2) = .ok .gt := by decide +kernel
  simp [mixed, descent]

end Visits

theorem RecordOrder.ask_answers_visits :
    (∃ left, Visits.asked.1.given ++ left = Visits.mixed ∧
      GroupedTuples.Answers Visits.order.groups left Visits.asked.1 Visits.asked.2) ∧
    Visits.asked.1.given = [Visits.visit "b" 1 0, Visits.visit "b" 1 1] ∧
    ∃ cause, Fails (GroupedTuples.ofList Visits.order.groups (Visits.mixed.map .ok)) cause := by
  have keyed : ∀ tuple ∈ Visits.mixed, Visits.job.HasKey tuple := by
    simp [Visits.mixed, Visits.hasKey]
  obtain ⟨answers, -, fails⟩ :=
    RecordOrder.ask_answers (eq_valueOf _) (eq_valueOf _) Visits.total keyed
  have asked := answers Visits.requests Visits.asked.1 Visits.asked.2 Prod.mk.eta.symm
  exact ⟨asked, by decide +kernel, fails.mpr Visits.mixed_descends⟩

end Cogrouping
