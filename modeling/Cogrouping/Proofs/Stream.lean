import Cogrouping.Proofs.Order.Runs
import Cogrouping.Stream

/-!
What pulling from sorted input gives. An input delivers groups if asking it for keys and values, as a
walk does, gives these groups and then the end; a list of tuples in group order delivers its runs.
-/

namespace Cogrouping

section Contract

variable {σ : Type} [SortedGroups σ]

/-- Asking for the values of a group gives tuples and then its end. -/
inductive Yields : σ → List Tuple → σ → Prop
  | done {input last : σ} :
      outcome (SortedGroups.nextValue (σ := σ)) input = (.ok none, last) → Yields input [] last
  | value {input between last : σ} {tuple : Tuple} {tuples : List Tuple} :
      outcome (SortedGroups.nextValue (σ := σ)) input = (.ok (some tuple), between) →
      Yields between tuples last → Yields input (tuple :: tuples) last

/-- Asking for groups gives their first tuples, and all tuples of each, and then the end. -/
inductive Delivers : σ → List (Tuple × List Tuple) → Prop
  | done {input last : σ} :
      outcome (SortedGroups.nextKey (σ := σ)) input = (.ok none, last) → Delivers input []
  | group {input begun behind : σ} {first : Tuple} {tuples : List Tuple}
      {groups : List (Tuple × List Tuple)} :
      outcome (SortedGroups.nextKey (σ := σ)) input = (.ok (some first), begun) →
      Yields begun tuples behind → Delivers behind groups → Delivers input ((first, tuples) :: groups)

class BoundedGroups (σ : Type) [SortedGroups σ] : Prop where
  values_le {input last : σ} {tuples : List Tuple} :
    Yields input tuples last → tuples.length ≤ SortedGroups.bound input
  groups_le {input : σ} {groups : List (Tuple × List Tuple)} :
    Delivers input groups → groups.length ≤ SortedGroups.bound input

end Contract

namespace GroupedTuples

def ahead (input : GroupedTuples) : List (Except Error Tuple) :=
  (input.pending.map Except.ok).toList ++ input.rest

theorem outcome_fill_cons {input : GroupedTuples} {first : Tuple} {rest : List (Except Error Tuple)}
    (ahead : input.ahead = .ok first :: rest) :
    outcome fill input = (.ok (some first), { input with pending := some first, rest }) := by
  obtain ⟨order, behind, key, pending, inGroup⟩ := input
  cases pending with
  | some tuple =>
      obtain ⟨same, rfl⟩ := List.cons_eq_cons.mp ahead
      cases same
      rfl
  | none =>
      have split : behind = .ok first :: rest := ahead
      subst split
      rfl

theorem outcome_fill_nil {input : GroupedTuples} (ahead : input.ahead = []) :
    outcome fill input = (.ok none, input) := by
  obtain ⟨order, behind, key, pending, inGroup⟩ := input
  cases pending with
  | some tuple => simp [GroupedTuples.ahead] at ahead
  | none =>
      have empty : behind = [] := ahead
      subst empty
      rfl

theorem outcome_fill_error {input : GroupedTuples} {cause : Error} {rest : List (Except Error Tuple)}
    (ahead : input.ahead = .error cause :: rest) : outcome fill input = (.error cause, { input with rest }) := by
  obtain ⟨order, behind, key, pending, inGroup⟩ := input
  cases pending with
  | some tuple =>
      obtain ⟨same, _⟩ := List.cons_eq_cons.mp ahead
      cases same
  | none =>
      have split : behind = .error cause :: rest := ahead
      subst split
      rfl

section Pulling

variable {input : GroupedTuples} {first : Tuple} {rest : List (Except Error Tuple)}

theorem outcome_nextKey_ahead (ahead : input.ahead = .ok first :: rest)
    (outside : input.inGroup = false) :
    outcome nextKey input =
      match checkSorted input.order input.key first with
      | .ok () => (.ok (some first), { input with
          pending := some first, rest, key := some first, inGroup := true })
      | .error cause => (.error cause, { input with pending := some first, rest }) := by
  obtain ⟨order, behind, key, pending, inGroup⟩ := input
  cases outside
  rw [nextKey, outcome_bind_of_ok (outcome_get _)]
  simp only [Bool.false_eq_true, if_false]
  rw [outcome_bind_of_ok (outcome_fill_cons ahead)]
  simp only
  rw [outcome_bind_of_ok (outcome_get _), outcome_bind, outcome_ofExcept]
  cases checkSorted order key first <;> rfl

theorem outcome_nextValue_ahead (ahead : input.ahead = .ok first :: rest)
    (inside : input.inGroup = true) :
    outcome nextValue input =
      match belongs input.order input.key (some first) with
      | .ok true => (.ok (some first), { input with pending := none, rest })
      | .ok false => (.ok none, { input with pending := some first, rest, inGroup := false })
      | .error cause => (.error cause, { input with pending := some first, rest }) := by
  obtain ⟨order, behind, key, pending, inGroup⟩ := input
  cases inside
  rw [nextValue, outcome_bind_of_ok (outcome_get _)]
  simp only [Bool.not_true, Bool.false_eq_true, if_false]
  rw [outcome_bind_of_ok (outcome_fill_cons ahead), outcome_bind_of_ok (outcome_get _), outcome_bind,
    outcome_ofExcept]
  match belongs order key (some first) with
  | .error cause => rfl
  | .ok true => rfl
  | .ok false => rfl

theorem outcome_nextKey_end (ahead : input.ahead = []) (outside : input.inGroup = false) :
    outcome nextKey input = (.ok none, { input with key := none }) := by
  obtain ⟨order, behind, key, pending, inGroup⟩ := input
  cases outside
  rw [nextKey, outcome_bind_of_ok (outcome_get _)]
  simp only [Bool.false_eq_true, if_false]
  rw [outcome_bind_of_ok (outcome_fill_nil ahead)]
  rfl

theorem outcome_nextValue_end (ahead : input.ahead = []) (inside : input.inGroup = true) :
    outcome nextValue input = (.ok none, { input with inGroup := false }) := by
  obtain ⟨order, behind, key, pending, inGroup⟩ := input
  cases inside
  rw [nextValue, outcome_bind_of_ok (outcome_get _)]
  simp only [Bool.not_true, Bool.false_eq_true, if_false]
  rw [outcome_bind_of_ok (outcome_fill_nil ahead), outcome_bind_of_ok (outcome_get _)]
  cases key <;> rfl

theorem outcome_nextKey_inside (inside : input.inGroup = true) :
    outcome nextKey input = (.error (.invariant .notDrained), input) := by
  rw [nextKey, outcome_bind_of_ok (outcome_get input)]
  simp [inside]

theorem outcome_nextValue_outside (outside : input.inGroup = false) :
    outcome nextValue input = (.ok none, input) := by
  rw [nextValue, outcome_bind_of_ok (outcome_get input)]
  simp [outside]

end Pulling

section Bounded

variable {input : GroupedTuples}

theorem ahead_of_nextKey {first : Tuple} {begun : GroupedTuples}
    (asked : outcome nextKey input = (.ok (some first), begun)) :
    input.ahead = .ok first :: begun.rest ∧
      begun = { input with pending := some first, rest := begun.rest, key := some first, inGroup := true } := by
  cases inside : input.inGroup with
  | true =>
      rw [nextKey, outcome_bind_of_ok (outcome_get input)] at asked
      simp [inside] at asked
  | false =>
      match ahead : input.ahead with
      | [] => simp [outcome_nextKey_end ahead inside] at asked
      | .error cause :: rest =>
          rw [nextKey, outcome_bind_of_ok (outcome_get input)] at asked
          simp [inside, outcome_bind, outcome_fill_error ahead] at asked
      | .ok tuple :: rest =>
          rw [outcome_nextKey_ahead ahead inside] at asked
          cases checked : checkSorted input.order input.key tuple with
          | error cause => simp [checked] at asked
          | ok =>
              simp only [checked, Prod.mk.injEq, Except.ok.injEq, Option.some.injEq] at asked
              obtain ⟨rfl, rfl⟩ := asked
              exact ⟨rfl, rfl⟩

theorem ahead_of_nextValue {answer : Option Tuple} {next : GroupedTuples}
    (asked : outcome nextValue input = (.ok answer, next)) :
    input.ahead = (answer.map Except.ok).toList ++ next.ahead := by
  cases inside : input.inGroup with
  | false =>
      rw [outcome_nextValue_outside inside] at asked
      cases asked
      rfl
  | true =>
      match ahead : input.ahead with
      | [] =>
          rw [outcome_nextValue_end ahead inside] at asked
          cases asked
          exact ahead.symm
      | .error cause :: rest =>
          rw [nextValue, outcome_bind_of_ok (outcome_get input)] at asked
          simp [inside, outcome_bind, outcome_fill_error ahead] at asked
      | .ok first :: rest =>
          rw [outcome_nextValue_ahead ahead inside] at asked
          match belongs input.order input.key (some first), asked with
          | .ok true, asked =>
              cases asked
              rfl
          | .ok false, asked =>
              cases asked
              rfl

theorem ahead_of_yields {last : GroupedTuples} {tuples : List Tuple} (yields : Yields input tuples last) :
    input.ahead = tuples.map .ok ++ last.ahead := by
  induction yields with
  | done asked => exact ahead_of_nextValue asked
  | value asked _ ih =>
      rw [ahead_of_nextValue asked, ih]
      rfl

theorem length_of_yields {last : GroupedTuples} {tuples : List Tuple} (yields : Yields input tuples last) :
    input.ahead.length = tuples.length + last.ahead.length := by
  rw [ahead_of_yields yields, List.length_append, List.length_map]

theorem ahead_of_end {last : GroupedTuples} (asked : outcome nextKey input = (.ok none, last)) :
    input.ahead = [] := by
  cases inside : input.inGroup with
  | true =>
      rw [nextKey, outcome_bind_of_ok (outcome_get input)] at asked
      simp [inside] at asked
  | false =>
      match ahead : input.ahead with
      | [] => rfl
      | .error cause :: rest =>
          rw [nextKey, outcome_bind_of_ok (outcome_get input)] at asked
          simp [inside, outcome_bind, outcome_fill_error ahead] at asked
      | .ok tuple :: rest =>
          rw [outcome_nextKey_ahead ahead inside] at asked
          cases checked : checkSorted input.order input.key tuple <;> simp [checked] at asked

theorem ahead_of_delivers {groups : List (Tuple × List Tuple)} (delivers : Delivers input groups) :
    input.ahead = (groups.flatMap Prod.snd).map .ok := by
  induction delivers with
  | done asked => exact ahead_of_end asked
  | @group input begun behind first tuples groups asked yields delivers ih =>
      obtain ⟨ahead, began⟩ := ahead_of_nextKey asked
      have same : begun.ahead = input.ahead := by rw [ahead, began]; rfl
      rw [← same, ahead_of_yields yields, ih, List.flatMap_cons, List.map_append]

theorem outcome_nextValue_begun {first : Tuple} {begun : GroupedTuples}
    (asked : outcome nextKey input = (.ok (some first), begun)) :
    outcome nextValue begun =
      match belongs input.order (some first) (some first) with
      | .ok true => (.ok (some first), { begun with pending := none })
      | .ok false => (.ok none, { begun with inGroup := false })
      | .error cause => (.error cause, begun) := by
  obtain ⟨_, began⟩ := ahead_of_nextKey asked
  generalize begun.rest = rest at began
  subst began
  exact outcome_nextValue_ahead rfl rfl

/-- An input does not come to its end if the tuple that it has looked at is not held equal to itself. -/
theorem not_delivers_of_stalled {first : Tuple} {groups : List (Tuple × List Tuple)}
    (refused : belongs input.order (some first) (some first) = .ok false)
    (pending : input.pending = some first) (outside : input.inGroup = false) :
    ¬Delivers input groups := by
  intro delivers
  induction delivers with
  | @done input last asked =>
      have ahead : input.ahead = .ok first :: input.rest := by rw [GroupedTuples.ahead, pending]; rfl
      have answered := (outcome_nextKey_ahead ahead outside).symm.trans asked
      cases checked : checkSorted input.order input.key first <;> simp [checked] at answered
  | @group input begun behind tuple tuples groups asked yields _ ih =>
      obtain ⟨ahead, began⟩ := ahead_of_nextKey asked
      have same : first = tuple := by
        rw [GroupedTuples.ahead, pending] at ahead
        exact Except.ok.inj (List.cons_eq_cons.mp ahead).1
      subst same
      have answer := outcome_nextValue_begun asked
      rw [refused] at answer
      cases yields with
      | done answered =>
          cases answer.symm.trans answered
          refine ih ?_ ?_ rfl
          · rw [began]
            exact refused
          · rw [began]
      | value answered => cases answer.symm.trans answered

theorem length_le_of_delivers {groups : List (Tuple × List Tuple)} (delivers : Delivers input groups) :
    groups.length ≤ input.ahead.length := by
  induction delivers with
  | done => exact Nat.zero_le _
  | @group input begun behind first tuples groups asked yields delivers ih =>
      obtain ⟨ahead, began⟩ := ahead_of_nextKey asked
      have same : begun.ahead = input.ahead := by rw [ahead, began]; rfl
      have taken := length_of_yields yields
      rw [same] at taken
      cases yields with
      | value => simp only [List.length_cons] at taken ⊢; omega
      | done answered =>
          exfalso
          have answer := outcome_nextValue_begun asked
          match refused : belongs input.order (some first) (some first), answer with
          | .ok true, answer => cases answer.symm.trans answered
          | .error cause, answer => cases answer.symm.trans answered
          | .ok false, answer =>
              cases answer.symm.trans answered
              refine @not_delivers_of_stalled _ first _ ?_ ?_ rfl delivers
              · rw [began]
                exact refused
              · rw [began]

theorem length_ahead_le (input : GroupedTuples) : input.ahead.length ≤ SortedGroups.bound input := by
  have bound : SortedGroups.bound input = input.rest.length + 1 := rfl
  rw [bound, ahead, List.length_append, Nat.add_comm]
  refine Nat.add_le_add_left ?_ _
  cases input.pending <;> simp

instance : BoundedGroups GroupedTuples where
  values_le {input _ _} yields := by
    have taken := length_of_yields yields
    have short := length_ahead_le input
    omega
  groups_le {input _} delivers := Nat.le_trans (length_le_of_delivers delivers) (length_ahead_le input)

end Bounded

variable {α : Type} {groupOrder : GroupOrder} {view : α → Tuple} {order : α → α → Ordering}
  {input : GroupedTuples}

structure Holds (groupOrder : GroupOrder) (view : α → Tuple) (input : GroupedTuples) (items : List α) :
    Prop where
  order : input.order = groupOrder
  ahead : input.ahead = items.map fun item => .ok (view item)

theorem outcome_nextKey_cons {item : α} {items : List α}
    (holds : input.Holds groupOrder view (item :: items)) (outside : input.inGroup = false)
    (sorted : checkSorted groupOrder input.key (view item) = .ok ()) :
    ∃ begun, outcome nextKey input = (.ok (some (view item)), begun) ∧
      begun.key = some (view item) ∧ begun.inGroup = true ∧
      begun.Holds groupOrder view (item :: items) := by
  have ahead := holds.ahead
  rw [List.map_cons] at ahead
  rw [← holds.order] at sorted
  have asked := outcome_nextKey_ahead ahead outside
  rw [sorted] at asked
  exact ⟨_, asked, rfl, rfl, ⟨holds.order, rfl⟩⟩

variable {first : α}

theorem outcome_nextValue_cons (agrees : Sort.Agrees groupOrder.compare view order) {item : α}
    {items : List α} (holds : input.Holds groupOrder view (item :: items))
    (inside : input.inGroup = true) (key : input.key = some (view first)) :
    outcome nextValue input =
      if order first item = .eq then
        (.ok (some (view item)),
          { input with pending := none, rest := items.map fun item => .ok (view item) })
      else
        (.ok none, { input with pending := some (view item), inGroup := false,
                                rest := items.map fun item => .ok (view item) }) := by
  have ahead := holds.ahead
  rw [List.map_cons] at ahead
  have belonging : belongs input.order input.key (some (view item)) =
      .ok (order first item == .eq) := by
    rw [key, holds.order, belongs, agrees first item]
    rfl
  rw [outcome_nextValue_ahead ahead inside, belonging]
  cases equal : order first item <;> rfl

theorem yields_run (agrees : Sort.Agrees groupOrder.compare view order) {values later : List α}
    (holds : input.Holds groupOrder view (values ++ later)) (inside : input.inGroup = true)
    (key : input.key = some (view first)) (alike : ∀ item ∈ values, order first item = .eq)
    (apart : ∀ item ∈ later.head?, order first item ≠ .eq) :
    ∃ last, Yields input (values.map view) last ∧ last.key = some (view first) ∧
      last.inGroup = false ∧ last.Holds groupOrder view later := by
  induction values generalizing input with
  | nil =>
      cases later with
      | nil =>
          exact ⟨_, .done (outcome_nextValue_end holds.ahead inside), key, rfl, ⟨holds.order, holds.ahead⟩⟩
      | cons item later =>
          have asked := outcome_nextValue_cons agrees holds inside key
          rw [if_neg (apart item rfl)] at asked
          exact ⟨_, .done asked, key, rfl, ⟨holds.order, rfl⟩⟩
  | cons item values ih =>
      rw [List.forall_mem_cons] at alike
      have asked := outcome_nextValue_cons agrees holds inside key
      rw [if_pos alike.1] at asked
      have next : Holds groupOrder view { input with
          pending := none
          rest := (values ++ later).map fun item => .ok (view item) } (values ++ later) :=
        ⟨holds.order, rfl⟩
      obtain ⟨last, yields, facts⟩ := ih next inside key alike.2
      exact ⟨last, .value asked yields, facts⟩

theorem delivers_runs (agrees : Sort.Agrees groupOrder.compare view order)
    {runs : List (Sort.Run α)} (holds : input.Holds groupOrder view (runs.flatMap Sort.Run.items))
    (outside : input.inGroup = false)
    (before : ∀ previous ∈ input.key, ∃ item, previous = view item ∧
      ∀ run ∈ runs, order item run.first = .lt)
    (alike : ∀ run ∈ runs, ∀ item ∈ run.items, order run.first item = .eq)
    (ascending : runs.Pairwise fun left right => order left.first right.first = .lt) :
    Delivers input (runs.map fun run => (view run.first, run.items.map view)) := by
  induction runs generalizing input with
  | nil => exact .done (outcome_nextKey_end holds.ahead outside)
  | cons run runs ih =>
      rw [List.forall_mem_cons] at alike
      rw [List.pairwise_cons] at ascending
      have sorted : checkSorted groupOrder input.key (view run.first) = .ok () := by
        cases key : input.key with
        | none => rfl
        | some previous =>
            obtain ⟨item, rfl, below⟩ := before previous key
            rw [checkSorted, agrees item run.first, below run List.mem_cons_self]
            rfl
      have whole : input.Holds groupOrder view
          (run.first :: (run.rest ++ runs.flatMap Sort.Run.items)) := holds
      obtain ⟨begun, asked, key, inside, begunHolds⟩ :=
        outcome_nextKey_cons whole outside sorted
      have apart : ∀ item ∈ (runs.flatMap Sort.Run.items).head?, order run.first item ≠ .eq := by
        cases runs with
        | nil => simp
        | cons next runs =>
            intro item same
            cases same
            simp [ascending.1 next List.mem_cons_self]
      have values : begun.Holds groupOrder view (run.items ++ runs.flatMap Sort.Run.items) := begunHolds
      obtain ⟨last, yields, lastKey, lastOutside, lastHolds⟩ :=
        yields_run agrees values inside key alike.1 apart
      have rest := ih lastHolds lastOutside
        (fun previous held => ⟨run.first, by simpa [lastKey] using held.symm, ascending.1⟩)
        alike.2 ascending.2
      exact .group asked yields rest

/-- Tuples in group order come in the runs that the group order cuts them into. -/
theorem ofList_delivers (agrees : Sort.Agrees groupOrder.compare view order) {items : List α}
    {runs : List (Sort.Run α)} (cuts : Sort.Cuts order items runs) :
    Delivers (ofList groupOrder (items.map fun item => .ok (view item)))
      (runs.map fun run => (view run.first, run.items.map view)) := by
  obtain ⟨rfl, alike, ascending⟩ := cuts
  have start : (ofList groupOrder ((runs.flatMap Sort.Run.items).map fun item => .ok (view item))).Holds
      groupOrder view (runs.flatMap Sort.Run.items) := ⟨rfl, rfl⟩
  exact delivers_runs agrees start rfl (by simp [ofList]) alike ascending

end GroupedTuples

end Cogrouping
