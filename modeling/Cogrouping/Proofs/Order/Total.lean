import Cogrouping.Proofs.Order.Rows

/-!
The order of rows is total if the registered comparators are. It begins with the orders by the leading
common fields, so that a list in this order is in each of those as well.
-/

namespace Cogrouping

/-- The registered comparators are total orders of the values of every type. -/
def Comparators.Total (comparators : Comparators) : Prop :=
  ∀ name comparator, comparators.byName.find? name = some comparator → ∀ type : DataType,
    Std.TransCmp fun left right : { value : Value // value.conformsTo type = true } =>
      comparator left right

theorem transCmp_preimage {α β : Type} {order : β → β → Ordering} (total : Std.TransCmp order)
    (view : α → β) : Std.TransCmp fun left right => order (view left) (view right) where
  eq_swap := total.eq_swap
  isLE_trans := total.isLE_trans

theorem transCmp_then {α κ : Type} [DecidableEq κ] {first : α → α → Ordering} {id : α → κ}
    (second : κ → α → α → Ordering) (total : Std.TransCmp first)
    (apart : ∀ left right, first left right = .eq → id left = id right)
    (totals : ∀ key, Std.TransCmp fun left right : { item : α // id item = key } =>
      second key left right) :
    Std.TransCmp fun left right => (first left right).then
      (if id left = id right then second (id left) left right else .eq) where
  eq_swap := by
    intro left right
    rw [Ordering.swap_then, ← total.eq_swap]
    by_cases same : id left = id right
    · have swapped : second (id right) left right = (second (id right) right left).swap :=
        (totals (id right)).eq_swap (a := ⟨left, same⟩) (b := ⟨right, rfl⟩)
      rw [if_pos same, if_pos same.symm, same, swapped]
    · have other : ¬id right = id left := fun equal => same equal.symm
      rw [if_neg same, if_neg other]
      rfl
  isLE_trans := by
    intro left middle right
    simp only [Ordering.isLE_then_iff_or]
    rintro (less | ⟨equal, within⟩) (lessAgain | ⟨equalAgain, withinAgain⟩)
    · exact .inl (Std.TransCmp.lt_trans less lessAgain)
    · exact .inl (Std.TransCmp.lt_of_lt_of_eq less equalAgain)
    · exact .inl (Std.TransCmp.lt_of_eq_of_lt equal lessAgain)
    · have same := apart left middle equal
      have sameAgain := apart middle right equalAgain
      rw [if_pos same, same] at within
      rw [if_pos sameAgain] at withinAgain
      rw [if_pos (same.trans sameAgain), same]
      refine .inr ⟨Std.TransCmp.eq_trans equal equalAgain, ?_⟩
      exact (totals (id middle)).isLE_trans (a := ⟨left, same⟩) (b := ⟨middle, rfl⟩)
        (c := ⟨right, sameAgain.symm⟩) within withinAgain

namespace SortKey

variable {comparators : Comparators}

def Orders (key : SortKey) (field : Field) : Prop :=
  Std.TransCmp fun left right : { cell : Cell // cell.Fits field } => key.compareCells left right

theorem orders_of_ascending {key : SortKey} {field : Field}
    (ascends : Std.TransCmp fun left right : { cell : Cell // cell.Fits field } =>
      key.ascending left right) : key.Orders field := by
  unfold Orders
  cases directed : key.direction with
  | ascending =>
      simp only [compareCells, directed, Direction.apply]
      exact ascends
  | descending =>
      have turned :
          (fun left right : { cell : Cell // cell.Fits field } => key.compareCells left right) =
          fun left right : { cell : Cell // cell.Fits field } => key.ascending right left := by
        funext left right
        rw [compareCells, directed]
        exact (ascends.eq_swap (a := right) (b := left)).symm
      rw [turned]
      exact { eq_swap := ascends.eq_swap
              isLE_trans := fun first second => ascends.isLE_trans second first }

def Registered (comparators : Comparators) (key : SortKey) : Prop :=
  ∀ comparator, key.comparator = some comparator →
    ∃ name, comparators.byName.find? name = some comparator

theorem Renders.registered {entry : SortEntry} {field : Field} {key : SortKey}
    (renders : key.Renders comparators entry field) : key.Registered comparators := by
  intro comparator given
  have resolved := renders.comparator
  rw [given] at resolved
  cases named : field.comparator with
  | none => simp [named, Comparators.resolve] at resolved
  | some name =>
      refine ⟨name, ?_⟩
      cases found : comparators.byName.find? name with
      | none => simp [named, Comparators.resolve, Comparators.find, found, Except.map] at resolved
      | some other =>
          simpa [named, Comparators.resolve, Comparators.find, found, Except.map] using resolved

theorem SortsBy.orders {key : SortKey} {field : Field} (sorts : key.SortsBy field)
    (registered : key.Registered comparators) (total : comparators.Total) : key.Orders field := by
  refine orders_of_ascending ?_
  unfold ascending
  cases given : key.comparator with
  | none =>
      exact transCmp_preimage inferInstance fun cell : { cell : Cell // cell.Fits field } =>
        cell.1.sortBytes
  | some comparator =>
      have unmarked : field.isSourceId = false := by
        by_contra marked
        have plain := sorts.marked (by simpa using marked)
        simp [plain] at given
      have holds : ∀ cell : { cell : Cell // cell.Fits field },
          cell.1.held.conformsTo field.type = true := by
        rintro ⟨cell, fits⟩
        cases fits with
        | sourceId id marked => simp [unmarked] at marked
        | value _ conforms => exact conforms
      obtain ⟨name, found⟩ := registered comparator given
      exact transCmp_preimage (total name comparator found field.type)
        fun cell => (⟨cell.1.held, holds cell⟩ : { value : Value // value.conformsTo field.type = true })

theorem orders_of_sorts {keys : List SortKey} {fields : List Field}
    (sorts : List.Forall₂ SortsBy keys fields)
    (registered : ∀ key ∈ keys, key.Registered comparators) (total : comparators.Total) :
    List.Forall₂ Orders keys fields := by
  refine ((List.forall₂_and_left _ _).mpr ⟨registered, sorts⟩).imp fun key field facts => ?_
  exact facts.2.orders facts.1 total

abbrev Fitting (fields : List Field) := { cells : List Cell // List.Forall₂ Cell.Fits fields cells }

theorem transCmp_compareAll {keys : List SortKey} {leading : List Field}
    (orders : List.Forall₂ Orders keys leading) (rest : List Field) :
    Std.TransCmp fun left right : Fitting (leading ++ rest) => compareAll keys left.1 right.1 := by
  induction orders with
  | nil => exact { eq_swap := rfl, isLE_trans := fun _ _ => rfl }
  | @cons key field keys leading first _ ih =>
      have heads : ∀ cells : Fitting (field :: leading ++ rest),
          (cells.1.headD (.value .null)).Fits field := by
        rintro ⟨cells, fits⟩
        cases fits with
        | cons here _ => exact here
      have tails : ∀ cells : Fitting (field :: leading ++ rest),
          List.Forall₂ Cell.Fits (leading ++ rest) cells.1.tail := by
        rintro ⟨cells, fits⟩
        cases fits with
        | cons _ later => exact later
      have firstTotal := transCmp_preimage first fun cells : Fitting (field :: leading ++ rest) =>
        ⟨cells.1.headD (.value .null), heads cells⟩
      have restTotal := transCmp_preimage ih fun cells : Fitting (field :: leading ++ rest) =>
        ⟨cells.1.tail, tails cells⟩
      exact inferInstanceAs (Std.TransCmp (compareLex _ _))

theorem compareAll_append_keys (keys others : List SortKey) (left right : List Cell) :
    compareAll (keys ++ others) left right =
      (compareAll keys left right).then
        (compareAll others (left.drop keys.length) (right.drop keys.length)) := by
  induction keys generalizing left right with
  | nil => rfl
  | cons key keys ih =>
      have step : ∀ laterKeys : List SortKey, compareAll (key :: laterKeys) left right =
          (key.compareCells (left.headD (.value .null)) (right.headD (.value .null))).then
            (compareAll laterKeys left.tail right.tail) := fun _ => rfl
      rw [List.cons_append, step, step, ih, Ordering.then_assoc, List.length_cons, List.drop_tail,
        List.drop_tail]

theorem compareAll_eq_eq {keys : List SortKey} {left right : List Cell}
    (leftLong : keys.length ≤ left.length) (rightLong : keys.length ≤ right.length) :
    compareAll keys left right = .eq ↔ ∀ (place : Nat) (key : SortKey) (leftCell rightCell : Cell),
      keys[place]? = some key → left[place]? = some leftCell → right[place]? = some rightCell →
      key.compareCells leftCell rightCell = .eq := by
  induction keys generalizing left right with
  | nil => simp [compareAll]
  | cons key keys ih =>
      cases left with
      | nil => simp at leftLong
      | cons leftCell left =>
          cases right with
          | nil => simp at rightLong
          | cons rightCell right =>
              rw [compareAll_cons, Ordering.then_eq_eq,
                ih (by simpa using leftLong) (by simpa using rightLong)]
              constructor
              · rintro ⟨first, later⟩ place otherKey otherLeft otherRight
                cases place with
                | zero =>
                    simp only [List.getElem?_cons_zero, Option.some.injEq]
                    rintro rfl rfl rfl
                    exact first
                | succ place => exact later place otherKey otherLeft otherRight
              · intro all
                exact ⟨all 0 key leftCell rightCell rfl rfl rfl, fun place => all (place + 1)⟩

theorem compareAll_split {fewer depth : Nat} (inside : fewer ≤ depth) (keys : List SortKey)
    (left right : List Cell) :
    ∃ later, compareAll (keys.take depth) left right =
      (compareAll (keys.take fewer) left right).then later := by
  have split := (List.take_append_drop fewer (keys.take depth)).symm
  rw [List.take_take, Nat.min_eq_left inside] at split
  rw [split, compareAll_append_keys]
  exact ⟨_, rfl⟩

theorem isLE_compareAll_of_le {fewer depth : Nat} (inside : fewer ≤ depth) {keys : List SortKey}
    {left right : List Cell} (below : (compareAll (keys.take depth) left right).isLE) :
    (compareAll (keys.take fewer) left right).isLE := by
  obtain ⟨later, split⟩ := compareAll_split inside keys left right
  rw [split] at below
  exact Ordering.isLE_left_of_isLE_then below

theorem compareAll_eq_of_le {fewer depth : Nat} (inside : fewer ≤ depth) {keys : List SortKey}
    {left right : List Cell} (equal : compareAll (keys.take depth) left right = .eq) :
    compareAll (keys.take fewer) left right = .eq := by
  obtain ⟨later, split⟩ := compareAll_split inside keys left right
  rw [split, Ordering.then_eq_eq] at equal
  exact equal.1

end SortKey

theorem Value.naturalOrder?_self {value : Value} {ordering : Ordering}
    (compared : value.naturalOrder? value = some ordering) : ordering = .eq := by
  cases value with
  | null => cases compared
  | object json => cases compared
  | text text => exact (Option.some.inj compared).symm.trans (Bytes.order_self _)
  | _ =>
      simpa [naturalOrder?, booleanOrder, Decimal.Binary32.totalOrder, Decimal.Binary64.totalOrder,
        eq_comm] using compared

theorem SortKey.compareValues_self {comparators : Comparators} {key : SortKey}
    (registered : key.Registered comparators) (total : comparators.Total) {value : Value}
    {ordering : Ordering} (compared : key.compareValues value value = .ok ordering) :
    ordering = .eq := by
  rw [compareValues] at compared
  obtain ⟨_, checked, compared⟩ := bind_eq_ok.mp compared
  obtain ⟨_, _, compared⟩ := bind_eq_ok.mp compared
  have conforms := Value.check_eq_ok.mp checked
  cases given : key.comparator with
  | none =>
      simp only [given] at compared
      cases natural : value.naturalOrder? value with
      | none => simp [natural] at compared
      | some found =>
          simp only [natural, pure_eq_ok, Except.ok.injEq] at compared
          exact compared ▸ Value.naturalOrder?_self natural
  | some comparator =>
      obtain ⟨name, found⟩ := registered comparator given
      have orders := total name comparator found key.type
      have equal : comparator value value = .eq :=
        @Std.ReflCmp.compare_self { value : Value // value.conformsTo key.type = true }
          (fun left right => comparator left right) _ ⟨value, conforms⟩
      simp only [given, pure_eq_ok, Except.ok.injEq, equal] at compared
      exact compared.symm

namespace RecordOrder

variable {comparators : Comparators} {order : RecordOrder}

theorem registered_common (sound : order.Sound comparators) :
    ∀ key ∈ order.common, key.Registered comparators := by
  intro key member
  obtain ⟨entry, _, field, _, renders⟩ := sound.commonEntries.exists_left member
  exact renders.registered

def comparePrefix (order : RecordOrder) (depth : Nat) (left right : Row order.plan) : Ordering :=
  SortKey.compareAll (order.common.take depth) left.commonCells right.commonCells

theorem transCmp_comparePrefix (sound : order.Sound comparators) (total : comparators.Total)
    (depth : Nat) : Std.TransCmp (order.comparePrefix depth) := by
  have orders : List.Forall₂ SortKey.Orders (order.common.take depth)
      (order.plan.common.fields.take depth) :=
    List.forall₂_take depth (SortKey.orders_of_sorts sound.common (registered_common sound) total)
  have whole := SortKey.transCmp_compareAll orders (order.plan.common.fields.drop depth)
  rw [List.take_append_drop] at whole
  exact transCmp_preimage whole fun row : Row order.plan =>
    (⟨row.commonCells, row.commonCells_fit⟩ : SortKey.Fitting order.plan.common.fields)

theorem comparePrefix_eq_common {depth : Nat} (long : order.common.length ≤ depth)
    (left right : Row order.plan) : order.comparePrefix depth left right =
      SortKey.compareAll order.common left.commonCells right.commonCells := by
  rw [comparePrefix, List.take_of_length_le long]

theorem isLE_comparePrefix_of_le {fewer depth : Nat} (inside : fewer ≤ depth)
    {left right : Row order.plan} (below : (order.comparePrefix depth left right).isLE) :
    (order.comparePrefix fewer left right).isLE := SortKey.isLE_compareAll_of_le inside below

theorem isLE_comparePrefix {left right : Row order.plan} (below : (order.compareRows left right).isLE)
    (depth : Nat) : (order.comparePrefix depth left right).isLE := by
  have common := Ordering.isLE_left_of_isLE_then below
  by_cases long : order.common.length ≤ depth
  · rw [comparePrefix_eq_common long]
    exact common
  · refine isLE_comparePrefix_of_le (Nat.le_of_not_le long) ?_
    rw [comparePrefix_eq_common (Nat.le_refl _)]
    exact common

theorem comparePrefix_eq_of_le {fewer depth : Nat} (inside : fewer ≤ depth) {left right : Row order.plan}
    (equal : order.comparePrefix depth left right = .eq) :
    order.comparePrefix fewer left right = .eq := SortKey.compareAll_eq_of_le inside equal

theorem transCmp_secondary (sound : order.Sound comparators) (total : comparators.Total)
    (id : SourceId) : Std.TransCmp fun left right : { row : Row order.plan // row.id = id } =>
      SortKey.compareAll (order.secondaryOf id) left.1.specificCells right.1.specificCells := by
  by_cases inhabited : Nonempty { row : Row order.plan // row.id = id }
  · obtain ⟨⟨row, rfl⟩⟩ := inhabited
    obtain ⟨⟨leading, rest, split, sorts⟩, renders⟩ :=
      sound.secondary row.declared row.source row.planned
    have registered : ∀ key ∈ order.secondaryOf row.source.id, key.Registered comparators := by
      intro key member
      obtain ⟨_, _, _, _, rendered⟩ := renders.exists_left member
      exact rendered.registered
    have whole := SortKey.transCmp_compareAll (SortKey.orders_of_sorts sorts registered total) rest
    rw [← split] at whole
    have fits : ∀ other : { other : Row order.plan // other.id = row.id },
        List.Forall₂ Cell.Fits row.source.specific.fields other.1.specificCells := by
      rintro ⟨other, same⟩
      have sameSource := id_eq_iff.mp same
      exact sameSource ▸ other.specificCells_fit
    exact transCmp_preimage whole fun other => 
      (⟨other.1.specificCells, fits other⟩ : SortKey.Fitting row.source.specific.fields)
  · exact { eq_swap := fun {left} => (inhabited ⟨left⟩).elim
            isLE_trans := fun {left} => (inhabited ⟨left⟩).elim }

theorem common_length (sound : order.Sound comparators) (row : Row order.plan) :
    order.common.length = row.commonCells.length := by
  rw [sound.common.length_eq, row.commonCells_fit.length_eq]

theorem comparePrefix_take (sound : order.Sound comparators) (left right : Row order.plan)
    (depth : Nat) :
    order.comparePrefix depth left right =
      SortKey.compareAll (order.common.take depth) (left.commonCells.take depth)
        (right.commonCells.take depth) := by
  have long : ∀ row : Row order.plan,
      (order.common.take depth).length ≤ (row.commonCells.take depth).length := by
    intro row
    refine Nat.le_of_eq ?_
    rw [List.length_take, List.length_take, common_length sound row]
  rw [← SortKey.compareAll_append (long left) (long right) (left.commonCells.drop depth)
    (right.commonCells.drop depth), List.take_append_drop, List.take_append_drop]
  rfl

theorem id_eq_of_common (sound : order.Sound comparators) {left right : Row order.plan}
    (equal : SortKey.compareAll order.common left.commonCells right.commonCells = .eq) :
    left.id = right.id := by
  by_cases several : 2 ≤ order.plan.job.sources.length
  · obtain ⟨field, member, named⟩ := List.mem_map.mp (sound.plan.marked_iff.mpr several)
    obtain ⟨place, atPlace⟩ := List.mem_iff_getElem?.mp member
    have marks : ∀ row : Row order.plan, row.commonCells[place]? = some (.sourceId row.id) := by
      intro row
      obtain ⟨slot, slotPlace, fed⟩ := row.planned.sound.feedsCommon.getElem?_left atPlace
      cases fed with
      | sourceId _ =>
          rw [Row.commonCells, Row.cells, List.getElem?_map, slotPlace]
          rfl
      | field unmarked => simp [Field.isSourceId, named] at unmarked
    obtain ⟨key, keyPlace, sorts⟩ := sound.common.flip.getElem?_left atPlace
    have plain : key.comparator = none := sorts.marked (by simp [Field.isSourceId, named])
    have held := (SortKey.compareAll_eq_eq (Nat.le_of_eq (common_length sound left))
      (Nat.le_of_eq (common_length sound right))).mp equal place key _ _ keyPlace (marks left)
      (marks right)
    have sameBytes : Varint.encodeSourceId left.id = Varint.encodeSourceId right.id :=
      SortKey.sortBytes_eq plain held
    have ordered : Bytes.order (Varint.encodeSourceId left.id) (Varint.encodeSourceId right.id) = .eq :=
      Bytes.order_eq_eq.mpr sameBytes
    rw [SourceId.order_encode] at ordered
    exact Std.LawfulEqOrd.eq_of_compare ordered
  · have leftHead := left.planned.head?_of_single sound.plan several
    have rightHead := right.planned.head?_of_single sound.plan several
    have sameSource : left.source = right.source := Option.some.inj (leftHead.symm.trans rightHead)
    rw [Row.id, Row.id, sameSource]

theorem transCmp_compareRows (sound : order.Sound comparators) (total : comparators.Total) :
    Std.TransCmp order.compareRows := by
  have common := transCmp_comparePrefix sound total order.common.length
  have first : order.comparePrefix order.common.length = fun left right =>
      SortKey.compareAll order.common left.commonCells right.commonCells := by
    funext left right
    exact comparePrefix_eq_common (Nat.le_refl _) left right
  have parts : order.compareRows = fun left right =>
      (SortKey.compareAll order.common left.commonCells right.commonCells).then
        (if left.id = right.id then
          SortKey.compareAll (order.secondaryOf left.id) left.specificCells right.specificCells
        else .eq) := rfl
  rw [first] at common
  rw [parts]
  exact transCmp_then (fun id left right => SortKey.compareAll (order.secondaryOf id)
    left.specificCells right.specificCells) common (fun _ _ => id_eq_of_common sound)
    (transCmp_secondary sound total)

theorem compareCommon_self (total : comparators.Total) (tuple : Tuple) (id : SourceId) (position : Nat)
    {keys : List SortKey} (registered : ∀ key ∈ keys, key.Registered comparators) (slots : List Slot)
    {ordering : Ordering}
    (compared : compareCommon tuple tuple id id position keys slots slots = .ok ordering) :
    ordering = .eq := by
  induction keys generalizing position slots with
  | nil => cases compared; rfl
  | cons key keys ih =>
      rw [List.forall_mem_cons] at registered
      cases slots with
      | nil => cases compared; rfl
      | cons slot slots =>
          have carry : key.direction.apply .eq = .eq := by cases key.direction <;> rfl
          cases slot with
          | sourceId =>
              have equal : Ord.compare id id = .eq := Std.ReflCmp.compare_self
              rw [compareCommon, equal, ok_bind] at compared
              simp only [carry] at compared
              exact ih (position + 1) registered.2 slots compared
          | field place =>
              rw [compareCommon] at compared
              obtain ⟨value, required, compared⟩ := bind_eq_ok.mp compared
              obtain ⟨same, requiredAgain, compared⟩ := bind_eq_ok.mp compared
              obtain ⟨ascending, here, later⟩ := bind_eq_ok.mp compared
              obtain rfl := Except.ok.inj (required.symm.trans requiredAgain)
              obtain rfl := SortKey.compareValues_self registered.1 total here
              simp only [carry] at later
              exact ih (position + 1) registered.2 slots later

theorem groups_compare_self (sound : order.Sound comparators) (total : comparators.Total) {tuple : Tuple}
    {ordering : Ordering} (compared : order.groups.compare tuple tuple = .ok ordering) :
    ordering = .eq := by
  rw [GroupOrder.compare, compareBy] at compared
  obtain ⟨source, named, compared⟩ := bind_eq_ok.mp compared
  obtain ⟨same, namedAgain, compared⟩ := bind_eq_ok.mp compared
  obtain rfl := Except.ok.inj (named.symm.trans namedAgain)
  obtain ⟨common, here, compared⟩ := bind_eq_ok.mp compared
  have registered : ∀ key ∈ order.groups.keys, key.Registered comparators := fun key member =>
    registered_common sound key (List.mem_of_mem_take member)
  have equal := compareCommon_self total tuple source.id 0 registered source.commonSlots here
  simp only [Bool.and_false, Bool.false_and] at compared
  exact (Except.ok.inj compared).symm.trans equal

end RecordOrder

end Cogrouping
