import Cogrouping.Proofs.Order.Configured
import Cogrouping.Proofs.Order.Sort
import Cogrouping.Proofs.Order.Total

/-!
The order of tuples, whatever sources they are of: every tuple with values of the declared types is a row,
and so the comparison, which may fail in general, is a total preorder of these tuples.
-/

namespace Cogrouping.Sort

variable {ε α β : Type}

/-- A comparison that may fail does not do so between items of a kind, of which it is a total preorder. -/
structure Preorders (compare : β → β → Except ε Ordering) (kind : β → Prop) : Prop where
  reflexive : ∀ item, kind item → compare item item = .ok .eq
  reverses : ∀ left right, kind left → kind right →
    ∃ ordering, compare left right = .ok ordering ∧ compare right left = .ok ordering.swap
  transitive : ∀ left middle right, kind left → kind middle → kind right → ∀ first second,
    compare left middle = .ok first → compare middle right = .ok second → first.isLE → second.isLE →
    compare left right = .ok (first.then second)

theorem then_eq_of_isLE {order : α → α → Ordering} [Std.TransCmp order] {left middle right : α}
    (first : (order left middle).isLE) (second : (order middle right).isLE) :
    order left right = (order left middle).then (order middle right) := by
  rcases Ordering.isLE_iff_eq_lt_or_eq_eq.mp first with less | equal
  · rw [less]
    exact Std.TransCmp.lt_of_lt_of_isLE less second
  · rw [equal]
    exact Std.TransCmp.congr_left equal

variable {order : α → α → Ordering} [Std.TransCmp order] {compare : β → β → Except ε Ordering}
variable {view : α → β} {kind : β → Prop}

theorem Agrees.preorders (agrees : Agrees compare view order)
    (covers : ∀ item, kind item → ∃ row, view row = item) : Preorders compare kind where
  reflexive := by
    intro item held
    obtain ⟨row, rfl⟩ := covers item held
    have reflexive : order row row = .eq := Std.ReflCmp.compare_self
    rw [agrees, reflexive]
  reverses := by
    intro left right leftHeld rightHeld
    obtain ⟨leftRow, rfl⟩ := covers left leftHeld
    obtain ⟨rightRow, rfl⟩ := covers right rightHeld
    have swapped : order rightRow leftRow = (order leftRow rightRow).swap := Std.OrientedCmp.eq_swap
    refine ⟨order leftRow rightRow, agrees leftRow rightRow, ?_⟩
    rw [agrees, swapped]
  transitive := by
    intro left middle right leftHeld middleHeld rightHeld first second
    obtain ⟨leftRow, rfl⟩ := covers left leftHeld
    obtain ⟨middleRow, rfl⟩ := covers middle middleHeld
    obtain ⟨rightRow, rfl⟩ := covers right rightHeld
    rw [agrees, agrees, agrees]
    rintro ⟨⟩ ⟨⟩ below above
    rw [then_eq_of_isLE below above]

end Cogrouping.Sort

namespace Cogrouping

/-- A tuple names a declared source, and its values may stand in the fields of that source. -/
def Job.Admits (job : Job) (tuple : Tuple) : Prop :=
  ∃ source ∈ job.sources, tuple.schema.name = source.schema.name ∧
    List.Forall₂ (fun field value => value.conformsTo field.type = true) source.schema.fields tuple.values

theorem Plan.Sound.exists_row {plan : Plan} (sound : plan.Sound) {tuple : Tuple}
    (admitted : plan.job.Admits tuple) : ∃ row : Row plan, row.tuple = tuple := by
  obtain ⟨declared, member, named, conforms⟩ := admitted
  obtain ⟨source, planned⟩ := sound.exists_planned member
  rw [← planned.sound.schema] at conforms
  exact ⟨⟨tuple, declared, source, planned, named, conforms⟩, rfl⟩

namespace RecordOrder

variable {comparators : Comparators} {order : RecordOrder}

theorem named_eq_of_eq (sound : order.Sound comparators) {left right : Row order.plan}
    (equal : order.compareRows left right = .eq) :
    left.tuple.schema.name = right.tuple.schema.name := by
  have common := (Ordering.then_eq_eq.mp equal).1
  have same := id_eq_iff.mp (id_eq_of_common sound common)
  have schemas : left.declared.schema = right.declared.schema := by
    rw [← left.planned.sound.schema, ← right.planned.sound.schema, same]
  rw [left.named, right.named, schemas]

/-- Comparing is a total preorder of the tuples of all declared sources, and holds only tuples of one
source equal. -/
theorem compare_preorders {job : Job} {plan : Plan} {codec : FieldCodec}
    (built : Plan.build job = .ok plan)
    (resolved : RecordOrder.ofPlan plan codec comparators = .ok order) (total : comparators.Total) :
    Sort.Preorders order.compare job.Admits ∧
      ∀ left right, job.Admits left → job.Admits right → order.compare left right = .ok .eq →
        left.schema.name = right.schema.name := by
  obtain ⟨planSound, rfl⟩ := Plan.build_sound built
  obtain ⟨sound, rfl, -⟩ := ofPlan_sound planSound resolved
  have covers : ∀ tuple, order.plan.job.Admits tuple → ∃ row : Row order.plan, row.tuple = tuple :=
    fun tuple admitted => planSound.exists_row admitted
  have agrees : Sort.Agrees order.compare Row.tuple order.compareRows := compare_rows sound
  have := transCmp_compareRows sound total
  refine ⟨agrees.preorders covers, ?_⟩
  intro left right leftAdmitted rightAdmitted equal
  obtain ⟨leftRow, rfl⟩ := covers left leftAdmitted
  obtain ⟨rightRow, rfl⟩ := covers right rightAdmitted
  rw [compare_rows sound, Except.ok.injEq] at equal
  exact named_eq_of_eq sound equal

end RecordOrder

namespace Ranked

def rank : Value → Int
  | .int64 cost => cost.toInt % 2
  | _ => 0

theorem parity_eq {type : DataType} {left right : Value} (leftConforms : left.conformsTo type = true)
    (rightConforms : right.conformsTo type = true) : parity left right = compare (rank left) (rank right) := by
  cases Value.conformsTo_eq_true.mp leftConforms <;>
    cases Value.conformsTo_eq_true.mp rightConforms <;> rfl

theorem total : comparators.Total := by
  intro name comparator found type
  obtain ⟨-, rfl⟩ := Prod.mk.inj (List.mem_singleton.mp (Dictionary.find?_eq_some.mp found))
  have ranked : Std.TransCmp fun left right : { value : Value // value.conformsTo type = true } =>
      compare (rank left) (rank right) :=
    transCmp_preimage inferInstance fun value : { value : Value // value.conformsTo type = true } =>
      rank value
  convert ranked using 3 with left right
  exact parity_eq left.2 right.2

def town : Tuple := ⟨towns, [.text "b"], rfl⟩

theorem admits_town : job.Admits town :=
  ⟨_, List.mem_cons_self, rfl, .cons rfl .nil⟩

theorem admits_trip (cost : Int64) : job.Admits (trip cost) :=
  ⟨_, List.mem_cons_of_mem _ List.mem_cons_self, rfl, .cons rfl (.cons rfl .nil)⟩

end Ranked

/-- The town is before the trip at an odd cost, which is before the trip at an even cost. -/
theorem RecordOrder.compare_preorders_trips :
    Ranked.job.Admits Ranked.town ∧ Ranked.job.Admits (Ranked.trip 3) ∧
      2 ≤ Ranked.job.sources.length ∧
      Ranked.order.compare Ranked.town (Ranked.trip 4) = .ok .lt ∧
      Sort.Preorders Ranked.order.compare Ranked.job.Admits := by
  obtain ⟨preorders, -⟩ :=
    RecordOrder.compare_preorders (eq_valueOf _) (eq_valueOf _) Ranked.total
  refine ⟨Ranked.admits_town, Ranked.admits_trip 3, by decide, ?_, preorders⟩
  exact preorders.transitive Ranked.town (Ranked.trip 3) (Ranked.trip 4) Ranked.admits_town
    (Ranked.admits_trip 3) (Ranked.admits_trip 4) .lt .lt (by decide +kernel) (by decide +kernel) rfl rfl

end Cogrouping
