import Cogrouping.Proofs.Order.Keys
import Cogrouping.Proofs.Wire.Record

/-!
What making the order of records establishes. Every entry of the common order and of a secondary order
has become one key, with the entry's direction and the comparator that the entry or its field names, and
the keys stand beside the fields they sort by.
-/

namespace Cogrouping

def Comparators.resolve (comparators : Comparators) : Option String → Except Error (Option Comparator)
  | none => .ok none
  | some name => (comparators.find name).map some

namespace SortKey

structure SortsBy (key : SortKey) (field : Field) : Prop where
  name : key.name = field.name
  type : key.type = field.type
  usable : key.comparator.isSome = true ∨ field.type.isOrderable = true
  marked : field.isSourceId = true → key.comparator = none

/-- A key is what an entry asks for, given the field that the entry stands for. -/
structure Renders (comparators : Comparators) (entry : SortEntry) (field : Field) (key : SortKey) :
    Prop where
  sorts : key.SortsBy field
  direction : key.direction = entry.direction
  comparator : comparators.resolve field.comparator = .ok key.comparator

theorem ofCriterion_eq (comparators : Comparators) (criterion : Criterion) :
    ofCriterion comparators criterion =
      comparators.resolve criterion.comparator >>= fun comparator =>
        if comparator.isNone && !criterion.type.isOrderable then
          .error (.unorderableField criterion.name)
        else .ok { name := criterion.name, type := criterion.type,
                   direction := criterion.direction, comparator } := by
  unfold ofCriterion Comparators.resolve
  cases criterion.comparator with
  | none => rfl
  | some name => rfl

theorem ofCriterion_resolves {comparators : Comparators} {criterion : Criterion} {key : SortKey}
    (made : ofCriterion comparators criterion = .ok key) :
    comparators.resolve criterion.comparator = .ok key.comparator := by
  rw [ofCriterion_eq] at made
  obtain ⟨comparator, resolved, made⟩ := bind_eq_ok.mp made
  by_cases unusable : (comparator.isNone && !criterion.type.isOrderable) = true
  · simp [unusable] at made
  · simp only [unusable, Bool.false_eq_true, if_false, Except.ok.injEq] at made
    subst made
    exact resolved

theorem ofCriterion_sound {comparators : Comparators} {position : Nat} {field : Field}
    {direction : Direction} {key : SortKey}
    (unmarked : field.isSourceId = true → field.comparator = none)
    (made : ofCriterion comparators (Criterion.ofField position field direction) = .ok key) :
    key.SortsBy field ∧ key.direction = direction ∧
      comparators.resolve field.comparator = .ok key.comparator := by
  have resolves : comparators.resolve field.comparator = .ok key.comparator := ofCriterion_resolves made
  rw [ofCriterion_eq] at made
  obtain ⟨comparator, _, made⟩ := bind_eq_ok.mp made
  by_cases unusable : (comparator.isNone && !field.type.isOrderable) = true
  · simp [Criterion.ofField, unusable] at made
  · simp only [Criterion.ofField, unusable, Bool.false_eq_true, if_false, Except.ok.injEq] at made
    subst made
    refine ⟨⟨rfl, rfl, ?_, fun marked => ?_⟩, rfl, resolves⟩
    · cases comparator with
      | some comparator => exact .inl rfl
      | none => exact .inr (by simpa using unusable)
    · rw [unmarked marked] at resolves
      cases resolves
      rfl

theorem renders_of_mapM {comparators : Comparators} {stands : SortEntry → Field → Prop}
    (unmarked : ∀ entry field, stands entry field → field.isSourceId = true → field.comparator = none)
    {entries : List SortEntry} {fields : List Field} (stand : List.Forall₂ stands entries fields)
    {position : Nat} {keys : List SortKey}
    (made : (Criterion.ofFields position fields (entries.map SortEntry.direction)).mapM
      (ofCriterion comparators) = .ok keys) :
    List.Forall₂ SortsBy keys fields ∧
      List.Forall₂ (fun entry key => ∃ field, stands entry field ∧
        Renders comparators entry field key) entries keys := by
  induction stand generalizing position keys with
  | nil =>
      cases made
      exact ⟨.nil, .nil⟩
  | @cons entry field entries fields first _ ih =>
      rw [List.map_cons, Criterion.ofFields, List.mapM_cons] at made
      obtain ⟨key, here, made⟩ := bind_eq_ok.mp made
      obtain ⟨rest, later, made⟩ := bind_eq_ok.mp made
      cases made
      obtain ⟨sorts, direction, comparator⟩ := ofCriterion_sound (unmarked entry field first) here
      obtain ⟨restSorts, restRenders⟩ := ih later
      exact ⟨.cons sorts restSorts,
        .cons ⟨field, first, sorts, direction, comparator⟩ restRenders⟩

end SortKey

namespace RecordOrder

structure Sound (comparators : Comparators) (order : RecordOrder) : Prop where
  plan : order.plan.Sound
  common : List.Forall₂ SortKey.SortsBy order.common order.plan.common.fields
  criteria : List.Forall₂ (fun criterion key =>
    comparators.resolve criterion.comparator = .ok key.comparator)
    order.plan.commonCriteria order.common
  commonEntries : List.Forall₂ (fun entry key => ∃ field,
    Layout.CommonField order.plan.job.sources entry field ∧ key.Renders comparators entry field)
    (Layout.commonEntries order.plan.job) order.common
  secondary : ∀ declared source, order.plan.Planned declared source →
    (∃ leading rest, source.specific.fields = leading ++ rest ∧
      List.Forall₂ SortKey.SortsBy (order.secondaryOf source.id) leading) ∧
    List.Forall₂ (fun entry key => ∃ field,
      Layout.SecondaryField source.schema order.plan.common entry field ∧
        key.Renders comparators entry field)
      (Plan.secondaryOrder order.plan.job declared.id).entries (order.secondaryOf source.id)

theorem unmarked_of_common {sources : List Source} (sound : Layout.SoundSources sources)
    {entry : SortEntry} {field : Field} (stands : Layout.CommonField sources entry field)
    (marked : field.isSourceId = true) : field.comparator = none := by
  cases stands with
  | sourceId => rfl
  | field orderable declared =>
      obtain ⟨source, member⟩ := List.exists_mem_of_ne_nil _ sound.nonempty
      have unmarked := SortEntry.unmarked_of_fieldIn? (sound.valid source member)
        (declared source member)
      simp [unmarked] at marked

theorem ofPlan_sound {plan : Plan} (sound : plan.Sound) {codec : FieldCodec}
    {comparators : Comparators} {order : RecordOrder}
    (made : ofPlan plan codec comparators = .ok order) :
    order.Sound comparators ∧ order.plan = plan ∧ order.codec = codec := by
  obtain ⟨common, commonMade, made⟩ := bind_eq_ok.mp made
  obtain ⟨secondary, secondaryMade, made⟩ := bind_eq_ok.mp made
  cases made
  have criteria := (mapM_eq_ok.mp commonMade).imp fun _ _ => SortKey.ofCriterion_resolves
  rw [sound.criteria] at commonMade
  obtain ⟨sorts, renders⟩ := SortKey.renders_of_mapM
    (fun entry field => unmarked_of_common sound.declared) sound.common.stand commonMade
  have listed : List.Forall₂ (fun (source : SourcePlan) (keys : SourceId × List SortKey) =>
      keys.1 = source.id ∧
        source.secondaryCriteria.mapM (SortKey.ofCriterion comparators) = .ok keys.2)
      plan.sources.values secondary := by
    refine (mapM_eq_ok.mp secondaryMade).imp fun source keys done => ?_
    obtain ⟨found, here, done⟩ := bind_eq_ok.mp done
    cases done
    exact ⟨rfl, here⟩
  have distinct : (secondary.map Prod.fst).Nodup := by
    have ids : secondary.map Prod.fst = plan.sources.values.map SourcePlan.id := by
      rw [← List.forall₂_eq_eq_eq, List.forall₂_map_left_iff, List.forall₂_map_right_iff]
      exact (listed.imp fun _ _ each => each.1).flip
    exact ids ▸ sound.distinct_ids
  refine ⟨⟨sound, sorts, criteria, renders, ?_⟩, rfl, rfl⟩
  intro declared source planned
  obtain ⟨⟨id, keys⟩, inside, sameId, keysMade⟩ := listed.exists_right planned.inPlan
  have found : (Dictionary.ofList secondary).find? source.id = some keys := by
    rw [Dictionary.find?_ofList distinct]
    exact sameId ▸ inside
  have secondaryOf : RecordOrder.secondaryOf
      ⟨plan, codec, common, Dictionary.ofList secondary⟩ source.id = keys := by
    rw [RecordOrder.secondaryOf, found, Option.getD_some]
  obtain ⟨leading, same, stand, criteria⟩ := planned.sound.secondary
  rw [criteria] at keysMade
  have unmarked : ∀ entry field, Layout.SecondaryField source.schema plan.common entry field →
      field.isSourceId = true → field.comparator = none := by
    intro entry field stands marked
    simp [SortEntry.unmarked_of_fieldIn? (planned.valid sound) stands.declared] at marked
  obtain ⟨secondarySorts, secondaryRenders⟩ := SortKey.renders_of_mapM unmarked stand keysMade
  rw [secondaryOf]
  exact ⟨⟨leading, _, same, secondarySorts⟩, secondaryRenders⟩

end RecordOrder

end Cogrouping
