import Cogrouping.Order.Record
import Cogrouping.Partition
import Cogrouping.Proofs.Outcome
import Cogrouping.Proofs.Plan.WellFormed

/-!
What goes wrong while a plan and what is made from it are put together. Whatever a job, its object codecs
and its comparators lack is an error of configuration, except a secondary order for a source that is not
configured, which is reported as records of such a source are.
-/

namespace Cogrouping

section

variable {ε α β : Type} {kind other : ε → Prop}

/-- A computation fails with causes of a kind only. -/
def Raises (kind : ε → Prop) (result : Except ε α) : Prop := ∀ cause, result = .error cause → kind cause

namespace Raises

theorem ok (value : α) : Raises kind (.ok value : Except ε α) := by
  intro cause failed
  cases failed

theorem error {cause : ε} (holds : kind cause) : Raises kind (.error cause : Except ε α) := by
  intro found failed
  cases failed
  exact holds

theorem throw_bind {cause : ε} {next : α → Except ε β} (holds : kind cause) :
    Raises kind (throw cause >>= next) := error holds

theorem imp {result : Except ε α} (raises : Raises kind result) (implies : ∀ cause, kind cause → other cause) :
    Raises other result :=
  fun cause failed => implies cause (raises cause failed)

theorem bind {action : Except ε α} {next : α → Except ε β} (first : Raises kind action)
    (later : ∀ value, action = .ok value → Raises kind (next value)) : Raises kind (action >>= next) := by
  cases action with
  | error cause => exact error (first cause rfl)
  | ok value => exact later value rfl

theorem map {action : Except ε α} {change : α → β} (raises : Raises kind action) :
    Raises kind (action.map change) :=
  fun cause failed => raises cause (map_eq_error.mp failed)

theorem mapM {step : α → Except ε β} {items : List α} (each : ∀ item ∈ items, Raises kind (step item)) :
    Raises kind (items.mapM step) := by
  intro cause failed
  obtain ⟨before, item, behind, rfl, _, failed⟩ := mapM_eq_error.mp failed
  exact each item (by simp) cause failed

theorem forM {step : α → Except ε PUnit} {items : List α} (each : ∀ item ∈ items, Raises kind (step item)) :
    Raises kind (items.forM step) := by
  induction items with
  | nil => exact ok _
  | cons item items ih =>
      rw [List.forall_mem_cons] at each
      rw [List.forM_eq_forM] at ih ⊢
      rw [List.forM_cons]
      exact each.1.bind fun _ _ => ih each.2

end Raises

end

def Error.Configures (cause : Error) : Prop := cause.isConfig = true

namespace Schema

theorem checkFields_raises (schema : String) (seen : List String) (fields : List Field) :
    Raises Error.Configures (checkFields schema seen fields) := by
  fun_induction checkFields schema seen fields with
  | case1 => exact .ok _
  | case2 => exact .error rfl
  | case3 => exact .error rfl
  | case4 => exact .error rfl
  | case5 _ _ _ _ _ _ ih => exact ih

theorem validate_raises (schema : Schema) : Raises Error.Configures schema.validate := by
  rw [validate]
  split
  · exact .error rfl
  · exact checkFields_raises _ _ _

end Schema

namespace Layout

theorem checkSources_raises (ids : List SourceId) (names : List String) (sources : List Source) :
    Raises Error.Configures (checkSources ids names sources) := by
  induction sources generalizing ids names with
  | nil => exact .ok _
  | cons source rest ih =>
      rw [checkSources]
      refine source.schema.validate_raises.bind fun _ _ => ?_
      dsimp only
      split
      · exact .throw_bind rfl
      · split
        · exact .throw_bind rfl
        · exact ih _ _

theorem checkOrderable_raises (field : Field) : Raises Error.Configures (checkOrderable field) := by
  rw [checkOrderable]
  split
  · exact .ok _
  · exact .error rfl

theorem checkAgreement_raises (first : Field) (name : String) (comparator : Option String)
    (sources : List Source) : Raises Error.Configures (checkAgreement first name comparator sources) := by
  fun_induction checkAgreement first name comparator sources with
  | case1 => exact .ok _
  | case2 => exact .error rfl
  | case3 => exact .error rfl
  | case4 => exact .error rfl
  | case5 _ _ _ _ _ _ ih => exact ih

theorem commonField_raises (sources : List Source) (name : String) (comparator : Option String) :
    Raises Error.Configures (commonField sources name comparator) := by
  rw [commonField.eq_def]
  split
  · exact .error rfl
  · split
    · exact .error rfl
    · exact (checkAgreement_raises _ _ _ _).bind fun _ _ =>
        (checkOrderable_raises _).bind fun _ _ => .ok _

theorem entryField_raises (sources : List Source) (entry : SortEntry) :
    Raises Error.Configures (entryField sources entry) := by
  cases entry with
  | field name _ comparator => exact commonField_raises _ _ _
  | sourceId direction =>
      rw [entryField]
      split
      · exact .error rfl
      · exact .ok _

theorem entryFields_raises (sources : List Source) (seen : List String) (entries : List SortEntry) :
    Raises Error.Configures (entryFields sources seen entries) := by
  induction entries generalizing seen with
  | nil => exact .ok _
  | cons entry rest ih =>
      rw [entryFields]
      dsimp only
      split
      · exact .throw_bind rfl
      · exact (entryField_raises _ _).bind fun _ _ => (ih _).bind fun _ _ => .ok _

theorem checkGroupBy_raises (groupBy : List String) (common : Schema) :
    Raises Error.Configures (checkGroupBy groupBy common) := by
  rw [checkGroupBy]
  split
  · exact .error rfl
  · split
    · exact .error rfl
    · split
      · exact .ok _
      · exact .error rfl

theorem rollupDepth_raises (job : Job) : Raises Error.Configures (rollupDepth job) := by
  rw [rollupDepth.eq_def]
  split
  · exact .ok _
  · split
    · exact .ok _
    · exact .error rfl

theorem secondaryField_raises (schema common : Schema) (before : List Field) (entry : SortEntry) :
    Raises Error.Configures (secondaryField schema common before entry) := by
  cases entry with
  | sourceId => exact .error rfl
  | field name _ comparator =>
      rw [secondaryField]
      dsimp only
      split
      · exact .throw_bind rfl
      · split
        · exact .throw_bind rfl
        · split
          · exact .error rfl
          · exact (checkOrderable_raises _).bind fun _ _ => .ok _

theorem secondaryFields_raises (schema common : Schema) (before : List Field) (entries : List SortEntry) :
    Raises Error.Configures (secondaryFields schema common before entries) := by
  induction entries generalizing before with
  | nil => exact .ok _
  | cons entry rest ih =>
      rw [secondaryFields]
      exact (secondaryField_raises _ _ _ _).bind fun _ _ => ih _

theorem specificParts_raises (job : Job) (common : Schema) (sources : List Source) :
    Raises Error.Configures (specificParts job common sources) := by
  induction sources with
  | nil => exact .ok _
  | cons source rest ih =>
      rw [specificParts]
      have part : Raises Error.Configures (specificPart source.schema common
          ((job.secondaryOrderBy.find? source.id).getD .empty)) :=
        (secondaryFields_raises _ _ _ _).bind fun _ _ => .ok _
      exact part.bind fun _ _ => ih.bind fun _ _ => .ok _

def UnknownSecondary (job : Job) (cause : Error) : Prop :=
  ∃ id ∈ job.secondaryOrderBy.keys, job.source? id = none ∧ cause = .unknownSource (.numbered id)

theorem checkSecondaryIds_raises (job : Job) {ids : List SourceId}
    (keys : ∀ id ∈ ids, id ∈ job.secondaryOrderBy.keys) :
    Raises (UnknownSecondary job) (checkSecondaryIds job ids) := by
  induction ids with
  | nil => exact .ok _
  | cons id rest ih =>
      rw [List.forall_mem_cons] at keys
      rw [checkSecondaryIds]
      split
      · exact ih keys.2
      · rename_i unknown
        exact .error ⟨id, keys.1, by simpa using unknown, rfl⟩

theorem ofJob_raises (job : Job) :
    Raises (fun cause => cause.Configures ∨ UnknownSecondary job cause) (ofJob job) := by
  have config : ∀ {α : Type} {result : Except Error α}, Raises Error.Configures result →
      Raises (fun cause => cause.Configures ∨ UnknownSecondary job cause) result :=
    fun raises => raises.imp fun _ => .inl
  rw [ofJob]
  dsimp only
  split
  · exact .throw_bind (.inl rfl)
  refine (config (checkSources_raises _ _ _)).bind fun _ _ => ?_
  split
  · exact .throw_bind (.inl rfl)
  refine (config (entryFields_raises _ _ _)).bind fun _ _ => ?_
  refine (config (checkGroupBy_raises _ _)).bind fun _ _ => ?_
  refine (config (rollupDepth_raises _)).bind fun _ _ => ?_
  refine ((checkSecondaryIds_raises job fun _ => id).imp fun _ => .inr).bind fun _ _ => ?_
  exact (config (specificParts_raises _ _ _)).bind fun _ _ => .ok _

end Layout

namespace Plan

theorem collectEnums_raises (fields : List Field) (found : Dictionary String EnumType) :
    Raises (fun cause => ∃ type, cause = .config (.constantsDiffer type)) (collectEnums fields found) := by
  fun_induction collectEnums fields found with
  | case1 => exact .ok _
  | case2 _ _ _ _ _ _ ih => exact ih
  | case3 => exact .error ⟨_, rfl⟩
  | case4 _ _ _ _ _ _ ih => exact ih
  | case5 _ _ _ _ ih => exact ih

theorem build_raises_of_layout {job : Job} {layout : Layout} (laid : Layout.ofJob job = .ok layout) :
    Raises (fun cause => ∃ type, cause = .config (.constantsDiffer type)) (build job) := by
  obtain ⟨sources, made⟩ := exists_sourcePlans laid
  rw [build, laid, ok_bind, made]
  exact (collectEnums_raises _ _).bind fun _ _ => .ok _

theorem build_raises (job : Job) :
    Raises (fun cause => cause.Configures ∨ Layout.UnknownSecondary job cause) (build job) := by
  cases laid : Layout.ofJob job with
  | error cause =>
      rw [build, laid]
      exact .error (Layout.ofJob_raises job cause laid)
  | ok layout =>
      refine (build_raises_of_layout laid).imp ?_
      rintro _ ⟨type, rfl⟩
      exact .inl rfl

end Plan

theorem ObjectCodecs.find_raises (objects : ObjectCodecs) (name : String) :
    Raises Error.Configures (objects.find name) := by
  rw [find]
  split
  · exact .ok _
  · exact .error rfl

theorem EnumConstants.ofTypes_raises (types : Dictionary String EnumType) :
    Raises Error.Configures (ofTypes types) := by
  refine Raises.bind (.mapM fun entry _ => ?_) fun _ _ => .ok _
  refine Raises.bind (.mapM fun symbol _ => ?_) fun _ _ => .ok _
  rw [EnumConstant.ofSymbol]
  split
  · exact .ok _
  · exact .error rfl

theorem FieldCodec.ofPlan_raises (plan : Plan) (objects : ObjectCodecs) (limit : Nat) :
    Raises Error.Configures (ofPlan plan objects limit) := by
  refine Raises.bind (.forM fun name _ => (objects.find_raises name).map) fun _ _ => ?_
  exact (EnumConstants.ofTypes_raises _).bind fun _ _ => .ok _

theorem SortKey.ofCriterion_raises (comparators : Comparators) (criterion : Criterion) :
    Raises Error.Configures (ofCriterion comparators criterion) := by
  rw [ofCriterion_eq]
  refine Raises.bind ?_ fun comparator _ => ?_
  · rw [Comparators.resolve.eq_def]
    split
    · exact .ok _
    · rw [Comparators.find]
      split
      · exact .ok _
      · exact .error rfl
  · split
    · exact .error rfl
    · exact .ok _

theorem RecordOrder.ofPlan_raises (plan : Plan) (codec : FieldCodec) (comparators : Comparators) :
    Raises Error.Configures (ofPlan plan codec comparators) := by
  refine Raises.bind (.mapM fun criterion _ => SortKey.ofCriterion_raises _ _) fun _ _ => ?_
  refine Raises.bind (.mapM fun source _ => ?_) fun _ _ => .ok _
  exact Raises.bind (.mapM fun criterion _ => SortKey.ofCriterion_raises _ _) fun _ _ => .ok _

namespace Partitioner

theorem checkHashed_raises (criteria : List Criterion) :
    Raises Error.Configures (checkHashed criteria) := by
  induction criteria with
  | nil => exact .ok _
  | cons criterion rest ih =>
      rw [checkHashed]
      split
      · exact .error rfl
      · exact ih

theorem ofPlan_raises (plan : Plan) (codec : FieldCodec) (count : UInt64) (seed : Option UInt64) :
    Raises Error.Configures (ofPlan plan codec count seed) := by
  rw [ofPlan]
  split
  · exact (checkHashed_raises _).bind fun _ _ => .ok _
  · exact .ok _

end Partitioner

end Cogrouping
