import Mathlib.Data.List.Nodup
import Cogrouping.Proofs.Outcome
import Cogrouping.Schema.Text

/-!
Laws of declared schemas: what their check establishes, and how fields are found by name.
-/

namespace Cogrouping.Schema

structure Valid (schema : Schema) : Prop where
  named : schema.name ≠ ""
  fieldsNamed : "" ∉ schema.names
  unreserved : sourceIdName ∉ schema.names
  distinct : schema.names.Nodup

theorem checkFields_eq_ok {schema : String} {seen : List String} {fields : List Field} :
    checkFields schema seen fields = .ok () ↔
      (∀ field ∈ fields, field.name ≠ "" ∧ field.name ≠ sourceIdName ∧ field.name ∉ seen) ∧
        (fields.map Field.name).Nodup := by
  induction fields generalizing seen with
  | nil => simp [checkFields]
  | cons field rest ih =>
      rw [checkFields, List.forall_mem_cons, List.map_cons, List.nodup_cons]
      by_cases unnamed : field.name.isEmpty = true
      · have empty : field.name = "" := by simpa using unnamed
        simp [empty]
      · have named : field.name ≠ "" := by simpa using unnamed
        rw [if_neg unnamed]
        by_cases reserved : field.isSourceId = true
        · have same : field.name = sourceIdName := by simpa [Field.isSourceId] using reserved
          simp [reserved, same]
        · have free : field.name ≠ sourceIdName := by simpa [Field.isSourceId] using reserved
          rw [if_neg reserved]
          by_cases repeated : field.name ∈ seen
          · simp [repeated]
          · rw [if_neg (by simpa using repeated), ih]
            constructor
            · rintro ⟨apart, distinct⟩
              refine ⟨⟨⟨named, free, repeated⟩, fun later member => ?_⟩, ?_, distinct⟩
              · obtain ⟨laterNamed, laterFree, laterNew⟩ := apart later member
                exact ⟨laterNamed, laterFree, fun old => laterNew (List.mem_cons_of_mem _ old)⟩
              · intro member
                obtain ⟨later, inside, same⟩ := List.mem_map.mp member
                exact (apart later inside).2.2 (same ▸ List.mem_cons_self)
            · rintro ⟨⟨_, apart⟩, fresh, distinct⟩
              refine ⟨fun later member => ?_, distinct⟩
              obtain ⟨laterNamed, laterFree, laterNew⟩ := apart later member
              refine ⟨laterNamed, laterFree, fun old => ?_⟩
              rcases List.mem_cons.mp old with same | old
              · exact fresh (same ▸ List.mem_map_of_mem member)
              · exact laterNew old

theorem validate_eq_ok {schema : Schema} : schema.validate = .ok () ↔ schema.Valid := by
  have names : ∀ {name : String}, name ∉ schema.names ↔
      ∀ field ∈ schema.fields, field.name ≠ name := by simp [Schema.names]
  unfold validate
  by_cases unnamed : schema.name.isEmpty = true
  · have empty : schema.name = "" := by simpa using unnamed
    rw [if_pos unnamed]
    constructor
    · intro failed
      simp at failed
    · intro valid
      exact absurd empty valid.named
  · have named : schema.name ≠ "" := by simpa using unnamed
    rw [if_neg unnamed, checkFields_eq_ok]
    constructor
    · rintro ⟨apart, distinct⟩
      exact ⟨named, names.mpr fun field member => (apart field member).1,
        names.mpr fun field member => (apart field member).2.1, distinct⟩
    · intro valid
      refine ⟨fun field member => ⟨names.mp valid.fieldsNamed field member, ?_, ?_⟩, valid.distinct⟩
      · exact names.mp valid.unreserved field member
      · simp

theorem Valid.unmarked {schema : Schema} (valid : schema.Valid) {field : Field}
    (member : field ∈ schema.fields) : field.isSourceId = false := by
  rw [Field.isSourceId, beq_eq_false_iff_ne]
  intro reserved
  exact valid.unreserved (reserved ▸ List.mem_map_of_mem member)

variable {schema : Schema}

theorem indexOf?_eq_some (distinct : schema.names.Nodup) {name : String} {position : Nat} :
    schema.indexOf? name = some position ↔ schema.names[position]? = some name := by
  have places := List.nodup_iff_getElem?_ne_getElem?.mp distinct
  rw [indexOf?, List.findIdx?_eq_some_iff_getElem]
  constructor
  · rintro ⟨inside, same, _⟩
    simpa [names, inside] using same
  · intro found
    obtain ⟨field, atPosition, rfl⟩ : ∃ field, schema.fields[position]? = some field ∧
        field.name = name := by simpa [names] using found
    obtain ⟨inside, rfl⟩ := List.getElem?_eq_some_iff.mp atPosition
    refine ⟨inside, by simp, fun earlier before same => ?_⟩
    refine places earlier position before (by simpa [size, names] using inside) ?_
    rw [found, names, List.getElem?_map, List.getElem?_eq_getElem (by omega), Option.map_some,
      beq_iff_eq.mp same]

theorem find?_eq_getElem? (name : String) :
    schema.find? name = schema.indexOf? name >>= fun position => schema.fields[position]? :=
  List.find?_eq_bind_findIdx?_getElem?

theorem name_of_find? {name : String} {field : Field} (found : schema.find? name = some field) :
    field.name = name := by
  simpa using List.find?_some found

theorem mem_of_find? {name : String} {field : Field} (found : schema.find? name = some field) :
    field ∈ schema.fields := List.mem_of_find?_eq_some found

theorem find?_of_mem (distinct : schema.names.Nodup) {field : Field}
    (member : field ∈ schema.fields) : schema.find? field.name = some field := by
  obtain ⟨position, inside, rfl⟩ := List.getElem_of_mem member
  have place : schema.indexOf? schema.fields[position].name = some position := by
    rw [indexOf?_eq_some distinct, names, List.getElem?_map, List.getElem?_eq_getElem inside,
      Option.map_some]
  rw [find?_eq_getElem?, place]
  exact List.getElem?_eq_getElem inside

theorem contains_eq_true {name : String} : schema.contains name = true ↔ name ∈ schema.names := by
  simp [contains, names]

end Cogrouping.Schema
