import Cogrouping.Job.Printer
import Cogrouping.Job.Reader
import Cogrouping.Proofs.Dictionary
import Cogrouping.Proofs.Json.Decoder
import Cogrouping.Proofs.Plan
import Cogrouping.Proofs.Text.Utf8

/-!
Job descriptions as text. Every description is read back from its own text, so two descriptions with
one text are equal.
-/

namespace Cogrouping

open Json Json.Decoder

/-! ### What is written is plain -/

theorem EnumType.toJson_plain (type : EnumType) : Plain type.toJson := by
  refine .object ?_
  simp [Plain.string, Plain.map Plain.string]

theorem DataType.toJson_plain (type : DataType) : Plain type.toJson := by
  cases type with
  | enumeration type => exact .object (by simp [type.toJson_plain])
  | object codec => exact .object (by simp [Plain.string])
  | _ => exact .string _

theorem comparatorMember_plain (comparator : Option String) :
    ∀ member ∈ comparatorMember comparator, Plain member.2 := by
  cases comparator <;> simp [comparatorMember, Plain.string]

theorem Field.toJson_plain (field : Field) : Plain field.toJson := by
  refine .object (List.forall_mem_append.mpr ⟨?_, comparatorMember_plain field.comparator⟩)
  simp [Plain.string, field.type.toJson_plain]

theorem Schema.toJson_plain (schema : Schema) : Plain schema.toJson := by
  refine .object ?_
  simp [Plain.string, Plain.map Field.toJson_plain]

theorem Source.toJson_plain (source : Source) : Plain source.toJson := by
  refine .object ?_
  simp [Plain.natural, source.schema.toJson_plain]

theorem Direction.toJson_plain (direction : Direction) : Plain direction.toJson := by
  cases direction <;> exact .string _

theorem SortEntry.toJson_plain (entry : SortEntry) : Plain entry.toJson := by
  cases entry with
  | field name direction comparator =>
      refine .object (List.forall_mem_append.mpr ⟨?_, comparatorMember_plain comparator⟩)
      simp [Plain.string, direction.toJson_plain]
  | sourceId direction => exact .object (by simp [Plain.string, direction.toJson_plain])

theorem SortOrder.toJson_plain (order : SortOrder) : Plain order.toJson :=
  Plain.map SortEntry.toJson_plain order.entries

theorem optionalText_plain (text : Option String) : Plain (optionalText text) := by
  cases text with
  | none => exact .null
  | some text => exact .string text

theorem Job.toJson_plain (job : Job) : Plain job.toJson := by
  have secondary : Plain (secondaryJson job.secondaryOrderBy) := by
    refine .object fun member among => ?_
    obtain ⟨⟨id, order⟩, _, rfl⟩ := List.mem_map.mp among
    exact order.toJson_plain
  refine .object ?_
  simp [Plain.map Source.toJson_plain, job.orderBy.toJson_plain, secondary,
    Plain.map Plain.string, optionalText_plain]

/-! ### What is written is read back -/

theorem EnumType.ofTree?_tree (type : EnumType) : ofTree? type.toJson.tree = some type := by
  rw [toJson, ofTree?, record?_tree _ (by simp)]
  simp [required?, member?_known, List.lookup_cons, list?_tree text?_tree]

theorem DataType.ofTree?_tree (type : DataType) : ofTree? type.toJson.tree = some type := by
  cases type with
  | enumeration type =>
      simp [toJson, ofTree?, tree, treeMembers, variant?, type.ofTree?_tree]
  | object codec => simp [toJson, ofTree?, tree, treeMembers, variant?, text?]
  | _ => simp [toJson, ofTree?, tree, variant?, plain?]

theorem Field.ofTree?_tree (field : Field) : ofTree? field.toJson.tree = some field := by
  obtain ⟨name, type, comparator⟩ := field
  rw [toJson, ofTree?, record?_tree _ (by cases comparator <;> simp [comparatorMember])]
  cases comparator <;>
    simp [required?, defaulted?, member?_known, List.lookup_cons, comparatorMember, type.ofTree?_tree]

theorem Schema.ofTree?_tree (schema : Schema) : ofTree? schema.toJson.tree = some schema := by
  rw [toJson, ofTree?, record?_tree _ (by simp)]
  simp [required?, member?_known, List.lookup_cons, list?_tree Field.ofTree?_tree]

theorem SourceId.ofTree?_tree (id : SourceId) :
    ofTree? (Json.ofNat id.number.toNat).tree = some id := by
  rw [ofTree?, natural?_tree id.number.toNat_lt]
  simp

theorem Source.ofTree?_tree (source : Source) : ofTree? source.toJson.tree = some source := by
  rw [toJson, ofTree?, record?_tree _ (by simp)]
  simp [required?, member?_known, List.lookup_cons, source.id.ofTree?_tree, source.schema.ofTree?_tree]

theorem Direction.ofTree?_tree (direction : Direction) :
    ofTree? direction.toJson.tree = some direction := by
  cases direction <;> simp [toJson, ofTree?, tree, variant?]

namespace SortEntry

theorem splitKind?_tree (kind : String) {members : List (String × Json)}
    (distinct : ((("kind", Json.string kind) :: members).map Prod.fst).Nodup) :
    splitKind? (Json.object (("kind", .string kind) :: members)).tree =
      some (kind, (Json.object members).tree) := by
  have others : ∀ member ∈ members, member.1 ≠ "kind" := by
    intro member among same
    rw [List.map_cons, List.nodup_cons] at distinct
    exact distinct.1 (List.mem_map.mpr ⟨member, among, same⟩)
  have alone : known ["kind"] (("kind", .string kind) :: members) =
      [("kind", (Json.string kind).tree)] := by
    simpa [known] using others
  have kept : (treeMembers (("kind", .string kind) :: members)).filter
      (fun member => Lexeme.text? member.1 != some "kind") = treeMembers members := by
    rw [treeMembers, List.filter_cons_of_neg (by simp), List.filter_eq_self, treeMembers_eq_map]
    intro written among
    obtain ⟨member, listed, rfl⟩ := List.mem_map.mp among
    simpa using others member listed
  rw [tree, splitKind?, known?_treeMembers _ distinct, alone]
  simp [required?, member?, kept, tree, text?]

theorem exists_ofTree?_toJson {depth : Nat} (positive : 0 < depth) (entry : SortEntry) :
    ∃ value, Json.ofTree? depth entry.toJson.tree = some value := by
  cases entry with
  | field name direction comparator =>
      refine exists_ofTree?_texts positive ?_
      cases comparator <;> cases direction <;> simp [comparatorMember, Direction.toJson]
  | sourceId direction =>
      refine exists_ofTree?_texts positive ?_
      cases direction <;> simp [Direction.toJson]

theorem fieldOfTree?_tree (name : String) (direction : Direction) (comparator : Option String) :
    fieldOfTree? (Json.object (("name", .string name) :: ("order", direction.toJson) ::
      comparatorMember comparator)).tree = some (field name direction comparator) := by
  rw [fieldOfTree?, record?_tree _ (by cases comparator <;> simp [comparatorMember])]
  cases comparator <;>
    simp [required?, defaulted?, member?_known, List.lookup_cons, comparatorMember,
      direction.ofTree?_tree]

theorem sourceIdOfTree?_tree (direction : Direction) :
    sourceIdOfTree? (Json.object [("order", direction.toJson)]).tree =
      some (sourceId direction) := by
  rw [sourceIdOfTree?, record?_tree _ (by simp)]
  simp [required?, member?_known, direction.ofTree?_tree]

theorem ofTree?_tree {depth : Nat} (positive : 0 < depth) (entry : SortEntry) :
    ofTree? depth entry.toJson.tree = some entry := by
  obtain ⟨value, read⟩ := exists_ofTree?_toJson positive entry
  rw [ofTree?, read]
  cases entry with
  | field name direction comparator =>
      simp only [toJson, List.cons_append, List.nil_append]
      rw [splitKind?_tree "field" (by cases comparator <;> simp [comparatorMember])]
      simp [fieldOfTree?_tree]
  | sourceId direction =>
      rw [toJson, splitKind?_tree "source_id" (by simp)]
      simp [sourceIdOfTree?_tree]

end SortEntry

theorem SortOrder.ofTree?_tree {depth : Nat} (positive : 0 < depth) (order : SortOrder) :
    ofTree? depth order.toJson.tree = some order := by
  rw [ofTree?, toJson, list?_tree (SortEntry.ofTree?_tree positive)]
  rfl

namespace Job

theorem natural?_sourceId (id : SourceId) :
    (Lexeme.natural? (escaped (toString id.number.toNat))).filter (· < 0x100000000) =
      some id.number.toNat := by
  have below : id.number.toNat < 0x100000000 := id.number.toNat_lt
  rw [escaped_toString, natural?_toDigits]
  simp [below]

theorem secondaryOfTree?_tree (orders : Dictionary SourceId SortOrder) :
    secondaryOfTree? (secondaryJson orders).tree = some orders := by
  rw [secondaryJson, tree, treeMembers_eq_map, List.map_map, secondaryOfTree?, mapM_map_eq_some]
  · simp
  · rintro ⟨id, order⟩
    have read : SortOrder.ofTree? (depthLimit - 3) order.toJson.tree = some order :=
      order.ofTree?_tree (by decide)
    simp only [Function.comp_apply, natural?_sourceId, read]
    simp

theorem optional?_optionalText (text : Option String) :
    optional? text? (optionalText text).tree = some text := by
  cases text with
  | none => simp [optionalText, tree, optional?]
  | some text => simp [optionalText]

theorem ofTree?_tree (job : Job) : ofTree? job.toJson.tree = some job := by
  obtain ⟨sources, orderBy, secondary, groupBy, rollupFrom, handler⟩ := job
  have order : SortOrder.ofTree? (depthLimit - 2) orderBy.toJson.tree = some orderBy :=
    orderBy.ofTree?_tree (by decide)
  rw [toJson, ofTree?, record?_tree _ (by simp)]
  simp [memberNames, required?, defaulted?, member?_known, List.lookup_cons,
    list?_tree Source.ofTree?_tree, order, secondaryOfTree?_tree, list?_tree text?_tree,
    optional?_optionalText]

theorem ofText_text_eq_ok (job : Job) : ofText job.text = .ok job := by
  have read : Tree.ofText? job.text = some job.toJson.tree := job.toJson_plain.ofText?_text
  simp [ofText, read, ofTree?_tree]

theorem text_inj {job other : Job} : job.text = other.text ↔ job = other := by
  constructor
  · intro same
    have read := job.ofText_text_eq_ok
    rw [same, other.ofText_text_eq_ok] at read
    cases read
    rfl
  · exact congrArg text

/-- A description is read back from its text, whether a plan can be made of it or not. The text tells
descriptions apart, and its bytes are what the fingerprint of a plan is a digest of. -/
theorem ofText_text (job : Job) :
    ofText job.text = .ok job ∧
    (ofText job.text).map text = .ok job.text ∧
    (∀ other : Job, other.text = job.text ↔ other = job) ∧
    (∀ other : Job, Utf8.encode other.text = Utf8.encode job.text ↔ other = job) ∧
    (Plan.build job).map Plan.fingerprint =
      (Plan.build job).map fun _ => Digest.ofBytes (Utf8.encode job.text) := by
  have read := job.ofText_text_eq_ok
  refine ⟨read, by rw [read]; rfl, fun other => text_inj, fun other => ?_, ?_⟩
  · rw [Utf8.encode_inj, text_inj]
  · cases built : Plan.build job with
    | error refusal => simp only [Except.map]
    | ok plan =>
        have hashed : plan.fingerprint = Digest.ofBytes (Utf8.encode job.text) := by
          rw [Plan.fingerprint, (Plan.build_sound built).2, fingerprint]
        simp only [Except.map, hashed]

end Job

end Cogrouping
