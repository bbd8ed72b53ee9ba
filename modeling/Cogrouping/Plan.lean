import Cogrouping.Job.Printer
import Cogrouping.Layout

/-!
Plans: a job that has a layout, with where each field of a record comes from and how records are
compared. A plan is built once and does not change.
-/

namespace Cogrouping

/-- Where the value of a common field comes from. -/
inductive Slot
  | field (position : Nat)
  | sourceId
  deriving DecidableEq, Repr

structure Criterion where
  position : Nat
  name : String
  type : DataType
  direction : Direction
  comparator : Option String
  deriving DecidableEq, Repr

namespace Criterion

def ofField (position : Nat) (field : Field) (direction : Direction) : Criterion where
  position
  name := field.name
  type := field.type
  direction
  comparator := field.comparator

def toJson (criterion : Criterion) : Json :=
  .object [("position", .ofNat criterion.position), ("name", .string criterion.name),
    ("data_type", criterion.type.toJson), ("order", criterion.direction.toJson),
    ("comparator", optionalText criterion.comparator)]

def ofFields (position : Nat) : List Field → List Direction → List Criterion
  | field :: fields, direction :: directions =>
      ofField position field direction :: ofFields (position + 1) fields directions
  | _, _ => []

end Criterion

structure SourcePlan where
  id : SourceId
  schema : Schema
  specific : Schema
  commonSlots : List Slot
  specificPositions : List Nat
  /-- The criteria between tuples of this source that the common ones hold equal. -/
  secondaryCriteria : List Criterion
  deriving DecidableEq

def SourcePlan.name (source : SourcePlan) : String := source.schema.name

structure Plan where
  job : Job
  common : Schema
  sources : Dictionary SourceId SourcePlan
  commonCriteria : List Criterion
  groupBy : List String
  minDepth : Nat
  maxDepth : Nat
  sourceIdPosition? : Option Nat
  enumTypes : Dictionary String EnumType
  deriving DecidableEq

namespace Plan

def collectEnums : List Field → Dictionary String EnumType →
    Except Error (Dictionary String EnumType)
  | [], found => .ok found
  | field :: rest, found =>
      match field.type with
      | .enumeration type =>
          match found.find? type.name with
          | some known =>
              if known = type then collectEnums rest found
              else .error (.config (.constantsDiffer type.name))
          | none => collectEnums rest (found.insert type.name type)
      | _ => collectEnums rest found

def locate (schema : Schema) (field : String) : Except Error Nat :=
  match schema.indexOf? field with
  | some position => .ok position
  | none => .error (.unknownField (.ofSchema schema.name field))

def commonSlot (schema : Schema) (field : Field) : Except Error Slot :=
  if field.isSourceId then .ok .sourceId else (locate schema field.name).map .field

def sourcePlan (layout : Layout) (source : Source) : Except Error SourcePlan := do
  match layout.specific.lookup source.id with
  | none => throw (.invariant (.noSpecificSchema source.id))
  | some part =>
      let commonSlots ← layout.common.fields.mapM (commonSlot source.schema)
      let specificPositions ← part.schema.fields.mapM fun field => locate source.schema field.name
      return {
        id := source.id
        schema := source.schema
        specific := part.schema
        commonSlots
        specificPositions
        secondaryCriteria := Criterion.ofFields 0 part.schema.fields part.directions }

def build (job : Job) : Except Error Plan := do
  let layout ← Layout.ofJob job
  let enumTypes ← collectEnums (job.sources.flatMap (·.schema.fields)) ∅
  let sources ← job.sources.mapM (sourcePlan layout)
  return {
    job
    common := layout.common
    sources := .ofList (sources.map fun source => (source.id, source))
    commonCriteria := Criterion.ofFields 0 layout.common.fields layout.directions
    groupBy := layout.groupBy
    minDepth := layout.minDepth
    maxDepth := layout.maxDepth
    sourceIdPosition? := layout.sourceIdPosition?
    enumTypes }

variable (plan : Plan)

def source? (id : SourceId) : Option SourcePlan := plan.sources.find? id

def sourceNamed (name : String) : Except Error SourcePlan :=
  match plan.sources.values.find? (·.schema.name == name) with
  | some source => .ok source
  | none => .error (.unknownSource (.named name))

def isMultiSource : Bool := 2 ≤ plan.sources.entries.length

def groupCriteria : List Criterion := plan.commonCriteria.take plan.groupBy.length

def fingerprint : Digest := plan.job.fingerprint

end Plan

end Cogrouping
