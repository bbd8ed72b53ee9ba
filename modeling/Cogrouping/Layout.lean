import Cogrouping.Job
import Cogrouping.Schema.Text

/-!
The layout of a job's records. Common to all sources are the fields of the sort order, and the source
id when there are at least two sources; what a source declares beyond them is specific to it. Whatever
keeps a job from having a layout is found here, and without looking at records.
-/

namespace Cogrouping

structure SpecificPart where
  schema : Schema
  directions : List Direction
  deriving DecidableEq

structure Layout where
  common : Schema
  directions : List Direction
  specific : List (SourceId × SpecificPart)
  groupBy : List String
  minDepth : Nat
  maxDepth : Nat
  deriving DecidableEq

namespace Layout

def commonName : String := "common"

def sourceIdPosition? (layout : Layout) : Option Nat := layout.common.indexOf? sourceIdName

def checkSources : List SourceId → List String → List Source → Except Error Unit
  | _, _, [] => .ok ()
  | ids, names, source :: rest => do
      source.schema.validate
      if ids.contains source.id then throw (.config (.repeatedSourceId source.id))
      if names.contains source.schema.name then
        throw (.config (.repeatedSourceName source.schema.name))
      checkSources (source.id :: ids) (source.schema.name :: names) rest

def effectiveOrder (job : Job) : SortOrder :=
  if job.orderBy.isEmpty then
    ⟨job.groupBy.map fun field => .field field .ascending none⟩
  else job.orderBy

/-- An object field needs a comparator to be sorted by. -/
def checkOrderable (field : Field) : Except Error Unit :=
  if field.type.isOrderable || field.comparator.isSome then .ok ()
  else .error (.unorderableField field.name)

def checkAgreement (first : Field) (name : String) (comparator : Option String) :
    List Source → Except Error Unit
  | [] => .ok ()
  | source :: rest =>
      match source.schema.find? name with
      | none => .error (.missingCommonField name source.schema.name)
      | some field =>
          if first.type ≠ field.type then .error (.typeMismatch name first.type field.type)
          else if comparator.isNone && first.comparator ≠ field.comparator then
            .error (.config (.comparatorsDiffer name))
          else checkAgreement first name comparator rest

def commonField (sources : List Source) (name : String) (comparator : Option String) :
    Except Error Field :=
  match sources with
  | [] => .error (.unknownField (.named name))
  | source :: rest =>
      match source.schema.find? name with
      | none => .error (.missingCommonField name source.schema.name)
      | some first => do
          checkAgreement first name comparator rest
          let field : Field :=
            { name, type := first.type, comparator := comparator.orElse fun _ => first.comparator }
          checkOrderable field
          return field

def entryField (sources : List Source) : SortEntry → Except Error Field
  | .sourceId _ =>
      if sources.length < 2 then .error (.sourceIdUsage (.tooFewSources sources.length))
      else .ok .sourceId
  | .field name _ comparator => commonField sources name comparator

def entryFields (sources : List Source) : List String → List SortEntry → Except Error (List Field)
  | _, [] => .ok []
  | seen, entry :: rest => do
      if seen.contains entry.name then throw (.config (.repeatedInOrder entry.name))
      let field ← entryField sources entry
      let fields ← entryFields sources (entry.name :: seen) rest
      return field :: fields

def checkGroupBy (groupBy : List String) (common : Schema) : Except Error Unit :=
  if groupBy.isEmpty then .error (.config .noGroupBy)
  else if groupBy.contains sourceIdName then .error (.sourceIdUsage .inGroupBy)
  else if groupBy.isPrefixOf common.names then .ok ()
  else .error (.groupByNotLeading groupBy common.names)

def rollupDepth (job : Job) : Except Error Nat :=
  match job.rollupFrom with
  | none => .ok (job.groupBy.length - 1)
  | some field =>
      match job.groupBy.findIdx? (· == field) with
      | some depth => .ok depth
      | none => .error (.config (.rollupOutsideGroupBy field job.groupBy))

def checkSecondaryIds (job : Job) : List SourceId → Except Error Unit
  | [] => .ok ()
  | id :: rest =>
      if (job.source? id).isSome then checkSecondaryIds job rest
      else .error (.unknownSource (.numbered id))

def secondaryField (schema common : Schema) (before : List Field) :
    SortEntry → Except Error Field
  | .sourceId _ => .error (.sourceIdUsage (.inSecondary schema.name))
  | .field name _ comparator => do
      if common.contains name then throw (.secondaryOnCommonField name schema.name)
      if before.any (·.name == name) then throw (.config (.repeatedInSecondary name schema.name))
      match schema.find? name with
      | none => throw (.unknownField (.ofSchema schema.name name))
      | some declared =>
          let field := { declared with comparator := comparator.orElse fun _ => declared.comparator }
          checkOrderable field
          return field

def secondaryFields (schema common : Schema) :
    List Field → List SortEntry → Except Error (List Field)
  | before, [] => .ok before
  | before, entry :: rest => do
      let field ← secondaryField schema common before entry
      secondaryFields schema common (before ++ [field]) rest

def remainingFields (schema common : Schema) (ordered : List Field) : List Field :=
  schema.fields.filter fun field =>
    !common.contains field.name && !ordered.any (·.name == field.name)

def specificPart (schema common : Schema) (order : SortOrder) : Except Error SpecificPart := do
  let ordered ← secondaryFields schema common [] order.entries
  return {
    schema := { name := schema.name, fields := ordered ++ remainingFields schema common ordered }
    directions := order.entries.map SortEntry.direction }

def specificParts (job : Job) (common : Schema) :
    List Source → Except Error (List (SourceId × SpecificPart))
  | [] => .ok []
  | source :: rest => do
      let order := (job.secondaryOrderBy.find? source.id).getD .empty
      let part ← specificPart source.schema common order
      let parts ← specificParts job common rest
      return (source.id, part) :: parts

def ofJob (job : Job) : Except Error Layout := do
  if job.sources.isEmpty then throw (.config .noSources)
  checkSources [] [] job.sources
  let order := effectiveOrder job
  if order.isEmpty then throw (.config .noOrder)
  let fields ← entryFields job.sources [] order.entries
  let appended := 2 ≤ job.sources.length && !order.hasSourceId
  let common : Schema :=
    { name := commonName, fields := fields ++ if appended then [.sourceId] else [] }
  let directions := order.entries.map SortEntry.direction ++
    if appended then [Direction.ascending] else []
  checkGroupBy job.groupBy common
  let minDepth ← rollupDepth job
  checkSecondaryIds job job.secondaryOrderBy.keys
  let specific ← specificParts job common job.sources
  return { common, directions, specific, groupBy := job.groupBy, minDepth,
           maxDepth := job.groupBy.length - 1 }

end Layout

end Cogrouping
