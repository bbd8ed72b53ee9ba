import Cogrouping.Dictionary
import Cogrouping.SortOrder

/-!
The description of a co-grouping job, as its author gives it: plain data that nothing has checked.
-/

namespace Cogrouping

structure Job where
  sources : List Source := []
  orderBy : SortOrder := .empty
  /-- Orders of single sources over fields outside the common order. -/
  secondaryOrderBy : Dictionary SourceId SortOrder := ∅
  /-- The fields that bound groups; they have to begin the common order. -/
  groupBy : List String := []
  /-- The shallowest group-by field whose groups are opened and closed; the deepest if absent. -/
  rollupFrom : Option String := none
  handler : Option String := none
  deriving DecidableEq

namespace Job

instance : Inhabited Job := ⟨{}⟩

def source? (job : Job) (id : SourceId) : Option Source := job.sources.find? (·.id == id)

def sourceNamed? (job : Job) (name : String) : Option Source :=
  job.sources.find? (·.schema.name == name)

def addSource (job : Job) (id : SourceId) (schema : Schema) : Job :=
  { job with sources := job.sources ++ [⟨id, schema⟩] }

def setSecondary (job : Job) (id : SourceId) (order : SortOrder) : Job :=
  { job with secondaryOrderBy := job.secondaryOrderBy.insert id order }

end Job

end Cogrouping
