import Cogrouping.Order.Sort
import Cogrouping.Partition
import Cogrouping.Rollup.Engine
import Cogrouping.Settings

/-!
Whole runs on one machine: every tuple becomes a record in its partition; then partition after
partition is sorted, cut into groups and walked with a handler.
-/

namespace Cogrouping

namespace Run

inductive Failure (ε : Type)
  | noHandler
  | unknownHandler (name : String)
  | refused (reason : String)
  | engine (cause : Error)
  | rollup (partition : PartitionId) (cause : Rollup.Failure ε)
  deriving DecidableEq, Repr

def Failure.message {ε : Type} (describe : ε → String) : Failure ε → String
  | noHandler => "handler registry: configuration names no handler"
  | unknownHandler name => s!"handler registry: unknown handler key '{name}'"
  | refused reason => s!"handler registry: {reason}"
  | engine cause => cause.message
  | rollup partition cause => s!"partition {partition.text}: {cause.message describe}"

structure PartitionSummary where
  partition : PartitionId
  records : Nat
  bytes : Nat
  rollup : Rollup.Stats
  deriving DecidableEq, Repr

structure Summary where
  fingerprint : Digest
  records : Nat
  partitions : List PartitionSummary
  deriving DecidableEq, Repr

def Summary.groups (summary : Summary) : Nat :=
  summary.partitions.foldl (fun total part => total + part.rollup.groups) 0

def statsJson (stats : Rollup.Stats) : Json :=
  .object [
    ("groups", .ofNat stats.groups), ("elements", .ofNat stats.elements),
    ("drained", .ofNat stats.drained), ("opened", .ofNat stats.opened),
    ("closed", .ofNat stats.closed)]

def PartitionSummary.toJson (summary : PartitionSummary) : Json :=
  .object [
    ("partition", .ofNat summary.partition.number.toNat), ("records", .ofNat summary.records),
    ("bytes", .ofNat summary.bytes), ("rollup", statsJson summary.rollup)]

def Summary.toJson (summary : Summary) : Json :=
  .object [
    ("fingerprint", .string summary.fingerprint.toHex), ("records", .ofNat summary.records),
    ("partitions", .array (summary.partitions.map PartitionSummary.toJson))]

end Run

structure Runner where
  plan : Plan
  records : RecordCodec
  order : RecordOrder
  partitioner : Partitioner

namespace Runner

open Run

variable {σ ε : Type}

def check {α : Type} (result : Except Error α) : Except (Failure ε) α :=
  result.mapError Failure.engine

/-- A runner for a job. All that can be wrong with the description is found here. -/
def ofJob (job : Job) (settings : Settings) (comparators : Comparators) (objects : ObjectCodecs)
    (handlers : Handlers σ ε) : Except (Failure ε) Runner := do
  let plan ← check (Plan.build job)
  if let some name := plan.job.handler then
    if !handlers.contains name then throw (.unknownHandler name)
  let codec ← check (FieldCodec.ofPlan plan objects settings.maxFieldBytes.toNat)
  let order ← check (RecordOrder.ofPlan plan codec comparators)
  let partitioner ← check (Partitioner.ofPlan plan codec settings.partitions settings.seed)
  return { plan, records := { plan, fields := codec }, order, partitioner }

variable (runner : Runner)

/-- The partition and the record of a tuple. The partitioner's buffers are not those that the record
is written into. -/
def assign (tuple : Tuple) : Except Error (PartitionId × Bytes) := do
  let (partition, _) := (runner.partitioner.assign tuple).run ⟨[], []⟩
  let partition ← partition
  let record ← runner.records.encode tuple
  return (partition, record)

def recordsOf (assigned : List (PartitionId × Bytes)) (number : Nat) : List Bytes :=
  (assigned.filter fun entry => entry.1.number.toNat == number).map Prod.snd

def distribute (tuples : List Tuple) : Except Error (List (PartitionId × List Bytes)) := do
  let assigned ← tuples.mapM runner.assign
  return (List.range runner.partitioner.count.toNat).map fun number =>
    (⟨UInt32.ofNat number⟩, recordsOf assigned number)

/-- Running changes the handlers' state also when it fails. -/
abbrev Running (σ ε : Type) := ExceptT (Stop (Failure ε)) (StateM σ)

def raise {α : Type} (result : Except (Stop Error) α) : Running σ ε α :=
  ofExcept (result.mapError (.map .engine))

def walk (partition : PartitionId) (records : List Bytes) (handler : Handler σ ε) :
    Running σ ε PartitionSummary := do
  let sorted ← raise (Sort.stable .four runner.order.compareBytes records)
  let groups := runner.order.groups
  let start : Rollup.Walk GroupedTuples σ :=
    { engine := .ofOrder groups
      input := .ofList groups (sorted.map runner.records.decode)
      state := ← get }
  let context : Context := { plan := runner.plan, partition }
  let walked : Except (Stop (Rollup.Failure ε)) Rollup.Stats × Rollup.Walk GroupedTuples σ :=
    (ExceptT.run (Rollup.Walking.run handler context)).run start
  set walked.2.state
  match walked.1 with
  | .error stop => throw (stop.map (.rollup partition))
  | .ok rollup =>
      return { partition, records := records.length, bytes := records.flatten.length, rollup }

def walkAll (make : PartitionId → Running σ ε (Handler σ ε)) :
    List (PartitionId × List Bytes) → Running σ ε (List PartitionSummary)
  | [] => return []
  | (partition, records) :: rest => do
      let handler ← make partition
      let summary ← runner.walk partition records handler
      let summaries ← walkAll make rest
      return summary :: summaries

def runWith (make : PartitionId → Running σ ε (Handler σ ε)) (tuples : List Tuple) :
    Running σ ε Summary := do
  let parts ← raise ((runner.distribute tuples).mapError .failed)
  let partitions ← runner.walkAll make parts
  return { fingerprint := runner.plan.fingerprint, records := tuples.length, partitions }

def runInto (handler : Handler σ ε) (tuples : List Tuple) : Running σ ε Summary :=
  runner.runWith (fun _ => return handler) tuples

def makeNamed (handlers : Handlers σ ε) (name : String) : Running σ ε (Handler σ ε) :=
  match handlers.find? name with
  | some make => liftM make
  | none => throw (.failed (.unknownHandler name))

def run (handlers : Handlers σ ε) (tuples : List Tuple) : Running σ ε Summary :=
  match runner.plan.job.handler with
  | none => throw (.failed .noHandler)
  | some name => runner.runWith (fun _ => makeNamed handlers name) tuples

end Runner

end Cogrouping
