import Cogrouping.Wire.Record

/-!
Partitions by hash. Tuples with the same bytes in the group-by fields down to the least rollup depth
go to the same partition, so that every partition can open and close its groups on its own.
-/

namespace Cogrouping

structure Partitioner where
  plan : Plan
  codec : FieldCodec
  count : UInt64
  seed : Option UInt64

namespace Partitioner

def hashed (plan : Plan) : List Criterion := plan.commonCriteria.take (plan.minDepth + 1)

def checkHashed : List Criterion → Except Error Unit
  | [] => .ok ()
  | criterion :: rest =>
      match criterion.comparator with
      | some comparator => .error (.config (.unhashable criterion.name comparator))
      | none => checkHashed rest

/-- A partitioner for at least one partition. With more than one, no hashed field may have a
comparator. -/
def ofPlan (plan : Plan) (codec : FieldCodec) (count : UInt64) (seed : Option UInt64) :
    Except Error Partitioner := do
  let count := max count 1
  if 1 < count then checkHashed (hashed plan)
  return { plan, codec, count, seed }

def encodeKey (codec : FieldCodec) (tuple : Tuple) : List Field → List Slot → Writing Unit
  | field :: fields, .field position :: slots => do
      let value ← ofExcept (tuple.require position)
      codec.encode field value
      encodeKey codec tuple fields slots
  | _ :: _, .sourceId :: _ => throw (.invariant .sourceIdInRollup)
  | _, _ => pure ()

variable (partitioner : Partitioner)

def route (key : Bytes) : PartitionId :=
  ⟨((Digest.seeded partitioner.seed key).leading % partitioner.count).toUInt32⟩

/-- The partition of a tuple. Unless there is but one, the bytes of its key are in the buffer
afterwards, instead of what that held before. -/
def assign (tuple : Tuple) : Writing PartitionId := do
  if partitioner.count = 1 then return ⟨0⟩
  let source ← ofExcept (partitioner.plan.sourceNamed tuple.schema.name)
  modify fun buffers => { buffers with out := [] }
  let depths := partitioner.plan.minDepth + 1
  encodeKey partitioner.codec tuple (partitioner.plan.common.fields.take depths)
    (source.commonSlots.take depths)
  return partitioner.route (← get).out

end Partitioner

end Cogrouping
