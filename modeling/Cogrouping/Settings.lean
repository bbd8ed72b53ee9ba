import Cogrouping.Json.Decoder

/-!
The settings of a worker, from its environment or from JSON text.
-/

namespace Cogrouping

structure Settings where
  partitions : UInt64 := 1
  /-- The room that buffers begin with. No result depends on it, and the buffers here have no room. -/
  scratchCapacity : UInt64 := 4096
  maxFieldBytes : UInt64 := 67108864
  seed : Option UInt64 := none
  deriving DecidableEq

namespace Settings

instance : Inhabited Settings := ⟨{}⟩

def withPartitions (settings : Settings) (count : UInt64) : Settings :=
  { settings with partitions := max count 1 }

/-- ASCII digits, with a plus sign or without, that stand for a number of 64 bits. -/
def number? (text : String) : Option UInt64 :=
  let chars := text.toList
  let digits := if chars.head? == some '+' then chars.drop 1 else chars
  if digits.isEmpty || !digits.all Json.Scan.isDigit then none
  else
    let number := Json.Lexeme.natural digits
    if number < 0x10000000000000000 then some (UInt64.ofNat number) else none

def ofEnvironment (lookup? : String → Option String) : Settings :=
  let read? (name : String) : Option UInt64 := lookup? name >>= number?
  let settings : Settings := {}
  { partitions := ((read? "COGROUP_NUM_PARTITIONS").map (max · 1)).getD settings.partitions
    scratchCapacity := (read? "COGROUP_SCRATCH_CAPACITY").getD settings.scratchCapacity
    maxFieldBytes := (read? "COGROUP_MAX_FIELD_BYTES").getD settings.maxFieldBytes
    seed := read? "COGROUP_SEED" }

open Json Json.Decoder in
def ofTree? (tree : Tree) : Option Settings := do
  let members ← record? ["num_partitions", "scratch_capacity", "max_field_bytes", "seed"] tree
  let word? (tree : Tree) : Option UInt64 := (natural? 0x10000000000000000 tree).map UInt64.ofNat
  let partitions ← required? members "num_partitions" word?
  let scratchCapacity ← required? members "scratch_capacity" word?
  let maxFieldBytes ← required? members "max_field_bytes" word?
  let seed ← match tree with
    | .array _ => required? members "seed" (optional? word?)
    | _ => defaulted? members "seed" (optional? word?) none
  return { partitions, scratchCapacity, maxFieldBytes, seed }

def ofText? (text : String) : Option Settings := Json.Tree.ofText? text >>= ofTree?

end Settings

end Cogrouping
