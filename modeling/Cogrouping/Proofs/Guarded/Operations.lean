import Cogrouping.Bytes
import Cogrouping.Error
import Cogrouping.Proofs.Outcome

/-!
The operations of a machine with 64 bits, which may go astray: a sum that is too large, a difference below
zero, a place outside a buffer, a copy between buffers of different lengths. A computation that goes astray
is trapped, and then it has no result, not even an error.
-/

namespace Cogrouping

inductive Trap
  | overflow
  | underflow
  | outside
  | uneven
  deriving DecidableEq, Repr

/-- A computation that ends with a result or an error, unless it is trapped. -/
abbrev Guarded := ExceptT Error (Except Trap)

namespace Guarded

variable {α β : Type}

def trap (cause : Trap) : Guarded α := ExceptT.mk (.error cause)

def ofResult (result : Except Error α) : Guarded α := ExceptT.mk (.ok result)

def fail (cause : Error) : Guarded α := ofResult (.error cause)

def add (left right : Nat) : Guarded Nat :=
  if left + right < 0x10000000000000000 then pure (left + right) else trap .overflow

def sub (left right : Nat) : Guarded Nat :=
  if right ≤ left then pure (left - right) else trap .underflow

def index (items : List α) (position : Nat) : Guarded α :=
  match items[position]? with
  | some item => pure item
  | none => trap .outside

def range (items : List α) (start stop : Nat) : Guarded (List α) :=
  if start ≤ stop ∧ stop ≤ items.length then pure ((items.take stop).drop start) else trap .outside

def copy (overwritten items : List α) : Guarded (List α) :=
  if items.length = overwritten.length then pure items else trap .uneven

def advance (buffer : Bytes) (offset size : Nat) : Guarded Nat := do
  let next ← add offset size
  if next ≤ buffer.length then pure next else trap .outside

/-- A computation is not trapped and ends as another does. -/
def Safe (guarded : Guarded α) (result : Except Error α) : Prop := guarded.run = .ok result

namespace Safe

variable {guarded : Guarded α} {result : Except Error α} {value : α} {next : α → Guarded β}
  {later : α → Except Error β} {last : Except Error β}

theorem pure (value : α) : Safe (pure value) (.ok value) := rfl

theorem fail (cause : Error) : Safe (Guarded.fail cause : Guarded α) (.error cause) := rfl

theorem ofResult (result : Except Error α) : Safe (Guarded.ofResult result) result := rfl

theorem bind (first : Safe guarded result)
    (rest : ∀ value, result = .ok value → Safe (next value) (later value)) :
    Safe (guarded >>= next) (result >>= later) := by
  rw [Safe, ExceptT.run_bind, first, ok_bind]
  cases result with
  | error cause => rfl
  | ok value => exact rest value rfl

/-- An operation that does not go astray is passed over. -/
theorem step (first : Safe guarded (.ok value)) (rest : Safe (next value) last) :
    Safe (guarded >>= next) last := by
  have passed : Safe (guarded >>= next) ((Except.ok value : Except Error α) >>= fun _ => last) :=
    first.bind fun _ same => Except.ok.inj same ▸ rest
  exact passed

end Safe

theorem add_safe {left right : Nat} (small : left + right < 0x10000000000000000) :
    Safe (add left right) (.ok (left + right)) := by
  rw [add, if_pos small]
  rfl

theorem sub_safe {left right : Nat} (below : right ≤ left) : Safe (sub left right) (.ok (left - right)) := by
  rw [sub, if_pos below]
  rfl

theorem index_safe {items : List α} {position : Nat} {item : α} (found : items[position]? = some item) :
    Safe (index items position) (.ok item) := by
  rw [index, found]
  rfl

theorem range_safe {items : List α} {start stop : Nat} (ordered : start ≤ stop)
    (inside : stop ≤ items.length) :
    Safe (range items start stop) (.ok ((items.take stop).drop start)) := by
  rw [range, if_pos ⟨ordered, inside⟩]
  rfl

theorem copy_safe {overwritten items : List α} (same : items.length = overwritten.length) :
    Safe (copy overwritten items) (.ok items) := by
  rw [copy, if_pos same]
  rfl

theorem advance_safe {buffer : Bytes} (short : buffer.length < 0x4000000000000000) {offset size : Nat}
    (inside : offset + size ≤ buffer.length) : Safe (advance buffer offset size) (.ok (offset + size)) := by
  refine (add_safe (by omega)).step ?_
  rw [if_pos inside]
  rfl

end Guarded

end Cogrouping
