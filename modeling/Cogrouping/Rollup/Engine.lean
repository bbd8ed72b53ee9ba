import Cogrouping.Rollup.Handler

/-!
The walk over grouped input. Where a new key differs from the one before, the groups of that depth and
below are closed, deepest first, and opened again for the new key, shallowest first; then the handler
gets the tuples of the key. What an engine knows of the key before outlives a failed walk.
-/

namespace Cogrouping

namespace Rollup

inductive Phase
  | awaiting
  | inGroup
  | done
  deriving DecidableEq, Repr

structure Stats where
  groups : Nat := 0
  elements : Nat := 0
  drained : Nat := 0
  opened : Nat := 0
  closed : Nat := 0
  deriving DecidableEq, Repr

inductive Failure (ε : Type)
  | handler (cause : ε)
  | input (cause : Error)
  | finished
  deriving DecidableEq, Repr

def Failure.message {ε : Type} (describe : ε → String) : Failure ε → String
  | handler cause => s!"group handler failed: {describe cause}"
  | input cause => s!"grouped input failed: {cause.message}"
  | finished => "rollup engine already finished"

structure Engine where
  order : GroupOrder
  minDepth : Nat
  maxDepth : Nat
  phase : Phase
  previous : Option GroupKey
  stats : Stats

namespace Engine

def ofOrder (order : GroupOrder) : Engine where
  order
  minDepth := order.plan.minDepth
  maxDepth := order.plan.maxDepth
  phase := .awaiting
  previous := none
  stats := {}

/-- The first of some depths at which two keys differ, raised to the least depth; past the deepest if
they differ at none. -/
def mismatchAmong (engine : Engine) (previous key : GroupKey) : List Nat → Except Error Nat
  | [] => .ok (engine.maxDepth + 1)
  | depth :: depths =>
      match previous.get? depth, key.get? depth with
      | some left, some right => do
          if ← engine.order.sameField depth left right then mismatchAmong engine previous key depths
          else return max depth engine.minDepth
      | _, _ => .error (.invariant (.keyLacksDepth depth))

/-- The depth from which the groups of a key are not those of the key before. -/
def mismatch (engine : Engine) (previous key : GroupKey) : Except Error Nat :=
  engine.mismatchAmong previous key (List.range (engine.maxDepth + 1))

def depthsFrom (engine : Engine) (first : Nat) : List Nat :=
  List.range' first (engine.maxDepth + 1 - first)

end Engine

structure Walk (ι σ : Type) where
  engine : Engine
  input : ι
  state : σ

/-- Walking changes all of it also when it fails. -/
abbrev Walking (ι σ ε : Type) := ExceptT (Stop (Failure ε)) (StateM (Walk ι σ))

namespace Walking

variable {ι σ ε α : Type}

def callback (call : ExceptT ε (StateM σ) α) : Walking ι σ ε α := do
  let walk ← get
  let (result, state) := call.run walk.state
  set { walk with state }
  match result with
  | .ok value => return value
  | .error cause => throw (.failed (.handler cause))

def check (result : Except Error α) : Walking ι σ ε α :=
  match result with
  | .ok value => return value
  | .error cause => throw (.failed (.input cause))

def raise (result : Except (Stop Error) α) : Walking ι σ ε α :=
  ofExcept (result.mapError (.map .input))

def count (change : Stats → Stats) : Walking ι σ ε Unit :=
  modify fun walk => { walk with engine.stats := change walk.engine.stats }

variable [SortedGroups ι] (handler : Handler σ ε)

def nextKey : Walking ι σ ε (Option Tuple) := do
  let walk ← get
  let (result, input) := (SortedGroups.nextKey (σ := ι)).run walk.input
  set { walk with input }
  check result

def takePrevious : Walking ι σ ε (Option GroupKey) := do
  let walk ← get
  set { walk with engine.previous := none }
  return walk.engine.previous

def openGroup (key : GroupKey) (depth : Nat) : Walking ι σ ε Unit := do
  let field := (← get).engine.order.fieldName depth
  callback (handler.openGroup depth field key)
  count fun stats => { stats with opened := stats.opened + 1 }

def closeGroup (key : GroupKey) (depth : Nat) : Walking ι σ ε Unit := do
  let field := (← get).engine.order.fieldName depth
  callback (handler.closeGroup depth field key)
  count fun stats => { stats with closed := stats.closed + 1 }

/-- Closes what the key before has open and the new key has not; gives the depth from which the new
key's groups are to be opened. -/
def closeMismatch (key : GroupKey) : Walking ι σ ε Nat := do
  let previous ← takePrevious
  let engine := (← get).engine
  match engine.phase, previous with
  | .inGroup, some previous =>
      let first ← check (engine.mismatch previous key)
      (engine.depthsFrom first).reverse.forM (closeGroup handler previous)
      return first
  | _, _ =>
      modify fun walk => { walk with engine.phase := .inGroup }
      return engine.minDepth

def leaf (key : GroupKey) : Walking ι σ ε Unit := do
  let walk ← get
  let elements := Elements.ofInput walk.input
  let (elements, state) := handler.read (elements.bound + handler.patience) elements
    (handler.enter key walk.state)
  set { walk with input := elements.input, state }
  callback (handler.leave key elements.yielded)
  let (drained, elements) := elements.drain (elements.bound + 1)
  modify fun walk => { walk with input := elements.input }
  let drained ← raise drained
  count fun stats => { stats with
    groups := stats.groups + 1
    elements := stats.elements + elements.yielded
    drained := stats.drained + drained }

def onKey (key : GroupKey) : Walking ι σ ε Unit := do
  let first ← closeMismatch handler key
  let engine := (← get).engine
  (engine.depthsFrom first).forM (openGroup handler key)
  leaf handler key
  modify fun walk => { walk with engine.previous := some key }

def groups : Nat → Walking ι σ ε Unit
  | 0 => throw .overrun
  | limit + 1 => do
      match ← nextKey with
      | none => return ()
      | some tuple =>
          let key ← check (GroupKey.ofTuple (← get).engine.order.plan tuple)
          onKey handler key
          groups limit

def finish : Walking ι σ ε Unit := do
  let previous ← takePrevious
  if let some previous := previous then
    let engine := (← get).engine
    (engine.depthsFrom engine.minDepth).reverse.forM (closeGroup handler previous)
  modify fun walk => { walk with engine.phase := .done }

def run (context : Context) : Walking ι σ ε Stats := do
  if (← get).engine.phase = .done then throw (.failed .finished)
  callback (handler.setup context)
  groups handler (SortedGroups.bound (← get).input + 1)
  finish handler
  callback (handler.cleanup context)
  return (← get).engine.stats

end Walking

end Rollup

end Cogrouping
