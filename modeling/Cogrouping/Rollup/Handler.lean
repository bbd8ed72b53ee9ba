import Cogrouping.Rollup.Key
import Cogrouping.Stream

/-!
Handlers of groups, and the tuples of a group as a handler gets them: one after the other, as often as
it asks.
-/

namespace Cogrouping

structure Context where
  plan : Plan
  partition : PartitionId
  deriving DecidableEq

structure Elements (σ : Type) where
  input : σ
  /-- Whether the end or a failure has been reached; nothing comes after either. -/
  finished : Bool
  yielded : Nat

namespace Elements

variable {σ : Type} [SortedGroups σ]

def ofInput (input : σ) : Elements σ := { input, finished := false, yielded := 0 }

def next (elements : Elements σ) : Option (Except Error Tuple) × Elements σ :=
  if elements.finished then (none, elements)
  else
    match (SortedGroups.nextValue (σ := σ)).run elements.input with
    | (.ok (some tuple), input) =>
        (some (.ok tuple), { elements with input, yielded := elements.yielded + 1 })
    | (.ok none, input) => (none, { elements with input, finished := true })
    | (.error error, input) => (some (.error error), { elements with input, finished := true })

def bound (elements : Elements σ) : Nat := SortedGroups.bound elements.input + 1

/-- Passes over what is left, fewer than `limit` tuples; gives their number. -/
def drain : Nat → Elements σ → Except (Stop Error) Nat × Elements σ
  | 0, elements => (.error .overrun, elements)
  | limit + 1, elements =>
      match elements.next with
      | (none, elements) => (.ok 0, elements)
      | (some (.error error), elements) => (.error (.failed error), elements)
      | (some (.ok _), elements) =>
          let (count, elements) := drain limit elements
          (count.map (· + 1), elements)

end Elements

/-- What is done with groups. A callback changes the handler's state `σ` also when it fails, with a
failure of type `ε`. -/
structure Handler (σ ε : Type) where
  setup : Context → ExceptT ε (StateM σ) Unit := fun _ => pure ()
  openGroup : Nat → String → GroupKey → ExceptT ε (StateM σ) Unit := fun _ _ _ => pure ()
  closeGroup : Nat → String → GroupKey → ExceptT ε (StateM σ) Unit := fun _ _ _ => pure ()
  enter : GroupKey → σ → σ := fun _ state => state
  wants : σ → Bool
  receive : Option (Except Error Tuple) → σ → σ
  patience : Nat := 0
  leave : GroupKey → Nat → ExceptT ε (StateM σ) Unit := fun _ _ => pure ()
  cleanup : Context → ExceptT ε (StateM σ) Unit := fun _ => pure ()

namespace Handler

variable {σ ε ι : Type} [SortedGroups ι]

def read (handler : Handler σ ε) : Nat → Elements ι → σ → Elements ι × σ
  | 0, elements, state => (elements, state)
  | limit + 1, elements, state =>
      if handler.wants state then
        let (answer, elements) := elements.next
        read handler limit elements (handler.receive answer state)
      else (elements, state)

end Handler

/-- Makers of handlers, by the names that jobs refer to. Making a handler may change the state that
handlers share. -/
structure Handlers (σ ε : Type) where
  byName : Dictionary String (StateM σ (Handler σ ε))

namespace Handlers

variable {σ ε : Type}

def empty : Handlers σ ε := ⟨∅⟩

def register (handlers : Handlers σ ε) (name : String) (make : StateM σ (Handler σ ε)) :
    Handlers σ ε :=
  ⟨handlers.byName.insert name make⟩

def find? (handlers : Handlers σ ε) (name : String) : Option (StateM σ (Handler σ ε)) :=
  handlers.byName.find? name

def contains (handlers : Handlers σ ε) (name : String) : Bool := handlers.byName.contains name

def names (handlers : Handlers σ ε) : List String := handlers.byName.keys

def describe (handlers : Handlers σ ε) : String :=
  "Registry \x7b handlers: " ++ Quoted.list handlers.names ++ " \x7d"

end Handlers

end Cogrouping
