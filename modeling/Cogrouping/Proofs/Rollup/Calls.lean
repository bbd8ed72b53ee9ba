import Cogrouping.Proofs.Stream
import Cogrouping.Rollup.Engine

/-!
The calls that a walk makes of its handler, and what they do to a handler that never fails. Such a
handler takes as many tuples of a key as it wants, and the walk passes over the others.
-/

namespace Cogrouping

inductive Rollup.Call
  | setup (context : Context)
  | openGroup (depth : Nat) (field : String) (key : GroupKey)
  | closeGroup (depth : Nat) (field : String) (key : GroupKey)
  | elements (key : GroupKey) (tuples : List Tuple)
  | cleanup (context : Context)
  deriving DecidableEq

namespace Handler

open Rollup

variable {σ ε : Type} (handler : Handler σ ε)

def taken (tuples : List Tuple) (state : σ) : σ :=
  tuples.foldl (fun state tuple => handler.receive (some (.ok tuple)) state) state

def settled : Nat → σ → σ
  | 0, state => state
  | limit + 1, state =>
      if handler.wants state then settled limit (handler.receive none state) else state

def readThrough (key : GroupKey) (tuples : List Tuple) (state : σ) : σ :=
  handler.settled (handler.patience + 1) (handler.taken tuples (handler.enter key state))

def after (state : σ) : Call → σ
  | .setup context => ((handler.setup context).run state).2
  | .openGroup depth field key => ((handler.openGroup depth field key).run state).2
  | .closeGroup depth field key => ((handler.closeGroup depth field key).run state).2
  | .elements key tuples =>
      ((handler.leave key tuples.length).run (handler.readThrough key tuples state)).2
  | .cleanup context => ((handler.cleanup context).run state).2

/-- A handler never fails, and it asks for tuples until it is told of the end of their group. -/
structure Thorough : Prop where
  setup : ∀ context state, ((handler.setup context).run state).1 = .ok ()
  openGroup : ∀ depth field key state, ((handler.openGroup depth field key).run state).1 = .ok ()
  closeGroup : ∀ depth field key state, ((handler.closeGroup depth field key).run state).1 = .ok ()
  leave : ∀ key count state, ((handler.leave key count).run state).1 = .ok ()
  cleanup : ∀ context state, ((handler.cleanup context).run state).1 = .ok ()
  asks : ∀ key tuples state, handler.wants (handler.taken tuples (handler.enter key state)) = true
  stops : ∀ key tuples state, handler.wants (handler.readThrough key tuples state) = false

/-- How many tuples of a key a handler takes, and the state it is left in: it asks while it wants to, at
the end as often as it may. -/
def browse : List Tuple → σ → Nat × σ
  | [], state => (0, handler.settled (handler.patience + 1) state)
  | tuple :: tuples, state =>
      if handler.wants state then
        let (count, last) := browse tuples (handler.receive (some (.ok tuple)) state)
        (count + 1, last)
      else (0, state)

def respond (state : σ) : Call → σ
  | .elements key tuples =>
      let (count, last) := handler.browse tuples (handler.enter key state)
      ((handler.leave key count).run last).2
  | call => handler.after state call

def unread (state : σ) : Call → Nat
  | .elements key tuples => tuples.length - (handler.browse tuples (handler.enter key state)).1
  | _ => 0

def unreadAll : σ → List Call → Nat
  | _, [] => 0
  | state, call :: calls => handler.unread state call + unreadAll (handler.respond state call) calls

/-- A handler never fails, and it comes to an end with the tuples of every key. -/
structure Unfailing : Prop where
  setup : ∀ context state, ((handler.setup context).run state).1 = .ok ()
  openGroup : ∀ depth field key state, ((handler.openGroup depth field key).run state).1 = .ok ()
  closeGroup : ∀ depth field key state, ((handler.closeGroup depth field key).run state).1 = .ok ()
  leave : ∀ key count state, ((handler.leave key count).run state).1 = .ok ()
  cleanup : ∀ context state, ((handler.cleanup context).run state).1 = .ok ()
  ends : ∀ key tuples state,
    handler.wants (handler.browse tuples (handler.enter key state)).2 = false

variable {handler}

theorem unreadAll_append (state : σ) (calls others : List Call) :
    handler.unreadAll state (calls ++ others) =
      handler.unreadAll state calls + handler.unreadAll (calls.foldl handler.respond state) others := by
  induction calls generalizing state with
  | nil => exact (Nat.zero_add _).symm
  | cons call calls ih => rw [List.cons_append, unreadAll, unreadAll, ih, List.foldl_cons, Nat.add_assoc]

theorem browse_le (tuples : List Tuple) (state : σ) :
    (handler.browse tuples state).1 ≤ tuples.length := by
  induction tuples generalizing state with
  | nil => exact Nat.le_refl 0
  | cons tuple tuples ih =>
      rw [browse, List.length_cons]
      split
      · exact Nat.succ_le_succ (ih _)
      · exact Nat.zero_le _

theorem browse_eq {state : σ} (asks : ∀ taken, handler.wants (handler.taken taken state) = true)
    (tuples : List Tuple) : handler.browse tuples state =
      (tuples.length, handler.settled (handler.patience + 1) (handler.taken tuples state)) := by
  induction tuples generalizing state with
  | nil => rfl
  | cons tuple tuples ih =>
      have wants : handler.wants state = true := asks []
      rw [browse, if_pos wants, ih fun taken => asks (tuple :: taken)]
      rfl

namespace Thorough

variable (thorough : handler.Thorough)

include thorough

theorem browse_eq (key : GroupKey) (tuples : List Tuple) (state : σ) :
    handler.browse tuples (handler.enter key state) =
      (tuples.length, handler.readThrough key tuples state) :=
  Handler.browse_eq (fun taken => thorough.asks key taken state) tuples

theorem unfailing : handler.Unfailing where
  setup := thorough.setup
  openGroup := thorough.openGroup
  closeGroup := thorough.closeGroup
  leave := thorough.leave
  cleanup := thorough.cleanup
  ends key tuples state := by
    rw [thorough.browse_eq]
    exact thorough.stops key tuples state

theorem respond_eq : handler.respond = handler.after := by
  funext state call
  cases call with
  | elements key tuples => rw [respond, thorough.browse_eq, after]
  | _ => rfl

theorem unreadAll_eq (state : σ) (calls : List Call) : handler.unreadAll state calls = 0 := by
  induction calls generalizing state with
  | nil => rfl
  | cons call calls ih =>
      rw [unreadAll, ih, Nat.add_zero]
      cases call with
      | elements key tuples => rw [unread, thorough.browse_eq, Nat.sub_self]
      | _ => rfl

end Thorough

end Handler

variable {ι : Type} [SortedGroups ι]

namespace Elements

inductive Leaves : Elements ι → List Tuple → ι → Prop
  | ended {elements : Elements ι} : elements.finished = true → Leaves elements [] elements.input
  | going {elements : Elements ι} {tuples : List Tuple} {last : ι} : elements.finished = false →
      Yields elements.input tuples last → Leaves elements tuples last

theorem next_finished {elements : Elements ι} (finished : elements.finished = true) :
    elements.next = (none, elements) := by
  rw [next, if_pos finished]

theorem next_end {elements : Elements ι} {last : ι} (going : elements.finished = false)
    (asked : outcome (SortedGroups.nextValue (σ := ι)) elements.input = (.ok none, last)) :
    elements.next = (none, { elements with input := last, finished := true }) := by
  rw [outcome] at asked
  simp [next, going, asked]

theorem next_value {elements : Elements ι} {tuple : Tuple} {between : ι}
    (going : elements.finished = false)
    (asked : outcome (SortedGroups.nextValue (σ := ι)) elements.input = (.ok (some tuple), between)) :
    elements.next = (some (.ok tuple),
      { elements with input := between, yielded := elements.yielded + 1 }) := by
  rw [outcome] at asked
  simp [next, going, asked]

theorem Leaves.length_le [BoundedGroups ι] {elements : Elements ι} {tuples : List Tuple} {last : ι}
    (leaves : elements.Leaves tuples last) : tuples.length ≤ SortedGroups.bound elements.input := by
  cases leaves with
  | ended => exact Nat.zero_le _
  | going _ yields => exact BoundedGroups.values_le yields

theorem drain_yields {input last : ι} {tuples : List Tuple} (yields : Yields input tuples last)
    {limit : Nat} (enough : tuples.length < limit) (yielded : Nat) :
    drain limit { input, finished := false, yielded } = (.ok tuples.length,
      { input := last, finished := true, yielded := yielded + tuples.length }) := by
  induction yields generalizing limit yielded with
  | done asked =>
      obtain ⟨rest, rfl⟩ : ∃ rest, limit = rest + 1 := ⟨limit - 1, by omega⟩
      rw [drain, next_end rfl asked]
      rfl
  | value asked _ ih =>
      rw [List.length_cons] at enough ⊢
      obtain ⟨rest, rfl⟩ : ∃ rest, limit = rest + 1 := ⟨limit - 1, by omega⟩
      have later := ih (by omega : _ < rest) (yielded + 1)
      rw [drain, next_value rfl asked]
      simp only [later, Except.map, Nat.add_assoc, Nat.add_comm 1]

theorem drain_leaves {elements : Elements ι} {tuples : List Tuple} {last : ι}
    (leaves : elements.Leaves tuples last) {limit : Nat} (enough : tuples.length < limit) :
    elements.drain limit = (.ok tuples.length,
      { input := last, finished := true, yielded := elements.yielded + tuples.length }) := by
  obtain ⟨input, finished, yielded⟩ := elements
  cases leaves with
  | ended ended =>
      cases ended
      obtain ⟨rest, rfl⟩ : ∃ rest, limit = rest + 1 := ⟨limit - 1, by omega⟩
      rw [drain, next_finished rfl]
      rfl
  | going going yields =>
      cases going
      exact drain_yields yields enough yielded

end Elements

namespace Handler

variable {σ ε : Type} {handler : Handler σ ε}

theorem read_finished {elements : Elements ι} (finished : elements.finished = true)
    {asked limit : Nat} (enough : asked ≤ limit) {state : σ}
    (stops : handler.wants (handler.settled asked state) = false) :
    handler.read limit elements state = (elements, handler.settled asked state) := by
  induction asked generalizing limit state with
  | zero =>
      have content : handler.wants state = false := stops
      cases limit with
      | zero => rfl
      | succ limit => simp [read, content, settled]
  | succ asked ih =>
      obtain ⟨rest, rfl⟩ : ∃ rest, limit = rest + 1 := ⟨limit - 1, by omega⟩
      rw [settled] at stops ⊢
      by_cases wants : handler.wants state = true
      · rw [if_pos wants] at stops ⊢
        rw [read, if_pos wants, Elements.next_finished finished]
        exact ih (by omega) stops
      · rw [if_neg wants]
        rw [read, if_neg wants]

theorem read_yields {input last : ι} {tuples : List Tuple} (yields : Yields input tuples last)
    {limit : Nat} (enough : tuples.length + handler.patience + 1 ≤ limit) {state : σ}
    (ends : handler.wants (handler.browse tuples state).2 = false) (yielded : Nat) :
    ∃ elements : Elements ι,
      handler.read limit { input, finished := false, yielded } state =
        (elements, (handler.browse tuples state).2) ∧
      elements.yielded = yielded + (handler.browse tuples state).1 ∧
      elements.Leaves (tuples.drop (handler.browse tuples state).1) last := by
  induction yields generalizing limit state yielded with
  | @done input last asked =>
      obtain ⟨rest, rfl⟩ : ∃ rest, limit = rest + 1 := ⟨limit - 1, by omega⟩
      rw [read]
      by_cases wants : handler.wants state = true
      · have settles : (handler.browse [] state).2 =
            handler.settled handler.patience (handler.receive none state) := by
          rw [browse, settled, if_pos wants]
        rw [settles] at ends ⊢
        rw [if_pos wants, Elements.next_end rfl asked]
        refine ⟨_, read_finished rfl ?_ ends, rfl, .ended rfl⟩
        rw [List.length_nil] at enough
        omega
      · have settles : (handler.browse [] state).2 = state := by
          rw [browse, settled, if_neg wants]
        rw [if_neg wants, settles]
        exact ⟨_, rfl, rfl, .going rfl (.done asked)⟩
  | @value input between last tuple tuples asked yields ih =>
      obtain ⟨rest, rfl⟩ : ∃ rest, limit = rest + 1 := ⟨limit - 1, by omega⟩
      rw [List.length_cons] at enough
      rw [read, browse] at *
      by_cases wants : handler.wants state = true
      · rw [if_pos wants] at ends ⊢
        obtain ⟨elements, reads, count, leaves⟩ := ih (by omega : _ ≤ rest) ends (yielded + 1)
        rw [if_pos wants, Elements.next_value rfl asked]
        refine ⟨elements, reads, ?_, leaves⟩
        rw [count, Nat.add_assoc, Nat.add_comm 1]
      · rw [if_neg wants, if_neg wants]
        exact ⟨_, rfl, rfl, .going rfl (.value asked yields)⟩

end Handler

end Cogrouping
