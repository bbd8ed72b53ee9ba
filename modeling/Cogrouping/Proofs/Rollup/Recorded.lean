import Cogrouping.Proofs.Rollup.Coupled

/-!
The calls that a walk makes of a handler, whatever that does. A handler that fails in one of its calls
cuts the walk there: it has got the calls up to this one, and it gets no other.
-/

namespace Cogrouping

open Rollup

structure Recorded (σ : Type) where
  state : σ
  calls : List Call
  given : List Tuple

variable {σ ε : Type}

namespace Recorded

def fresh (state : σ) : Recorded σ := ⟨state, [], []⟩

def perform (fault : Nat → Option ε) (call : List Tuple → Call) (action : ExceptT ε (StateM σ) Unit) :
    ExceptT ε (StateM (Recorded σ)) Unit := do
  let seen ← get
  let (result, state) := action.run seen.state
  let calls := seen.calls ++ [call seen.given]
  set { seen with state, calls }
  match fault calls.length with
  | some cause => throw cause
  | none => ofExcept result

def failsAt (number : Nat) (cause : ε) (call : Nat) : Option ε :=
  if call = number then some cause else none

theorem outcome_perform (fault : Nat → Option ε) (call : List Tuple → Call)
    (action : ExceptT ε (StateM σ) Unit) (seen : Recorded σ) :
    outcome (perform fault call action) seen =
      ((fault (seen.calls.length + 1)).elim (outcome action seen.state).1 .error,
        { seen with
          state := (outcome action seen.state).2
          calls := seen.calls ++ [call seen.given] }) := by
  rw [perform, outcome_bind_of_ok (outcome_get seen)]
  have run : action.run seen.state = outcome action seen.state := rfl
  simp only [run, List.length_append, List.length_singleton]
  rw [outcome_bind_of_ok (outcome_set _ seen)]
  cases fault (seen.calls.length + 1) with
  | none => exact outcome_ofExcept _ _
  | some cause => exact outcome_throw _ _

end Recorded

namespace Handler

variable (handler : Handler σ ε)

def interrupted (fault : Nat → Option ε) : Handler (Recorded σ) ε where
  setup context := Recorded.perform fault (fun _ => .setup context) (handler.setup context)
  openGroup depth field key :=
    Recorded.perform fault (fun _ => .openGroup depth field key) (handler.openGroup depth field key)
  closeGroup depth field key :=
    Recorded.perform fault (fun _ => .closeGroup depth field key) (handler.closeGroup depth field key)
  enter key seen := { seen with state := handler.enter key seen.state, given := [] }
  wants seen := handler.wants seen.state
  receive answer seen :=
    { seen with
      state := handler.receive answer seen.state
      given := match answer with
        | some (.ok tuple) => seen.given ++ [tuple]
        | _ => seen.given }
  patience := handler.patience
  leave key count := Recorded.perform fault (.elements key) (handler.leave key count)
  cleanup context := Recorded.perform fault (fun _ => .cleanup context) (handler.cleanup context)

def recorded : Handler (Recorded σ) ε := handler.interrupted fun _ => none

def failing (number : Nat) (cause : ε) : Handler (Recorded σ) ε :=
  handler.interrupted (Recorded.failsAt number cause)

end Handler

namespace Rollup

def Call.Inner : Call → Prop
  | setup _ => False
  | cleanup _ => False
  | _ => True

def Underway (context : Context) (calls : List Call) : Prop :=
  ∃ inner, (∀ call ∈ inner, call.Inner) ∧ calls = .setup context :: inner

def Complete (context : Context) (calls : List Call) : Prop :=
  ∃ before, Underway context before ∧ calls = before ++ [.cleanup context]

theorem Underway.ne_nil {context : Context} {calls : List Call} (underway : Underway context calls) :
    calls ≠ [] := by
  obtain ⟨inner, _, rfl⟩ := underway
  simp

theorem Underway.of_prefix {context : Context} {calls leading : List Call}
    (underway : Underway context calls) (leads : leading <+: calls) (some : leading ≠ []) :
    Underway context leading := by
  obtain ⟨inner, all, rfl⟩ := underway
  obtain ⟨behind, whole⟩ := leads
  cases leading with
  | nil => exact absurd rfl some
  | cons first rest =>
      obtain ⟨rfl, rfl⟩ := List.cons.inj whole
      exact ⟨rest, fun call member => all call (List.mem_append_left _ member), rfl⟩

theorem Underway.not_cleanup {context : Context} {calls : List Call} (underway : Underway context calls)
    (other : Context) : .cleanup other ∉ calls := by
  obtain ⟨inner, all, rfl⟩ := underway
  intro member
  rcases List.mem_cons.mp member with same | inside
  · cases same
  · exact all _ inside

end Rollup

namespace Recorded

def Alike (fits : List Call → Prop) (left right : Recorded σ) : Prop := right = left ∧ fits left.calls

def Behind (behind : List Call → ε × List Call → Prop) (left : Recorded σ) (stopped : ε × Recorded σ) :
    Prop :=
  behind left.calls (stopped.1, stopped.2.calls)

variable (call : List Tuple → Call) (action : ExceptT ε (StateM σ) Unit)

theorem coupled_plain :
    Coupled (fun state (seen : Recorded σ) => seen.state = state) (fun _ _ => False) action
      (perform (fun _ => none) call action) where
  follows := by
    rintro state seen rfl
    rw [outcome_perform]
    exact .inl ⟨_, rfl, rfl⟩
  keeps _ _ := id

theorem coupled_perform {fault : Nat → Option ε} {fits : List Call → Prop}
    {behind : List Call → ε × List Call → Prop}
    (goes : ∀ given calls, fits calls → fault (calls.length + 1) = none → fits (calls ++ [call given]))
    (stops : ∀ call calls cause, fits calls → fault (calls.length + 1) = some cause →
      behind (calls ++ [call]) (cause, calls ++ [call]))
    (keeps : ∀ call calls stopped, behind calls stopped → behind (calls ++ [call]) stopped) :
    Coupled (Alike fits) (Behind behind) (perform (fun _ => none) call action)
      (perform fault call action) := by
  constructor
  · rintro _ seen ⟨rfl, held⟩
    rw [outcome_perform, outcome_perform]
    cases told : fault (seen.calls.length + 1) with
    | none => exact .inl ⟨_, rfl, rfl, goes _ _ held told⟩
    | some cause => exact .inr ⟨cause, _, rfl, stops _ _ _ held told⟩
  · intro seen stopped held
    rw [outcome_perform]
    exact keeps _ _ _ held

end Recorded

namespace Handler

theorem outcome_recorded_setup (handler : Handler σ ε) (context : Context) (seen : Recorded σ) :
    outcome (handler.recorded.setup context) seen =
      ((outcome (handler.setup context) seen.state).1,
        { seen with
          state := (outcome (handler.setup context) seen.state).2
          calls := seen.calls ++ [.setup context] }) :=
  Recorded.outcome_perform (fun _ => none) (fun _ => .setup context) (handler.setup context) seen

theorem outcome_recorded_cleanup (handler : Handler σ ε) (context : Context) (seen : Recorded σ) :
    outcome (handler.recorded.cleanup context) seen =
      ((outcome (handler.cleanup context) seen.state).1,
        { seen with
          state := (outcome (handler.cleanup context) seen.state).2
          calls := seen.calls ++ [.cleanup context] }) :=
  Recorded.outcome_perform (fun _ => none) (fun _ => .cleanup context) (handler.cleanup context) seen

theorem coupled_recorded (handler : Handler σ ε) :
    handler.Coupled (fun state seen => seen.state = state) (fun _ _ => False) handler.recorded where
  openGroup depth field key := Recorded.coupled_plain (fun _ => .openGroup depth field key) _
  closeGroup depth field key := Recorded.coupled_plain (fun _ => .closeGroup depth field key) _
  leave key _ := Recorded.coupled_plain (.elements key) _
  patience := rfl
  wants _ _ same := congrArg handler.wants same
  enter key _ _ same := congrArg (handler.enter key) same
  receive answer _ _ same := congrArg (handler.receive answer) same
  enter_keeps _ _ _ := id
  receive_keeps _ _ _ := id

/-- A handler goes on as another does up to the call in which it is to fail. By then it has got the calls
that the other has got, and what holds of these goes on to hold. -/
theorem coupled_interrupted (handler : Handler σ ε) {fault : Nat → Option ε}
    {fits : List Call → Prop} {behind : List Call → ε × List Call → Prop}
    (goes : ∀ call calls, call.Inner → fits calls → fault (calls.length + 1) = none →
      fits (calls ++ [call]))
    (stops : ∀ call calls cause, fits calls → fault (calls.length + 1) = some cause →
      behind (calls ++ [call]) (cause, calls ++ [call]))
    (keeps : ∀ call calls stopped, behind calls stopped → behind (calls ++ [call]) stopped) :
    handler.recorded.Coupled (Recorded.Alike fits) (Recorded.Behind behind)
      (handler.interrupted fault) where
  openGroup depth field key :=
    Recorded.coupled_perform (fun _ => .openGroup depth field key) _ (fun _ _ => goes _ _ trivial)
      stops keeps
  closeGroup depth field key :=
    Recorded.coupled_perform (fun _ => .closeGroup depth field key) _ (fun _ _ => goes _ _ trivial)
      stops keeps
  leave key _ :=
    Recorded.coupled_perform (.elements key) _ (fun _ _ => goes _ _ trivial) stops keeps
  patience := rfl
  wants _ _ similar := congrArg handler.recorded.wants similar.1
  enter key _ _ similar := ⟨congrArg (handler.recorded.enter key) similar.1, similar.2⟩
  receive answer _ _ similar := ⟨congrArg (handler.recorded.receive answer) similar.1, similar.2⟩
  enter_keeps _ _ _ := id
  receive_keeps _ _ _ := id

end Handler

namespace Rollup.Walking

variable {ι : Type} (handler : Handler σ ε)

def closing : Walking ι σ ε Unit := do
  let previous ← takePrevious
  if let some previous := previous then
    let engine := (← get).engine
    (engine.depthsFrom engine.minDepth).reverse.forM (closeGroup handler previous)

def ending (context : Context) : Walking ι σ ε Stats := do
  modify fun walk => { walk with engine.phase := .done }
  callback (handler.cleanup context)
  return (← get).engine.stats

theorem finish_eq : (finish handler : Walking ι σ ε Unit) =
    closing handler >>= fun _ => modify fun walk => { walk with engine.phase := .done } := by
  rw [finish, closing, bind_assoc]
  congr 1
  funext previous
  cases previous <;> simp

theorem outcome_ending (context : Context) (walk : Walk ι σ) :
    outcome (ending handler context) walk =
      (((outcome (handler.cleanup context) walk.state).1.map fun _ => walk.engine.stats).mapError fun cause =>
          .failed (.handler cause),
        { walk with
          engine.phase := .done
          state := (outcome (handler.cleanup context) walk.state).2 }) := by
  rw [ending, outcome_bind_of_ok (outcome_modify _ walk), outcome_bind, outcome_callback_eq]
  generalize outcome (handler.cleanup context) walk.state = done
  obtain ⟨result, state⟩ := done
  cases result <;> rfl

variable [SortedGroups ι]

def within : Walking ι σ ε Unit := do
  groups handler (SortedGroups.bound (← get).input + 1)
  closing handler

def tour (context : Context) : Walking ι σ ε Unit := do
  callback (handler.setup context)
  within handler

theorem outcome_run_eq (context : Context) {walk : Walk ι σ} (awaits : walk.engine.phase ≠ .done) :
    outcome (run handler context) walk =
      outcome (tour handler context >>= fun _ => ending handler context) walk := by
  rw [run, outcome_bind_of_ok (outcome_get walk), if_neg awaits, finish_eq]
  simp only [tour, within, ending, bind_assoc]

theorem outcome_run_done (context : Context) {walk : Walk ι σ} (done : walk.engine.phase = .done) :
    outcome (run handler context) walk = (.error (.failed .finished), walk) := by
  rw [run, outcome_bind_of_ok (outcome_get walk), if_pos done]
  rfl

variable {τ : Type} {alike : σ → τ → Prop} {behind : σ → ε × τ → Prop}

theorem together_within {first : Handler σ ε} {second : Handler τ ε}
    (coupled : first.Coupled alike behind second) :
    Together alike behind (within first : Walking ι σ ε Unit) (within second) := by
  refine together_get fun left right _ sameInput => ?_
  rw [sameInput]
  refine (together_groups coupled _).bind fun _ => together_takePrevious.bind fun previous => ?_
  cases previous with
  | none => exact Coupled.pure _
  | some previous =>
      refine together_get fun left right sameEngine _ => ?_
      rw [sameEngine]
      exact Coupled.forM fun place => together_closeGroup coupled previous place

end Rollup.Walking

namespace Rollup

variable {ι : Type}

def Walk.watched (walk : Walk ι σ) : Walk ι (Recorded σ) := { walk with state := .fresh walk.state }

def Walk.forget (walk : Walk ι (Recorded σ)) : Walk ι σ := { walk with state := walk.state.state }

namespace Walking

variable [SortedGroups ι]

def callsOf (handler : Handler σ ε) (context : Context) (walk : Walk ι σ) : List Call :=
  (outcome (run handler.recorded context) walk.watched).2.state.calls

variable (handler : Handler σ ε) (context : Context)

omit [SortedGroups ι] in
theorem outcome_ending_forget (walk : Walk ι (Recorded σ)) :
    outcome (ending handler context) walk.forget =
      ((outcome (ending handler.recorded context) walk).1,
        (outcome (ending handler.recorded context) walk).2.forget) := by
  rw [outcome_ending, outcome_ending, handler.outcome_recorded_cleanup]
  rfl

theorem together_tour_recorded :
    Together (fun state seen => seen.state = state) (fun _ _ => False)
      (tour handler context : Walking ι σ ε Unit) (tour handler.recorded context) := by
  have setup := Recorded.coupled_plain (fun _ => .setup context) (handler.setup context)
  exact (together_callback setup).bind fun _ => together_within handler.coupled_recorded

theorem outcome_run_recorded (walk : Walk ι σ) :
    outcome (run handler context) walk =
      ((outcome (run handler.recorded context) walk.watched).1,
        (outcome (run handler.recorded context) walk.watched).2.forget) := by
  by_cases awaits : walk.engine.phase = .done
  · have watched : walk.watched.engine.phase = .done := awaits
    rw [outcome_run_done handler context awaits, outcome_run_done handler.recorded context watched]
    rfl
  · have watched : walk.watched.engine.phase ≠ .done := awaits
    rw [outcome_run_eq handler context awaits, outcome_run_eq handler.recorded context watched]
    rcases (together_tour_recorded handler context).follows walk walk.watched
      ⟨rfl, rfl, rfl, awaits⟩ with ⟨last, same, engine, input, state, _⟩ | ⟨_, _, _, _, _, _, never⟩
    · have plain : outcome (tour handler context) walk =
          ((outcome (tour handler context) walk).1, last.forget) := by
        rw [Walk.forget, engine, input, state]
      generalize (outcome (tour handler context) walk).1 = result at plain same
      cases result with
      | error cause => rw [outcome_bind_of_error plain, outcome_bind_of_error same]
      | ok =>
          rw [outcome_bind_of_ok plain, outcome_bind_of_ok same]
          exact outcome_ending_forget handler context last
    · exact never.elim

variable {walk : Walk ι σ} (awaits : walk.engine.phase ≠ .done)

include awaits

theorem underway_tour :
    Underway context (outcome (tour handler.recorded context) walk.watched).2.state.calls := by
  -- The walk beside itself: what holds of the calls as each is made holds of them when it ends.
  have coupled : handler.recorded.Coupled (Recorded.Alike (Underway context))
      (Recorded.Behind fun _ _ => False) handler.recorded := by
    refine handler.coupled_interrupted ?_ (fun _ _ _ _ told => by cases told) (fun _ _ _ => id)
    rintro call _ here ⟨inner, all, rfl⟩ _
    refine ⟨inner ++ [call], ?_, rfl⟩
    simpa [or_imp, forall_and] using ⟨all, here⟩
  let begun : Walk ι (Recorded σ) :=
    { walk with state := ⟨(outcome (handler.setup context) walk.state).2, [.setup context], []⟩ }
  have setup : outcome (callback (handler.recorded.setup context)) walk.watched =
      ((outcome (handler.setup context) walk.state).1.mapError fun cause => .failed (.handler cause), begun) := by
    rw [outcome_callback_eq, handler.outcome_recorded_setup]
    rfl
  have underway : Underway context begun.state.calls := ⟨[], by simp, rfl⟩
  cases done : (outcome (handler.setup context) walk.state).1 with
  | error cause =>
      rw [done] at setup
      rw [tour, outcome_bind_of_error setup]
      exact underway
  | ok =>
      rw [done] at setup
      rw [tour, outcome_bind_of_ok setup]
      rcases (together_within coupled).follows begun begun ⟨rfl, rfl, ⟨rfl, underway⟩, awaits⟩ with
        ⟨_, _, alike⟩ | ⟨_, _, _, _, _, _, never⟩
      · exact alike.state.2
      · exact never.elim

theorem callsOf_eq {result : Except (Stop (Failure ε)) Unit} {last : Walk ι (Recorded σ)}
    (toured : outcome (tour handler.recorded context) walk.watched = (result, last)) :
    callsOf handler context walk =
      last.state.calls ++ if result.isOk then [.cleanup context] else [] := by
  have watched : walk.watched.engine.phase ≠ .done := awaits
  rw [callsOf, outcome_run_eq handler.recorded context watched]
  cases result with
  | error cause =>
      rw [outcome_bind_of_error toured]
      exact (List.append_nil _).symm
  | ok =>
      rw [outcome_bind_of_ok toured, outcome_ending, handler.outcome_recorded_cleanup]
      rfl

theorem complete_of_ok {stats : Stats} {last : Walk ι σ}
    (ran : outcome (run handler context) walk = (.ok stats, last)) :
    Complete context (callsOf handler context walk) := by
  have underway := underway_tour handler context awaits
  cases toured : outcome (tour handler.recorded context) walk.watched with
  | mk result between =>
      rw [toured] at underway
      cases result with
      | error cause =>
          have watched : walk.watched.engine.phase ≠ .done := awaits
          rw [outcome_run_recorded, outcome_run_eq handler.recorded context watched,
            outcome_bind_of_error toured] at ran
          cases ran
      | ok => exact ⟨between.state.calls, underway, callsOf_eq handler context awaits toured⟩

theorem callsOf_ne_nil : callsOf handler context walk ≠ [] := by
  have underway := underway_tour handler context awaits
  rw [callsOf_eq handler context awaits rfl]
  exact List.append_ne_nil_of_left_ne_nil underway.ne_nil _

omit awaits in
theorem finished_iff : outcome (run handler.recorded context) walk.watched =
    (.error (.failed .finished), walk.watched) ↔ walk.engine.phase = .done := by
  constructor
  · intro unchanged
    by_contra awaits
    refine callsOf_ne_nil handler context awaits ?_
    rw [callsOf, unchanged]
    rfl
  · intro ended
    have watched : walk.watched.engine.phase = .done := ended
    exact outcome_run_done handler.recorded context watched

end Walking

end Rollup

end Cogrouping
