import Cogrouping.Proofs.Rollup.Brackets
import Cogrouping.Proofs.Rollup.Recorded
import Mathlib.Data.List.Infix

/-!
Where a callback fails, the walk ends: the calls are those up to the failing one, and nothing is closed or
cleaned up on the way out. Only the cleanup fails when the walk is already over.
-/

namespace Cogrouping

def Visits.secondKey : GroupKey := valueOf (GroupKey.ofTuple plan (visit "b" 1 1)) (by decide +kernel)

namespace Rollup

/-- A handler has failed for a cause in the call of a number, and these were its calls up to then. -/
def Cut {ε : Type} (number : Nat) (cause : ε) (calls : List Call) (stopped : ε × List Call) : Prop :=
  stopped.1 = cause ∧ stopped.2.length = number ∧ stopped.2 <+: calls

namespace Walking

variable {ι σ ε : Type} [SortedGroups ι] (handler : Handler σ ε) (context : Context) {number : Nat}
  (cause : ε)

theorem together_tour_failing : Together (Recorded.Alike (·.length < number))
    (Recorded.Behind (Cut number cause)) (tour handler.recorded context : Walking ι _ ε Unit)
    (tour (handler.failing number cause) context) := by
  have goes : ∀ call (calls : List Call), calls.length < number →
      Recorded.failsAt number cause (calls.length + 1) = none →
      (calls ++ [call]).length < number := by
    intro call calls short told
    have other : calls.length + 1 ≠ number := by simpa [Recorded.failsAt] using told
    rw [List.length_append, List.length_singleton]
    omega
  have stops : ∀ call (calls : List Call) told, calls.length < number →
      Recorded.failsAt number cause (calls.length + 1) = some told →
      Cut number cause (calls ++ [call]) (told, calls ++ [call]) := by
    intro call calls told short reached
    obtain ⟨last, same⟩ := Option.ite_none_right_eq_some.mp reached
    exact ⟨(Option.some.inj same).symm, by simpa using last, List.prefix_refl _⟩
  have keeps : ∀ call calls stopped, Cut number cause calls stopped →
      Cut number cause (calls ++ [call]) stopped :=
    fun call calls stopped cut => ⟨cut.1, cut.2.1, cut.2.2.trans (List.prefix_append calls [call])⟩
  have setup : Coupled (Recorded.Alike (·.length < number)) (Recorded.Behind (Cut number cause))
      (handler.recorded.setup context) ((handler.failing number cause).setup context) :=
    Recorded.coupled_perform (fun _ => .setup context) (handler.setup context) (fun _ => goes _) stops
      keeps
  have inner : handler.recorded.Coupled (Recorded.Alike (·.length < number))
      (Recorded.Behind (Cut number cause)) (handler.failing number cause) :=
    handler.coupled_interrupted (fun call calls _ => goes call calls) stops keeps
  exact (together_callback setup).bind fun _ => together_within inner

theorem outcome_tour_failing {walk : Walk ι σ} (awaits : walk.engine.phase ≠ .done)
    (positive : 0 < number) {result : Except (Stop (Failure ε)) Unit} {last : Walk ι (Recorded σ)}
    (toured : outcome (tour handler.recorded context) walk.watched = (result, last)) :
    (last.state.calls.length < number ∧
      outcome (tour (handler.failing number cause) context) walk.watched = (result, last)) ∨
    ∃ stopped, outcome (tour (handler.failing number cause) context) walk.watched =
        (.error (.failed (.handler cause)), stopped) ∧
      stopped.engine.phase ≠ .done ∧ stopped.state.calls.length = number ∧
      stopped.state.calls <+: last.state.calls := by
  have side := (together_tour_failing handler context cause).follows walk.watched walk.watched
    ⟨rfl, rfl, ⟨rfl, positive⟩, awaits⟩
  rw [toured] at side
  rcases side with ⟨other, same, alike⟩ | ⟨failure, stopped, failed, going, _, rfl, rfl, length, leading⟩
  · obtain ⟨engine, input, state⟩ := other
    obtain ⟨rfl, rfl, ⟨rfl, short⟩, _⟩ := alike
    exact .inl ⟨short, same⟩
  · exact .inr ⟨stopped, failed, going, length, leading⟩

omit [SortedGroups ι] in
theorem outcome_ending_failing {walk : Walk ι (Recorded σ)}
    (reached : walk.state.calls.length + 1 = number) :
    outcome (ending (handler.failing number cause) context) walk =
      (.error (.failed (.handler cause)),
        { walk with
          engine.phase := .done
          state := { walk.state with
            state := (outcome (handler.cleanup context) walk.state.state).2
            calls := walk.state.calls ++ [.cleanup context] } }) := by
  have cleanup : outcome ((handler.failing number cause).cleanup context) walk.state = _ :=
    Recorded.outcome_perform (Recorded.failsAt number cause) (fun _ => .cleanup context)
      (handler.cleanup context) walk.state
  have told : Recorded.failsAt number cause (walk.state.calls.length + 1) = some cause := if_pos reached
  rw [outcome_ending, cleanup, told]
  rfl

theorem exists_stopped {walk : Walk ι σ} (awaits : walk.engine.phase ≠ .done) (positive : 0 < number)
    (within : number ≤ (callsOf handler context walk).length) :
    ∃ stopped, outcome (run (handler.failing number cause) context) walk.watched =
        (.error (.failed (.handler cause)), stopped) ∧
      stopped.state.calls = (callsOf handler context walk).take number ∧
      ((stopped.engine.phase ≠ .done ∧ Underway context stopped.state.calls) ∨
        stopped.engine.phase = .done ∧ Complete context stopped.state.calls) := by
  have watched : walk.watched.engine.phase ≠ .done := awaits
  have underway := underway_tour handler context awaits
  cases toured : outcome (tour handler.recorded context) walk.watched with
  | mk result last =>
      rw [toured] at underway
      have calls := callsOf_eq handler context awaits toured
      rcases outcome_tour_failing handler context cause awaits positive toured with
        ⟨short, same⟩ | ⟨stopped, failed, going, length, leads⟩
      · cases result with
        | error failure =>
            rw [calls, List.length_append] at within
            simp [Except.isOk, Except.toBool] at within
            omega
        | ok =>
            have whole : callsOf handler context walk = last.state.calls ++ [.cleanup context] := calls
            have reached : number = last.state.calls.length + 1 := by
              rw [whole, List.length_append, List.length_singleton] at within
              omega
            have ended := outcome_ending_failing handler context cause reached.symm
            have failed := (outcome_run_eq (handler.failing number cause) context watched).trans
              ((outcome_bind_of_ok same).trans ended)
            refine ⟨_, failed, ?_, .inr ⟨rfl, last.state.calls, underway, rfl⟩⟩
            rw [whole, reached, List.take_of_length_le (by simp)]
      · have leading : last.state.calls <+: callsOf handler context walk := by
          rw [calls]
          exact List.prefix_append _ _
        have some : stopped.state.calls ≠ [] := by
          apply List.ne_nil_of_length_pos
          omega
        refine ⟨stopped, ?_, ?_, .inl ⟨going, underway.of_prefix leads some⟩⟩
        · rw [outcome_run_eq _ context watched, outcome_bind_of_error failed]
        · rw [← length]
          exact List.prefix_iff_eq_take.mp (leads.trans leading)

/-- A handler that fails in its call of some number gets just the calls up to that one, and a new walk
fails for the same cause. It is over only if that call was the cleanup, and so it cannot be walked again. -/
theorem run_failing (order : GroupOrder) (input : ι) (state : σ) (positive : 0 < number)
    (within : number ≤ (callsOf handler context ⟨.ofOrder order, input, state⟩).length) :
    ∃ stopped,
      outcome (run (handler.failing number cause) context)
        (Walk.watched ⟨.ofOrder order, input, state⟩) = (.error (.failed (.handler cause)), stopped) ∧
      stopped.state.calls = (callsOf handler context ⟨.ofOrder order, input, state⟩).take number ∧
      (∀ other, .cleanup other ∉ stopped.state.calls.dropLast) ∧
      (stopped.engine.phase = .done ↔ stopped.state.calls.getLast? = some (.cleanup context)) ∧
      ∀ {κ τ φ : Type} [SortedGroups κ] (next : Handler τ φ) (other : Context) (again : Walk κ τ),
        again.engine = stopped.engine →
        (outcome (run next.recorded other) again.watched = (.error (.failed .finished), again.watched) ↔
          stopped.state.calls.getLast? = some (.cleanup context)) := by
  have awaits : (Walk.mk (.ofOrder order) input state).engine.phase ≠ .done := by
    simp [Engine.ofOrder]
  obtain ⟨stopped, failed, calls, place⟩ := exists_stopped handler context cause awaits positive within
  have ended : stopped.engine.phase = .done ↔
      stopped.state.calls.getLast? = some (.cleanup context) := by
    rcases place with ⟨going, underway⟩ | ⟨done, before, _, whole⟩
    · refine iff_of_false going fun last => ?_
      exact underway.not_cleanup context (List.mem_of_getLast? last)
    · exact iff_of_true done (by rw [whole, List.getLast?_concat])
  refine ⟨stopped, failed, calls, ?_, ended, ?_⟩
  · intro other member
    rcases place with ⟨_, underway⟩ | ⟨_, before, underway, whole⟩
    · exact underway.not_cleanup other (List.mem_of_mem_dropLast member)
    · rw [whole, List.dropLast_concat] at member
      exact underway.not_cleanup other member
  · intro κ τ φ _ next other again same
    rw [finished_iff, same, ended]

theorem run_failing_visits :
    ∃ stopped, outcome (run (Visits.lister.failing 6 ()) ⟨Visits.plan, ⟨0⟩⟩)
        (Walk.watched ⟨.ofOrder Visits.order.groups, Visits.input, (false, [])⟩) =
          (.error (.failed (.handler ())), stopped) ∧
      stopped.state.calls = (callsOf Visits.lister ⟨Visits.plan, ⟨0⟩⟩
        ⟨.ofOrder Visits.order.groups, Visits.input, (false, [])⟩).take 6 ∧
      stopped.state.calls.getLast? = some (.closeGroup 1 "date" Visits.secondKey) := by
  obtain ⟨stopped, failed, calls, -⟩ := run_failing Visits.lister ⟨Visits.plan, ⟨0⟩⟩ ()
    Visits.order.groups Visits.input (false, []) (by decide : 0 < 6) (by decide +kernel)
  refine ⟨stopped, failed, calls, ?_⟩
  rw [calls]
  decide +kernel

end Walking

end Rollup

end Cogrouping
