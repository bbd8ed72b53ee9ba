import Cogrouping.Proofs.Stream
import Cogrouping.Stream.Listed

/-!
Listed input delivers the groups it was made of, in whatever order their keys come.
-/

namespace Cogrouping.ListedGroups

variable {input next : ListedGroups} {groups : List (Tuple × List Tuple)}

theorem groups_of_nextKey {first : Tuple} (asked : outcome nextKey input = (.ok (some first), next)) :
    input.groups.length = next.groups.length + 1 := by
  obtain ⟨listed, current⟩ := input
  rw [nextKey, outcome_bind_of_ok (outcome_get _)] at asked
  cases listed with
  | nil => simp at asked
  | cons group listed =>
      obtain ⟨key, values⟩ := group
      simp only at asked
      rw [outcome_bind_of_ok (outcome_set _ _), outcome_bind, outcome_ofExcept] at asked
      cases key with
      | error cause => simp at asked
      | ok key =>
          cases asked
          rfl

theorem ahead_of_nextValue {answer : Option Tuple}
    (asked : outcome nextValue input = (.ok answer, next)) :
    input.groups = next.groups ∧ input.current.length = next.current.length + answer.toList.length := by
  obtain ⟨listed, current⟩ := input
  rw [nextValue, outcome_bind_of_ok (outcome_get _)] at asked
  cases current with
  | nil =>
      cases asked
      exact ⟨rfl, rfl⟩
  | cons value current =>
      simp only at asked
      rw [outcome_bind_of_ok (outcome_set _ _), outcome_bind, outcome_ofExcept] at asked
      cases value with
      | error cause => simp at asked
      | ok value =>
          cases asked
          exact ⟨rfl, rfl⟩

theorem length_of_yields {tuples : List Tuple} (yields : Yields input tuples next) :
    input.groups = next.groups ∧ tuples.length ≤ input.current.length := by
  induction yields with
  | done asked => exact ⟨(ahead_of_nextValue asked).1, Nat.zero_le _⟩
  | value asked _ ih =>
      obtain ⟨same, taken⟩ := ahead_of_nextValue asked
      refine ⟨same.trans ih.1, ?_⟩
      rw [taken]
      exact Nat.succ_le_succ ih.2

theorem length_of_delivers (delivers : Delivers input groups) : groups.length ≤ input.groups.length := by
  induction delivers with
  | done => exact Nat.zero_le _
  | group asked yields _ ih =>
      have behind := (length_of_yields yields).1
      rw [groups_of_nextKey asked, List.length_cons, behind]
      exact Nat.succ_le_succ ih

instance : BoundedGroups ListedGroups where
  values_le {input _ tuples} yields := by
    have bound : SortedGroups.bound input =
        input.groups.length + (input.groups.flatMap Prod.snd).length + input.current.length := rfl
    have short := (length_of_yields yields).2
    omega
  groups_le {input groups} delivers := by
    have bound : SortedGroups.bound input =
        input.groups.length + (input.groups.flatMap Prod.snd).length + input.current.length := rfl
    have short := length_of_delivers delivers
    omega

theorem yields_current (listed : List (Except Error Tuple × List (Except Error Tuple)))
    (tuples : List Tuple) :
    Yields (⟨listed, tuples.map .ok⟩ : ListedGroups) tuples ⟨listed, []⟩ := by
  induction tuples with
  | nil => exact .done rfl
  | cons tuple tuples ih => exact .value rfl ih

theorem ofList_delivers (groups : List (Tuple × List Tuple)) :
    Delivers (ofList (groups.map fun group => (.ok group.1, group.2.map .ok))) groups := by
  induction groups with
  | nil => exact .done rfl
  | cons group groups ih => exact .group rfl (yields_current _ group.2) ih

end Cogrouping.ListedGroups
