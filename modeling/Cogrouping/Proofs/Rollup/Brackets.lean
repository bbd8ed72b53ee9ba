import Cogrouping.Proofs.Rollup.Keys
import Cogrouping.Proofs.Rollup.Trace
import Cogrouping.Proofs.Stream.Listed

/-!
The groups that are open while a walk goes on. Whatever the order of the keys that come, groups are
opened inwards and closed outwards, and what is told of the open groups agrees with the keys they were
opened with, in the field of each group and in all fields before it.
-/

namespace Cogrouping

namespace GroupOrder

variable {order : GroupOrder} {left middle right : GroupKey} {depth : Nat}

/-- Equality in a group-by field is an equivalence of the values that may stand in the field. -/
def Equates (order : GroupOrder) : Prop :=
  ∀ depth field, depth < order.size → order.plan.common.fields[depth]? = some field →
    Equivalence fun left right : { value : Value // value.conformsTo field.type = true } =>
      order.sameField depth left right = .ok true

variable (fields : order.size ≤ order.plan.common.fields.length) (equates : order.Equates)

include fields equates

theorem agreeAt_refl (fits : left.Fits order.plan) (inside : depth < order.size) :
    order.agreeAt left left depth = true := by
  have found : order.plan.common.fields[depth]? = some order.plan.common.fields[depth] :=
    List.getElem?_eq_getElem (Nat.lt_of_lt_of_le inside fields)
  obtain ⟨value, held, conforms⟩ := fits depth _ inside found
  exact agreeAt_eq_true.mpr ⟨value, value, held, held,
    (equates depth _ inside found).refl ⟨value, conforms⟩⟩

theorem agreeAt_trans (leftFits : left.Fits order.plan) (middleFits : middle.Fits order.plan)
    (rightFits : right.Fits order.plan) (inside : depth < order.size)
    (first : order.agreeAt left middle depth = true) (second : order.agreeAt middle right depth = true) :
    order.agreeAt left right depth = true := by
  have found : order.plan.common.fields[depth]? = some order.plan.common.fields[depth] :=
    List.getElem?_eq_getElem (Nat.lt_of_lt_of_le inside fields)
  obtain ⟨leftValue, leftHeld, leftConforms⟩ := leftFits depth _ inside found
  obtain ⟨middleValue, middleHeld, middleConforms⟩ := middleFits depth _ inside found
  obtain ⟨rightValue, rightHeld, rightConforms⟩ := rightFits depth _ inside found
  simp only [agreeAt_eq_true, leftHeld, middleHeld, rightHeld, Option.some.injEq, exists_and_left,
    exists_eq_left'] at first second ⊢
  exact (equates depth _ inside found).trans (x := ⟨leftValue, leftConforms⟩)
    (y := ⟨middleValue, middleConforms⟩) (z := ⟨rightValue, rightConforms⟩) first second

end GroupOrder

namespace Rollup

abbrev Opened := List (Nat × GroupKey)

def Call.turn : Call → Opened → Opened
  | .openGroup depth _ key, opened => (depth, key) :: opened
  | .closeGroup .., opened => opened.tail
  | _, opened => opened

structure Opened.Reach (plan : Plan) (limit : Nat) (opened : Opened) : Prop where
  shallow : plan.minDepth ≤ limit
  deep : limit ≤ plan.maxDepth + 1
  depths : opened.map Prod.fst = (List.range' plan.minDepth (limit - plan.minDepth)).reverse

def Opened.Agree (order : GroupOrder) (key : GroupKey) (opened : Opened) : Prop :=
  ∀ group ∈ opened, order.AgreeThrough group.2 key group.1

variable (order : GroupOrder)

/-- A call may be made while these groups are open: groups are opened one within the other and closed
from within, and elements come in the deepest group, each time with a key that agrees. -/
def Call.Permitted (opened : Opened) : Call → Prop
  | .setup _ => opened = []
  | .openGroup depth _ _ => depth ≤ order.plan.maxDepth ∧ opened.Reach order.plan depth
  | .closeGroup depth _ key =>
      order.plan.minDepth ≤ depth ∧ opened.Reach order.plan (depth + 1) ∧ opened.Agree order key
  | .elements key _ => opened.Reach order.plan (order.plan.maxDepth + 1) ∧ opened.Agree order key
  | .cleanup _ => opened = []

/-- Each call may be made with the groups that are open by then. -/
def Brackets : Opened → List Call → Prop
  | _, [] => True
  | opened, call :: calls => call.Permitted order opened ∧ Brackets (call.turn opened) calls

structure Stacked (limit : Nat) (key : GroupKey) (opened : Opened) : Prop where
  reach : opened.Reach order.plan limit
  fits : ∀ group ∈ opened, group.2.Fits order.plan
  agree : opened.Agree order key

variable {order} {limit : Nat} {key : GroupKey} {opened : Opened} {rest : List Call}

theorem Opened.Reach.enter (reach : opened.Reach order.plan limit) (inside : limit ≤ order.plan.maxDepth)
    (key : GroupKey) : Opened.Reach order.plan (limit + 1) ((limit, key) :: opened) := by
  obtain ⟨shallow, deep, depths⟩ := reach
  refine ⟨by omega, by omega, ?_⟩
  have next : limit + 1 - order.plan.minDepth = limit - order.plan.minDepth + 1 := by omega
  have last : order.plan.minDepth + (limit - order.plan.minDepth) = limit := by omega
  rw [List.map_cons, depths, next, List.range'_1_concat, last, List.reverse_append]
  rfl

theorem Opened.Reach.leave (reach : opened.Reach order.plan (limit + 1))
    (inside : order.plan.minDepth ≤ limit) : Opened.Reach order.plan limit opened.tail := by
  obtain ⟨shallow, deep, depths⟩ := reach
  refine ⟨inside, by omega, ?_⟩
  have next : limit + 1 - order.plan.minDepth = limit - order.plan.minDepth + 1 := by omega
  rw [List.map_tail, depths, next, List.range'_1_concat, List.reverse_append]
  rfl

theorem Opened.Reach.inside (reach : opened.Reach order.plan limit) {group : Nat × GroupKey}
    (member : group ∈ opened) : order.plan.minDepth ≤ group.1 ∧ group.1 < limit := by
  have listed : group.1 ∈ opened.map Prod.fst := List.mem_map_of_mem member
  have shallow := reach.shallow
  rw [reach.depths, List.mem_reverse, List.mem_range'_1] at listed
  omega

theorem Opened.Reach.nil_of_minDepth (reach : opened.Reach order.plan order.plan.minDepth) :
    opened = [] := by
  have depths := reach.depths
  rw [Nat.sub_self] at depths
  exact List.map_eq_nil_iff.mp depths

theorem Stacked.leave (stacked : Stacked order (limit + 1) key opened)
    (inside : order.plan.minDepth ≤ limit) : Stacked order limit key opened.tail where
  reach := stacked.reach.leave inside
  fits group member := stacked.fits group (List.mem_of_mem_tail member)
  agree group member := stacked.agree group (List.mem_of_mem_tail member)

theorem brackets_closes {first count : Nat} (shallow : order.plan.minDepth ≤ first)
    (whole : first + count = limit) (stacked : Stacked order limit key opened)
    (after : ∀ left, Stacked order first key left → Brackets order left rest) :
    Brackets order opened ((List.range' first count).reverse.map
      (fun depth => .closeGroup depth (order.fieldName depth) key) ++ rest) := by
  subst whole
  induction count generalizing opened with
  | zero => exact after opened stacked
  | succ count ih =>
      have deepest : order.plan.minDepth ≤ first + count := by omega
      rw [List.range'_1_concat, List.reverse_append]
      exact ⟨⟨deepest, stacked.reach, stacked.agree⟩, ih (stacked.leave deepest)⟩

section Keys

variable (fields : order.size ≤ order.plan.common.fields.length)
  (depths : order.size = order.plan.maxDepth + 1) (equates : order.Equates)

include fields depths equates

theorem Stacked.enter (stacked : Stacked order limit key opened) (fits : key.Fits order.plan)
    (inside : limit ≤ order.plan.maxDepth) : Stacked order (limit + 1) key ((limit, key) :: opened) where
  reach := stacked.reach.enter inside key
  fits := List.forall_mem_cons.mpr ⟨fits, stacked.fits⟩
  agree := by
    refine List.forall_mem_cons.mpr ⟨fun place before => ?_, stacked.agree⟩
    exact GroupOrder.agreeAt_refl fields equates fits (by omega)

theorem Stacked.turn {before : GroupKey} (stacked : Stacked order limit before opened)
    (beforeFits : before.Fits order.plan) (keyFits : key.Fits order.plan)
    (same : limit ≤ order.differAt before key) : Stacked order limit key opened where
  reach := stacked.reach
  fits := stacked.fits
  agree := by
    intro group member place inside
    obtain ⟨shallow, limited⟩ := stacked.reach.inside member
    have deep := stacked.reach.deep
    have through : order.AgreeThrough before key group.1 := by
      by_contra apart
      have reached := (GroupOrder.differAt_le_iff shallow (by omega)).mpr apart
      omega
    exact GroupOrder.agreeAt_trans fields equates (stacked.fits group member) beforeFits keyFits
      (by omega) (stacked.agree group member place inside) (through place inside)

theorem brackets_opens {count : Nat} (whole : limit + count = order.plan.maxDepth + 1)
    (stacked : Stacked order limit key opened) (fits : key.Fits order.plan)
    (after : ∀ more, Stacked order (order.plan.maxDepth + 1) key more → Brackets order more rest) :
    Brackets order opened ((List.range' limit count).map
      (fun depth => .openGroup depth (order.fieldName depth) key) ++ rest) := by
  induction count generalizing limit opened with
  | zero =>
      have last : limit = order.plan.maxDepth + 1 := by omega
      exact after opened (last ▸ stacked)
  | succ count ih =>
      have inside : limit ≤ order.plan.maxDepth := by omega
      refine ⟨⟨inside, stacked.reach⟩, ih (by omega) ?_⟩
      exact stacked.enter fields depths equates fits inside

def Standing (order : GroupOrder) : Option GroupKey → Opened → Prop
  | none, opened => opened = []
  | some key, opened =>
      key.Fits order.plan ∧ Stacked order (order.plan.maxDepth + 1) key opened

variable {previous : Option GroupKey} (shallowest : order.plan.minDepth ≤ order.plan.maxDepth)

include shallowest

theorem brackets_turns (standing : Standing order previous opened) (fits : key.Fits order.plan)
    (after : ∀ more, Stacked order (order.plan.maxDepth + 1) key more → Brackets order more rest) :
    Brackets order opened ((Engine.ofOrder order).turns order.differAt key previous ++ rest) := by
  have opens : ∀ {first left}, first ≤ order.plan.maxDepth + 1 → Stacked order first key left →
      Brackets order left ((Engine.ofOrder order).opens key first ++ rest) := by
    intro first left inside stacked
    exact brackets_opens fields depths equates (Nat.add_sub_cancel' inside) stacked fits after
  rw [Engine.turns, List.append_assoc]
  cases previous with
  | none =>
      cases standing
      have nothing : Stacked order order.plan.minDepth key [] := by
        refine ⟨⟨Nat.le_refl _, by omega, ?_⟩, by simp, by simp [Opened.Agree]⟩
        rw [Nat.sub_self]
        rfl
      exact opens (Nat.le_succ_of_le shallowest) nothing
  | some before =>
      obtain ⟨beforeFits, stacked⟩ := standing
      have least : order.plan.minDepth ≤ order.differAt before key :=
        GroupOrder.minDepth_le_differAt shallowest
      have most : order.differAt before key ≤ order.plan.maxDepth + 1 :=
        GroupOrder.differAt_le shallowest
      refine brackets_closes least (Nat.add_sub_cancel' most) stacked fun left closed => ?_
      exact opens most (closed.turn fields depths equates beforeFits fits (Nat.le_refl _))

/-- The calls for groups keep to the brackets, and leave nothing open. -/
theorem brackets_calls {groups : List (GroupKey × List Tuple)}
    (fit : ∀ group ∈ groups, group.1.Fits order.plan) (standing : Standing order previous opened)
    (after : Brackets order [] rest) :
    Brackets order opened ((Engine.ofOrder order).calls order.differAt previous groups ++ rest) := by
  induction groups generalizing previous opened with
  | nil =>
      cases previous with
      | none =>
          cases standing
          exact after
      | some before =>
          have most := Nat.le_succ_of_le shallowest
          refine brackets_closes (Nat.le_refl _) (Nat.add_sub_cancel' most) standing.2
            fun left closed => ?_
          rw [closed.reach.nil_of_minDepth]
          exact after
  | cons group groups ih =>
      obtain ⟨key, tuples⟩ := group
      rw [List.forall_mem_cons] at fit
      rw [Engine.calls, List.append_assoc]
      refine brackets_turns fields depths equates shallowest standing fit.1 fun more stacked => ?_
      exact ⟨⟨stacked.reach, stacked.agree⟩, ih fit.2 ⟨fit.1, stacked⟩⟩

end Keys

end Rollup

namespace RecordOrder

open Rollup

variable {comparators : Comparators}

theorem equates_of_total {order : RecordOrder} (sound : order.Sound comparators)
    (total : comparators.Total) : order.groups.Equates := by
  intro depth field inside found
  obtain ⟨key, keyPlace, sorts⟩ := sound.common.flip.getElem?_left found
  let compare (left right : { cell : Cell // cell.Fits field }) : Ordering := key.compareCells left right
  have orders : Std.TransCmp compare :=
    sorts.orders (registered_common sound key (List.mem_of_getElem? keyPlace)) total
  have grouped : (order.plan.common.fields.take order.plan.groupBy.length)[depth]? = some field :=
    (List.getElem?_take_of_lt inside).trans found
  have unmarked := sound.plan.grouped_unmarked field (List.mem_of_getElem? grouped)
  let cell (value : { value : Value // value.conformsTo field.type = true }) :
      { cell : Cell // cell.Fits field } := ⟨.value value, .value unmarked value.2⟩
  have same : ∀ left right, order.groups.sameField depth left.1 right.1 = .ok true ↔
      compare (cell left) (cell right) = .eq := by
    intro left right
    have keyHere : order.groups.records.common[depth]? = some key := keyPlace
    rw [GroupOrder.sameField, keyHere]
    simp only [SortKey.compareValues_eq sorts left.2 right.2, Except.map, Except.ok.injEq, beq_iff_eq,
      compare, cell, SortKey.compareCells_eq_eq]
  constructor
  · intro value
    exact (same value value).mpr Std.ReflCmp.compare_self
  · intro left right equal
    exact (same right left).mpr (Std.OrientedCmp.eq_symm ((same left right).mp equal))
  · intro left middle right first second
    have equal := Std.TransCmp.eq_trans ((same left middle).mp first) ((same middle right).mp second)
    exact (same left right).mpr equal

/-- Whatever groups an input delivers, the calls for them keep to the brackets, also where keys are not
in order or come again. -/
theorem run_brackets {job : Job} {plan : Plan} {codec : FieldCodec} {order : RecordOrder}
    (built : Plan.build job = .ok plan) (made : ofPlan plan codec comparators = .ok order)
    (equates : order.groups.Equates) {ι : Type} [SortedGroups ι] [BoundedGroups ι] {input : ι}
    {groups : List (Tuple × List Tuple)} (delivers : Delivers input groups)
    (keyed : ∀ group ∈ groups, job.HasKey group.1) (context : Context) :
    ∃ calls : List Call, calls.head? = some (.setup context) ∧ calls.getLast? = some (.cleanup context) ∧
      Brackets order.groups [] calls ∧ Walking.Keyed plan groups (leaves calls) ∧
      ∀ (σ ε : Type) (handler : Handler σ ε), handler.Unfailing → ∀ state, ∃ stats last,
        outcome (Walking.run handler context) ⟨.ofOrder order.groups, input, state⟩ = (.ok stats, last) ∧
        last.state = calls.foldl handler.respond state ∧ stats.opened = stats.closed := by
  obtain ⟨planSound, rfl⟩ := Plan.build_sound built
  obtain ⟨sound, rfl, -⟩ := ofPlan_sound planSound made
  obtain ⟨keys, keysMade, fit⟩ := planSound.exists_keyed keyed
  let engine := Engine.ofOrder order.groups
  refine ⟨engine.trace order.groups.differAt context keys, rfl, ?_, ?_, ?_, ?_⟩
  · rw [Engine.trace, List.getLast?_append]
    rfl
  · have calls : Brackets order.groups []
        (engine.calls order.groups.differAt none keys ++ [.cleanup context]) :=
      brackets_calls planSound.groupBy_length_le planSound.groupBy_length_eq equates
        planSound.common.shallowest fit rfl ⟨rfl, trivial⟩
    exact ⟨rfl, calls⟩
  · rw [Engine.leaves_trace]
    exact keysMade
  · intro σ ε handler unfailing state
    obtain ⟨last, walked, left⟩ := outcome_walk sound unfailing delivers keysMade fit context state
    have balanced := (engine.trace_accounts order.groups.differAt context keys {}).balanced
    exact ⟨_, last, walked, left, balanced.symm⟩

end RecordOrder

namespace Visits

def visits : Schema := ⟨"visits", [⟨"url", .text, none⟩, ⟨"date", .int32, none⟩, ⟨"n", .int32, none⟩]⟩

def job : Job :=
  { sources := [⟨⟨0⟩, visits⟩], groupBy := ["url", "date"], rollupFrom := some "url" }

def plan : Plan := valueOf (Plan.build job) (by decide +kernel)

def fields : FieldCodec := valueOf (FieldCodec.ofPlan plan .standard 64) (by decide +kernel)

def order : RecordOrder := valueOf (RecordOrder.ofPlan plan fields .empty) (by decide +kernel)

def visit (url : String) (date n : Int32) : Tuple := ⟨visits, [.text url, .int32 date, .int32 n], rfl⟩

theorem sound : order.Sound .empty :=
  (RecordOrder.ofPlan_sound (Plan.build_sound (eq_valueOf _)).1 (eq_valueOf _)).1

theorem total : Comparators.empty.Total := by
  intro name comparator found
  cases found

theorem hasKey (url : String) (date n : Int32) : job.HasKey (visit url date n) := by
  refine ⟨⟨⟨0⟩, visits⟩, List.mem_singleton_self _, rfl, ?_⟩
  intro name member
  rcases List.mem_cons.mp member with rfl | later
  · exact ⟨0, _, .text url, rfl, rfl, rfl, rfl⟩
  · obtain rfl := List.mem_singleton.mp later
    exact ⟨1, _, .int32 date, rfl, rfl, rfl, rfl⟩

def lister : Handler (Bool × List String) Unit where
  openGroup _ field _ := modify fun state => (state.1, state.2 ++ ["open " ++ field])
  closeGroup _ field _ := modify fun state => (state.1, state.2 ++ ["close " ++ field])
  enter key state := (true, state.2 ++ [key.display])
  wants state := state.1
  receive _ state := (false, state.2)

theorem lister_unfailing : lister.Unfailing where
  setup _ _ := rfl
  openGroup _ _ _ _ := rfl
  closeGroup _ _ _ _ := rfl
  leave _ _ _ := rfl
  cleanup _ _ := rfl
  ends key tuples state := by
    cases tuples with
    | nil => rfl
    | cons first tuples => cases tuples <;> rfl

def groups : List (Tuple × List Tuple) :=
  [(visit "b" 1 0, [visit "b" 1 0]), (visit "b" 1 1, [visit "b" 1 1, visit "b" 1 2]),
   (visit "a" 2 3, []), (visit "b" 1 4, [visit "b" 1 4])]

def input : ListedGroups := .ofList (groups.map fun group => (.ok group.1, group.2.map .ok))

end Visits

theorem RecordOrder.run_brackets_visits :
    ∃ calls stats last, Rollup.Brackets Visits.order.groups [] calls ∧
      Rollup.Walking.Keyed Visits.plan Visits.groups (Rollup.leaves calls) ∧
      outcome (Rollup.Walking.run Visits.lister ⟨Visits.plan, ⟨0⟩⟩)
        ⟨.ofOrder Visits.order.groups, Visits.input, (false, [])⟩ = (.ok stats, last) ∧
      last.state = calls.foldl Visits.lister.respond (false, []) ∧ stats.opened = stats.closed := by
  have keyed : ∀ group ∈ Visits.groups, Visits.job.HasKey group.1 := by
    simp [Visits.groups, Visits.hasKey]
  obtain ⟨calls, -, -, brackets, leaves, runs⟩ := RecordOrder.run_brackets (eq_valueOf _) (eq_valueOf _)
    (RecordOrder.equates_of_total Visits.sound Visits.total) (ListedGroups.ofList_delivers Visits.groups)
    keyed ⟨Visits.plan, ⟨0⟩⟩
  obtain ⟨stats, last, run⟩ := runs _ _ Visits.lister Visits.lister_unfailing (false, [])
  exact ⟨calls, stats, last, brackets, leaves, run⟩

end Cogrouping
