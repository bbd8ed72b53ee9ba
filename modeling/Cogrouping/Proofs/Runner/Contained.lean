import Cogrouping.Proofs.Rollup.Recorded
import Cogrouping.Proofs.Runner.Cogroups
import Cogrouping.Proofs.Runner.Refused

/-!
How far a run gets. A tuple that is refused ends it before there is any handler, and a partition that
cannot be walked ends it there: those before have been walked from setup through cleanup, and of those
behind nothing is made.
-/

namespace Cogrouping

namespace Runner

open Run Rollup

variable {σ ε : Type} (runner : Runner)

inductive PartWalked (make : Running σ ε (Handler σ ε)) (partition : PartitionId) (records : List Bytes)
    (state : σ) : PartitionSummary → σ → Prop
  | intro {handler : Handler σ ε} {made : σ} {sorted : List Bytes} {stats : Stats}
      {last : Walk GroupedTuples σ} : outcome make state = (.ok handler, made) →
      Sort.stable .four runner.order.compareBytes records = .ok sorted →
      outcome (Walking.run handler (runner.context partition)) (runner.start sorted made) =
        (.ok stats, last) →
      Complete (runner.context partition)
        (Walking.callsOf handler (runner.context partition) (runner.start sorted made)) →
      PartWalked make partition records state
        { partition, records := records.length, bytes := records.flatten.length, rollup := stats }
        last.state

/-- A partition has no handler, or it cannot be sorted, or its walk comes to no result. -/
inductive PartStops (make : Running σ ε (Handler σ ε)) (partition : PartitionId) (records : List Bytes)
    (state : σ) : Stop (Run.Failure ε) → σ → Prop
  | unmade {stop : Stop (Run.Failure ε)} {last : σ} : outcome make state = (.error stop, last) →
      PartStops make partition records state stop last
  | unsorted {handler : Handler σ ε} {made : σ} {stop : Stop Error} :
      outcome make state = (.ok handler, made) →
      Sort.stable .four runner.order.compareBytes records = .error stop →
      PartStops make partition records state (stop.map .engine) made
  | unwalked {handler : Handler σ ε} {made : σ} {sorted : List Bytes} {stop : Stop (Rollup.Failure ε)}
      {last : Walk GroupedTuples σ} : outcome make state = (.ok handler, made) →
      Sort.stable .four runner.order.compareBytes records = .ok sorted →
      outcome (Walking.run handler (runner.context partition)) (runner.start sorted made) =
        (.error stop, last) →
      PartStops make partition records state (stop.map (.rollup partition)) last.state

inductive Walks (make : PartitionId → Running σ ε (Handler σ ε)) :
    σ → List (PartitionId × List Bytes) → List PartitionSummary → σ → Prop
  | nil (state : σ) : Walks make state [] [] state
  | cons {state between last : σ} {partition : PartitionId} {records : List Bytes}
      {rest : List (PartitionId × List Bytes)} {summary : PartitionSummary}
      {summaries : List PartitionSummary} :
      runner.PartWalked (make partition) partition records state summary between →
      Walks make between rest summaries last →
      Walks make state ((partition, records) :: rest) (summary :: summaries) last

/-- What a run over partitions comes to: all are walked, or all before one that stops it. Makers of handlers
that do the same up to that one come to the same, whatever they would do behind it. -/
inductive Ends (tuples : List Tuple) (parts : List (PartitionId × List Bytes))
    (make : PartitionId → Running σ ε (Handler σ ε)) (state : σ) :
    Except (Stop (Run.Failure ε)) Summary × σ → Prop
  | whole {summaries : List PartitionSummary} {last : σ} : runner.Walks make state parts summaries last →
      Ends tuples parts make state
        (.ok { fingerprint := runner.plan.fingerprint, records := tuples.length, partitions := summaries },
          last)
  | halted {before behind : List (PartitionId × List Bytes)} {partition : PartitionId}
      {records : List Bytes} {summaries : List PartitionSummary} {between last : σ}
      {stop : Stop (Run.Failure ε)} : parts = before ++ (partition, records) :: behind →
      runner.Walks make state before summaries between →
      runner.PartStops (make partition) partition records between stop last →
      (∀ other : PartitionId → Running σ ε (Handler σ ε),
        (∀ number ≤ before.length, other ⟨UInt32.ofNat number⟩ = make ⟨UInt32.ofNat number⟩) →
        outcome (runner.runWith other tuples) state = (.error stop, last)) →
      Ends tuples parts make state (.error stop, last)

variable {runner} {partition : PartitionId} {records : List Bytes} {state last : σ}

section Part

variable {make : Running σ ε (Handler σ ε)}

theorem PartWalked.outcome_eq {summary : PartitionSummary}
    (walked : runner.PartWalked make partition records state summary last) :
    outcome (make >>= fun handler => runner.walk partition records handler) state =
      (.ok summary, last) := by
  cases walked with
  | @intro handler _ _ _ _ made ordered ran _ =>
      rw [outcome_bind_of_ok made]
      exact outcome_walk_sorted handler ordered ran

theorem PartStops.outcome_eq {stop : Stop (Run.Failure ε)}
    (stops : runner.PartStops make partition records state stop last) :
    outcome (make >>= fun handler => runner.walk partition records handler) state =
      (.error stop, last) := by
  cases stops with
  | unmade unmade => exact outcome_bind_of_error unmade
  | @unsorted handler _ _ made unsorted =>
      rw [outcome_bind_of_ok made]
      exact outcome_walk_unsorted handler unsorted
  | @unwalked handler _ _ _ _ made ordered ran =>
      rw [outcome_bind_of_ok made]
      exact outcome_walk_sorted handler ordered ran

theorem part_cases (make : Running σ ε (Handler σ ε)) (partition : PartitionId) (records : List Bytes)
    (state : σ) : (∃ summary last, runner.PartWalked make partition records state summary last) ∨
      ∃ stop last, runner.PartStops make partition records state stop last := by
  cases makes : outcome make state with
  | mk result made =>
      cases result with
      | error stop => exact .inr ⟨stop, made, .unmade makes⟩
      | ok handler =>
          cases ordered : Sort.stable .four runner.order.compareBytes records with
          | error stop => exact .inr ⟨_, made, .unsorted makes ordered⟩
          | ok sorted =>
              have awaits : (runner.start sorted made).engine.phase ≠ .done := by
                simp [start, Engine.ofOrder]
              cases ran : outcome (Walking.run handler (runner.context partition))
                  (runner.start sorted made) with
              | mk result last =>
                  cases result with
                  | error stop => exact .inr ⟨_, _, .unwalked makes ordered ran⟩
                  | ok stats =>
                      have complete := Walking.complete_of_ok handler _ awaits ran
                      exact .inl ⟨_, _, .intro makes ordered ran complete⟩

end Part

variable {make other : PartitionId → Running σ ε (Handler σ ε)}
  {parts before behind : List (PartitionId × List Bytes)} {summaries : List PartitionSummary}

theorem walkAll_cons (make : PartitionId → Running σ ε (Handler σ ε)) (partition : PartitionId)
    (records : List Bytes) (rest : List (PartitionId × List Bytes)) :
    runner.walkAll make ((partition, records) :: rest) =
      (make partition >>= fun handler => runner.walk partition records handler) >>= fun summary =>
        (summary :: ·) <$> runner.walkAll make rest := by
  rw [walkAll, bind_assoc]
  rfl

theorem Walks.outcome_eq (walks : runner.Walks make state parts summaries last) :
    outcome (runner.walkAll make parts) state = (.ok summaries, last) := by
  induction walks with
  | nil state => rfl
  | cons walked _ ih =>
      rw [walkAll_cons, outcome_bind_of_ok walked.outcome_eq, outcome_map, ih]
      rfl

theorem Walks.outcome_of_stops (walks : runner.Walks make state before summaries last)
    {stop : Stop (Run.Failure ε)} {there : σ}
    (stops : runner.PartStops (make partition) partition records last stop there) :
    outcome (runner.walkAll make (before ++ (partition, records) :: behind)) state =
      (.error stop, there) := by
  induction walks with
  | nil state => rw [List.nil_append, walkAll_cons, outcome_bind_of_error stops.outcome_eq]
  | cons walked _ ih =>
      rw [List.cons_append, walkAll_cons, outcome_bind_of_ok walked.outcome_eq, outcome_map, ih stops]
      rfl

theorem Walks.congr (walks : runner.Walks make state parts summaries last)
    (same : ∀ part ∈ parts, other part.1 = make part.1) :
    runner.Walks other state parts summaries last := by
  induction walks with
  | nil state => exact .nil state
  | cons walked _ ih =>
      rw [List.forall_mem_cons] at same
      rw [← same.1] at walked
      exact .cons walked (ih same.2)

theorem walks_cases (make : PartitionId → Running σ ε (Handler σ ε))
    (parts : List (PartitionId × List Bytes)) (state : σ) :
    (∃ summaries last, runner.Walks make state parts summaries last) ∨
    ∃ before partition records behind summaries between stop last,
      parts = before ++ (partition, records) :: behind ∧
      runner.Walks make state before summaries between ∧
      runner.PartStops (make partition) partition records between stop last := by
  induction parts generalizing state with
  | nil => exact .inl ⟨[], state, .nil state⟩
  | cons part rest ih =>
      obtain ⟨partition, records⟩ := part
      rcases part_cases (make partition) partition records state with
        ⟨summary, between, walked⟩ | ⟨stop, last, stops⟩
      · rcases ih between with ⟨summaries, last, walks⟩ | halted
        · exact .inl ⟨summary :: summaries, last, .cons walked walks⟩
        · obtain ⟨before, stopping, its, behind, summaries, there, stop, last, rfl, walks, stops⟩ :=
            halted
          exact .inr ⟨_, stopping, its, behind, _, there, stop, last, rfl, .cons walked walks, stops⟩
      · exact .inr ⟨[], partition, records, rest, [], state, stop, last, rfl, .nil state, stops⟩

/-- Every partition gets the records of the tuples that are placed in it, in their order. -/
def Deals (runner : Runner) (tuples : List Tuple) (parts : List (PartitionId × List Bytes)) : Prop :=
  ∃ placed, List.Forall₂ runner.Places tuples placed ∧
    parts = (List.range runner.partitioner.count.toNat).map fun number =>
      (⟨UInt32.ofNat number⟩, recordsOf placed number)

theorem Deals.distribute_eq {tuples : List Tuple} (deals : runner.Deals tuples parts) :
    runner.distribute tuples = .ok parts := by
  obtain ⟨placed, places, rfl⟩ := deals
  have assigned : tuples.mapM runner.assign = .ok placed :=
    mapM_eq_ok.mpr (places.imp fun _ _ => assign_eq_ok.mpr)
  rw [distribute, assigned, ok_bind, pure_eq_ok]

theorem Deals.number_eq {tuples : List Tuple} (deals : runner.Deals tuples parts) {number : Nat}
    {part : PartitionId × List Bytes} (found : parts[number]? = some part) :
    part.1 = ⟨UInt32.ofNat number⟩ := by
  obtain ⟨placed, _, rfl⟩ := deals
  rw [List.getElem?_map] at found
  obtain ⟨other, place, rfl⟩ := Option.map_eq_some_iff.mp found
  obtain ⟨_, rfl⟩ := List.getElem?_eq_some_iff.mp place
  rw [List.getElem_range]

theorem Deals.ends {tuples : List Tuple} (deals : runner.Deals tuples parts)
    (make : PartitionId → Running σ ε (Handler σ ε)) (state : σ) :
    runner.Ends tuples parts make state (outcome (runner.runWith make tuples) state) := by
  have distributed := deals.distribute_eq
  rcases walks_cases make parts state with ⟨summaries, last, walks⟩ | halted
  · rw [outcome_runWith_of_distribute distributed, outcome_map, walks.outcome_eq]
    exact .whole walks
  · obtain ⟨before, partition, records, behind, summaries, between, stop, last, rfl, walks, stops⟩ := halted
    have here : partition = ⟨UInt32.ofNat before.length⟩ := by
      have found : (before ++ (partition, records) :: behind)[before.length]? =
          some (partition, records) := by simp
      exact deals.number_eq found
    have stopsToo : ∀ other : PartitionId → Running σ ε (Handler σ ε),
        (∀ number ≤ before.length, other ⟨UInt32.ofNat number⟩ = make ⟨UInt32.ofNat number⟩) →
        outcome (runner.runWith other tuples) state = (.error stop, last) := by
      intro other same
      have walksToo : runner.Walks other state before summaries between := by
        refine walks.congr fun part member => ?_
        obtain ⟨number, inside, found⟩ := List.getElem_of_mem member
        have placed : (before ++ (partition, records) :: behind)[number]? = some part := by
          rw [List.getElem?_append_left inside, List.getElem?_eq_getElem inside, found]
        rw [deals.number_eq placed]
        exact same number (Nat.le_of_lt inside)
      rw [here, ← same before.length (Nat.le_refl _), ← here] at stops
      rw [outcome_runWith_of_distribute distributed, outcome_map, walksToo.outcome_of_stops stops]
      rfl
    rw [stopsToo make fun _ _ => rfl]
    exact .halted rfl walks stops stopsToo

/-- A run that cannot place or write all of its tuples ends with the first that it cannot, before it makes
a handler, and for the same cause however many partitions there are; a run that writes all gets through
its partitions in turn, up to one that stops it. -/
theorem run_contained {τ δ : Type} {job : Job} {settings : Settings} {comparators : Comparators}
    {objects : ObjectCodecs} {handlers : Handlers τ δ} {runner : Runner}
    (made : ofJob job settings comparators objects handlers = .ok runner) (tuples : List Tuple) :
    ((∃ tuple ∈ tuples,
        (∃ cause, (outcome (runner.partitioner.assign tuple) ⟨[], []⟩).1 = .error cause) ∨
          ∃ cause, runner.records.encode tuple = .error cause) →
      ∃ tuple cause, runner.FirstRefused tuples tuple cause ∧ runner.Refuses tuples cause ∧
        (runner.plan.Sizes tuple → ∀ partitions seed other,
          ofJob job { settings with partitions, seed } comparators objects handlers = .ok other →
          other.FirstRefused tuples tuple cause ∧ other.Refuses tuples cause)) ∧
    ((∀ tuple ∈ tuples, ∃ record, runner.records.encode tuple = .ok record) →
      ∃ parts, runner.Deals tuples parts ∧ parts.length = (max settings.partitions 1).toNat ∧
        ∀ {σ ε : Type} (make : PartitionId → Running σ ε (Handler σ ε)) (handler : Handler σ ε)
          (state : σ),
          runner.Ends tuples parts make state (outcome (runner.runWith make tuples) state) ∧
          runner.Ends tuples parts (fun _ => return handler) state
            (outcome (runner.runInto handler tuples) state)) := by
  obtain ⟨order, ordered, rfl, sound⟩ := ofJob_sound made
  constructor
  · rintro ⟨refused, member, unplaced⟩
    obtain ⟨tuple, cause, first⟩ := exists_firstRefused ⟨refused, member, exists_declines unplaced⟩
    refine ⟨tuple, cause, first, first.refuses, ?_⟩
    intro sized partitions seed other otherMade
    obtain ⟨otherOrder, otherOrdered, rfl, _⟩ := ofJob_sound otherMade
    have same : order = otherOrder := Except.ok.inj (ordered.symm.trans otherOrdered)
    subst same
    have firstToo := first.other sound.ordered.plan sized (max partitions 1) seed
    exact ⟨firstToo, firstToo.refuses⟩
  · intro written
    have taken : ∀ tuple ∈ tuples, ∃ placed,
        (ofOrder order (max settings.partitions 1) settings.seed).Places tuple placed := by
      intro tuple member
      obtain ⟨record, encoded⟩ := written tuple member
      obtain ⟨id, places⟩ := exists_places sound.ordered.plan encoded
      exact ⟨(id, record), places⟩
    obtain ⟨placed, places⟩ := List.exists_forall₂.mpr taken
    have deals : (ofOrder order (max settings.partitions 1) settings.seed).Deals tuples _ :=
      ⟨placed, places, rfl⟩
    refine ⟨_, deals, by rw [List.length_map, List.length_range]; rfl, ?_⟩
    intro σ ε make handler state
    exact ⟨deals.ends make state, deals.ends _ state⟩

end Runner

namespace Sample

def stranger : Tuple := ⟨⟨"strangers", []⟩, [], rfl⟩

def idle : Handler Nat Unit where
  wants _ := false
  receive _ count := count

def secondless (partition : PartitionId) : Runner.Running Nat Unit (Handler Nat Unit) := do
  if partition = ⟨1⟩ then throw (.failed (.refused "second"))
  modify (· + 1)
  return idle

end Sample

theorem Runner.run_contained_sample :
    (∃ tuple cause, Sample.runner.FirstRefused [Sample.page, Sample.stranger] tuple cause ∧
      Sample.split.FirstRefused [Sample.page, Sample.stranger] tuple cause ∧
      Sample.split.Refuses [Sample.page, Sample.stranger] cause) ∧
    ∃ parts, Sample.split.Deals [Sample.page, Sample.visit] parts ∧ parts.length = 3 ∧
      Sample.split.Ends [Sample.page, Sample.visit] parts Sample.secondless 0
        (outcome (Sample.split.runWith Sample.secondless [Sample.page, Sample.visit]) 0) := by
  have splits : Runner.ofJob (σ := Unit) (ε := Unit) Sample.job
      { Sample.settings with partitions := 3, seed := some 7 } .empty .standard .empty =
        .ok Sample.split := eq_valueOf _
  constructor
  · have unknown : ∃ cause, Sample.runner.records.encode Sample.stranger = .error cause := ⟨_, rfl⟩
    obtain ⟨tuple, cause, first, _, others⟩ := (Runner.run_contained Sample.runner_made
      [Sample.page, Sample.stranger]).1 ⟨Sample.stranger, by simp, .inr unknown⟩
    have sized : Sample.runner.plan.Sizes tuple := by
      intro source named
      obtain ⟨before, behind, split, _⟩ := first
      have member : tuple ∈ [Sample.page, Sample.stranger] := by
        rw [split]
        exact List.mem_append_right before List.mem_cons_self
      simp only [List.mem_cons, List.not_mem_nil, or_false] at member
      rcases member with rfl | rfl
      · have found : Sample.runner.plan.sourceNamed "pages" = .ok Sample.pageSource := eq_valueOf _
        cases found.symm.trans named
        decide
      · cases named
    obtain ⟨firstToo, refuses⟩ := others sized 3 (some 7) Sample.split splits
    exact ⟨tuple, cause, first, firstToo, refuses⟩
  · have written : ∀ tuple ∈ [Sample.page, Sample.visit],
        ∃ record, Sample.split.records.encode tuple = .ok record := by
      intro tuple member
      simp only [List.mem_cons, List.not_mem_nil, or_false] at member
      rcases member with rfl | rfl
      · exact ⟨valueOf (Sample.split.records.encode Sample.page) (by decide +kernel), eq_valueOf _⟩
      · exact ⟨valueOf (Sample.split.records.encode Sample.visit) (by decide +kernel), eq_valueOf _⟩
    obtain ⟨parts, deals, size, ends⟩ :=
      (Runner.run_contained splits [Sample.page, Sample.visit]).2 written
    exact ⟨parts, deals, size, (ends Sample.secondless Sample.idle 0).1⟩

end Cogrouping
