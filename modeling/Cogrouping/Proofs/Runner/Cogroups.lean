import Cogrouping.Proofs.Runner.Walks

/-!
Co-grouping. However the input is dealt out, the handlers together read each of its classes once, whole
and in order, and they open each group of each rollup depth once.
-/

namespace Cogrouping

open Rollup

namespace RecordOrder

/-- A group has what is read back for the tuples of one's class, and the key that the first of these
makes. -/
structure Gathers (order : RecordOrder) (sorted : List Tuple) (one : Tuple)
    (group : GroupKey × List Tuple) : Prop where
  elements : List.Forall₂ order.plan.Restores
    (sorted.filter (Sort.alike order.groups.compare one)) group.2
  key : group.2.head?.map (GroupKey.ofTuple order.plan) = some (.ok group.1)

/-- Groups are the classes of tuples under the group order, each in the stable order of all tuples. -/
def Cogroups (order : RecordOrder) (tuples : List Tuple) (groups : List (GroupKey × List Tuple)) :
    Prop :=
  ∃ sorted ones, Sort.StablySortsBy order.compare tuples sorted ∧
    Sort.Classifies order.groups.compare tuples ones ∧
    List.Forall₂ (order.Gathers sorted) ones groups

/-- Keys are those of one tuple of each class under the order by the fields down to a depth. -/
def Opens (order : RecordOrder) (tuples : List Tuple) (depth : Nat) (keys : List GroupKey) : Prop :=
  ∃ ones, Sort.Classifies (order.compareBy (order.common.take (depth + 1)) false) tuples ones ∧
    List.Forall₂ (fun one key => ∃ read, order.plan.Restores one read ∧
      GroupKey.ofTuple order.plan read = .ok key) ones keys

/-- What the calls of a run and its summary have to do with its input and the groups of that. -/
structure Accounts (order : RecordOrder) (tuples : List Tuple) (groups : List (GroupKey × List Tuple))
    (calls : List Call) (summary : Run.Summary) : Prop where
  leaves : (leaves calls).Perm groups
  opened : ∀ depth, order.plan.minDepth ≤ depth → depth ≤ order.plan.maxDepth →
    order.Opens tuples depth (openedAt depth calls)
  records : summary.records = tuples.length
  partRecords : (summary.partitions.map Run.PartitionSummary.records).sum = tuples.length
  elements : (summary.partitions.map fun part => part.rollup.elements).sum = tuples.length
  groups : summary.groups = groups.length
  balanced : ∀ part ∈ summary.partitions, part.rollup.opened = part.rollup.closed

end RecordOrder

namespace Runner

open Run

variable {σ ε : Type} {comparators : Comparators} {order : RecordOrder} {count : UInt64}
  {seed : Option UInt64} {entries sorted : List (Entry order)} {runs : List (Sort.Run (Entry order))}

theorem gathers_run (sound : order.Sound comparators) (total : comparators.Total)
    (cuts : Sort.Cuts (Entry.comparePrefix order.groups.size) sorted runs)
    {run : Sort.Run (Entry order)} (member : run ∈ runs) :
    order.Gathers (sorted.map Entry.tuple) run.first.tuple (groupOf run) := by
  have := Entry.transCmp_comparePrefix sound total order.groups.size
  have agrees : Sort.Agrees order.groups.compare Entry.tuple (Entry.comparePrefix order.groups.size) :=
    Entry.agrees_prefix sound order.groups.size
  constructor
  · rw [agrees.filter_map, ← cuts.items_eq member, groupOf, List.forall₂_map_left_iff,
      List.forall₂_map_right_iff, List.forall₂_same]
    intro entry _
    exact entry.row.restores sound.plan
  · rw [groupOf, Sort.Run.items, List.map_cons, List.head?_cons, Option.map_some, Entry.stored,
      run.first.row.ofTuple_stored sound.plan]

theorem cogroups_runs (sound : order.Sound comparators) (total : comparators.Total)
    (sorts : Sort.StablySorts Entry.compare entries sorted)
    (cuts : Sort.Cuts (Entry.comparePrefix order.groups.size) sorted runs) :
    order.Cogroups (entries.map Entry.tuple) (runs.map groupOf) := by
  refine ⟨sorted.map Entry.tuple, (runs.map Sort.Run.first).map Entry.tuple, ?_, ?_, ?_⟩
  · exact sorts.map (Entry.agrees_tuples sound)
  · exact (cuts.represents.of_perm sorts.perm).classifies (Entry.agrees_prefix sound order.groups.size)
  · rw [List.map_map, List.forall₂_map_left_iff, List.forall₂_map_right_iff, List.forall₂_same]
    intro run member
    exact gathers_run sound total cuts member

theorem leaves_traces (numbers : List Nat) :
    leaves ((traces count seed runs numbers).flatMap Prod.snd) =
      (numbers.flatMap fun number => runs.filter (Entry.place count seed ·.first == number)).map
        groupOf := by
  rw [traces, List.flatMap_map, leaves, List.filterMap_flatMap, List.map_flatMap]
  refine List.flatMap_congr fun number _ => ?_
  exact (Engine.ofOrder order.groups).leaves_trace order.groups.differAt _ _

theorem perm_leaves (sound : Sound comparators order count) :
    (leaves ((traces count seed runs (List.range count.toNat)).flatMap Prod.snd)).Perm
      (runs.map groupOf) := by
  rw [leaves_traces]
  refine (Sort.perm_parts (fun run : Sort.Run (Entry order) => run.first.place count seed)
    fun run _ => ?_).map groupOf
  exact place_lt sound run.first

def opening (depth : Nat) (runs : List (Sort.Run (Entry order))) : List (Sort.Run (Entry order)) :=
  Sort.heads (fun left right => Entry.comparePrefix (depth + 1) left.first right.first) none runs

theorem openedAt_callsOf (sound : order.Sound comparators) {depth : Nat}
    (shallow : order.plan.minDepth ≤ depth) (deep : depth ≤ order.plan.maxDepth)
    (partition : PartitionId) (runs : List (Sort.Run (Entry order))) :
    openedAt depth (callsOf partition runs) = (opening depth runs).map fun run => run.first.row.key := by
  rw [callsOf, Engine.openedAt_trace]
  refine (Engine.ofOrder order.groups).openedAt_calls order.groups.differAt shallow deep ?_ none runs
  intro left right
  exact RecordOrder.differAt_le_iff_comparePrefix sound left.first.row right.first.row shallow deep

theorem openedAt_traces (sound : order.Sound comparators) {depth : Nat}
    (shallow : order.plan.minDepth ≤ depth) (deep : depth ≤ order.plan.maxDepth) (numbers : List Nat) :
    openedAt depth ((traces count seed runs numbers).flatMap Prod.snd) =
      (numbers.flatMap fun number =>
        opening depth (runs.filter (Entry.place count seed ·.first == number))).map
          fun run => run.first.row.key := by
  rw [traces, List.flatMap_map, openedAt, List.filterMap_flatMap, List.map_flatMap]
  refine List.flatMap_congr fun number _ => ?_
  exact openedAt_callsOf sound shallow deep _ _

variable (seed) in
theorem represents_opening (sound : Sound comparators order count) (total : comparators.Total)
    (cuts : Sort.Cuts (Entry.comparePrefix order.groups.size) sorted runs) {depth : Nat}
    (shallow : order.plan.minDepth ≤ depth) (deep : depth ≤ order.plan.maxDepth) :
    Sort.Represents (Entry.comparePrefix (depth + 1) · · = .eq) sorted
      (((List.range count.toNat).flatMap fun number =>
        opening depth (runs.filter (Entry.place count seed ·.first == number))).map Sort.Run.first) := by
  have totalPrefix := Entry.transCmp_comparePrefix sound.ordered total (depth + 1)
  have totalRuns := transCmp_preimage totalPrefix (Sort.Run.first (α := Entry order))
  have inside : depth + 1 ≤ order.groups.size := by
    have size : order.groups.size = order.plan.maxDepth + 1 := sound.ordered.plan.groupBy_length_eq
    omega
  have ascending : runs.Pairwise fun left right =>
      (Entry.comparePrefix (depth + 1) left.first right.first).isLE := by
    refine cuts.ascending.imp fun {left right} less => ?_
    refine RecordOrder.isLE_comparePrefix_of_le inside ?_
    exact Ordering.isLE_of_eq_lt less
  have below : ∀ run ∈ runs, run.first.place count seed < count.toNat :=
    fun run _ => place_lt sound run.first
  have heads := Sort.represents_heads ascending below
    fun left right equal => place_eq sound (Nat.lt_succ_of_le shallow) equal
  refine cuts.represents.coarsen ?_ ?_ (heads.map fun left right => Iff.rfl)
  · intro left right equal
    exact RecordOrder.comparePrefix_eq_of_le inside equal
  · intro left middle right first second
    exact Std.TransCmp.eq_trans first second

theorem opens_traces (sound : Sound comparators order count) (total : comparators.Total)
    (sorts : Sort.StablySorts Entry.compare entries sorted)
    (cuts : Sort.Cuts (Entry.comparePrefix order.groups.size) sorted runs) {depth : Nat}
    (shallow : order.plan.minDepth ≤ depth) (deep : depth ≤ order.plan.maxDepth) :
    order.Opens (entries.map Entry.tuple) depth
      (openedAt depth ((traces count seed runs (List.range count.toNat)).flatMap Prod.snd)) := by
  have represents := represents_opening seed sound total cuts shallow deep
  refine ⟨_, (represents.of_perm sorts.perm).classifies
    (Entry.agrees_prefix sound.ordered (depth + 1)), ?_⟩
  rw [openedAt_traces sound.ordered shallow deep, List.map_map, List.forall₂_map_left_iff,
    List.forall₂_map_right_iff, List.forall₂_same]
  intro run _
  exact ⟨run.first.stored, run.first.row.restores sound.ordered.plan,
    run.first.row.ofTuple_stored sound.ordered.plan⟩

theorem summaryOf_accounts (partition : PartitionId)
    (sorts : Sort.StablySorts Entry.compare entries sorted)
    (cuts : Sort.Cuts (Entry.comparePrefix order.groups.size) sorted runs) :
    (summaryOf partition entries runs).rollup.groups = runs.length ∧
      (summaryOf partition entries runs).rollup.elements = entries.length ∧
      (summaryOf partition entries runs).rollup.opened =
        (summaryOf partition entries runs).rollup.closed := by
  have accounts := (Engine.ofOrder order.groups).trace_accounts order.groups.differAt
    { plan := order.plan, partition } (runs.map groupOf) {}
  obtain ⟨counted, elements, _, balanced⟩ := accounts
  refine ⟨?_, ?_, ?_⟩
  · rw [summaryOf, callsOf, counted, List.length_map]
    exact Nat.zero_add _
  · have lengths : ((runs.map groupOf).map fun group => group.2.length) =
        runs.map fun run => run.items.length := by
      rw [List.map_map]
      refine List.map_congr_left fun run _ => ?_
      exact List.length_map _
    rw [summaryOf, callsOf, elements, lengths, cuts.length_eq, sorts.perm.length_eq]
    exact Nat.zero_add _
  · exact balanced.symm

theorem accounts_runs (sound : Sound comparators order count) (total : comparators.Total)
    (sorts : Sort.StablySorts Entry.compare entries sorted)
    (cuts : Sort.Cuts (Entry.comparePrefix order.groups.size) sorted runs) :
    order.Accounts (entries.map Entry.tuple) (runs.map groupOf)
      ((traces count seed runs (List.range count.toNat)).flatMap Prod.snd)
      { fingerprint := order.plan.fingerprint
        records := entries.length
        partitions := summaries count seed entries runs (List.range count.toNat) } := by
  have parts : ∀ number, _ := fun number =>
    summaryOf_accounts ⟨UInt32.ofNat number⟩ (sorts.filter (Entry.place count seed · == number))
      (cuts_part sound cuts number)
  have dealt := Sort.sum_parts (Entry.place count seed) fun entry (_ : entry ∈ entries) =>
    place_lt sound entry
  have dealtRuns := Sort.sum_parts (fun run : Sort.Run (Entry order) => run.first.place count seed)
    fun run (_ : run ∈ runs) => place_lt sound run.first
  constructor
  · exact perm_leaves sound
  · intro depth shallow deep
    exact opens_traces sound total sorts cuts shallow deep
  · exact (List.length_map _).symm
  · rw [summaries, List.map_map, List.length_map, ← dealt]
    rfl
  · rw [summaries, List.map_map, List.length_map, ← dealt]
    refine congrArg List.sum (List.map_congr_left fun number _ => ?_)
    exact (parts number).2.1
  · rw [List.length_map, ← dealtRuns, Summary.groups, ← List.foldl_map, ← List.sum_eq_foldl,
      summaries, List.map_map]
    refine congrArg List.sum (List.map_congr_left fun number _ => ?_)
    exact (parts number).1
  · intro part member
    obtain ⟨number, _, rfl⟩ := List.mem_map.mp member
    exact (parts number).2.2

/-- Whatever the number of partitions and the seed, a run of accepted tuples succeeds, its handlers
read the same groups, one for each class, and its summary counts all tuples. -/
theorem runWith_cogroups {τ δ : Type} {job : Job} {settings : Settings} {objects : ObjectCodecs}
    {handlers : Handlers τ δ} {runner : Runner}
    (made : ofJob job settings comparators objects handlers = .ok runner)
    (total : comparators.Total) {tuples : List Tuple}
    (accepted : ∀ tuple ∈ tuples, runner.records.Accepts tuple) :
    ∃ groups, runner.order.Cogroups tuples groups ∧
      ∀ partitions seed other,
        ofJob job { settings with partitions, seed } comparators objects handlers = .ok other →
        ∃ calls summary, runner.order.Accounts tuples groups (calls.flatMap Prod.snd) summary ∧
          ∀ (σ ε : Type) (make : PartitionId → Running σ ε (Handler σ ε)), Makes make → ∀ state,
            (other.runWith make tuples).run state = (.ok summary, performAll make calls state) := by
  obtain ⟨order, ordered, rfl, sound⟩ := ofJob_sound made
  obtain ⟨entries, rfl⟩ := Entry.exists_entries sound.ordered.plan sound.knows accepted
  have totalRows := Entry.transCmp_compare sound.ordered total
  have totalGroups := Entry.transCmp_comparePrefix sound.ordered total order.groups.size
  obtain ⟨sorted, _, sorts⟩ :=
    Sort.stable_sorts (Entry.agrees_tuples sound.ordered) .four entries
  have grouped : sorted.Pairwise fun left right =>
      (Entry.comparePrefix order.groups.size left right).isLE :=
    sorts.ascending.imp fun below => RecordOrder.isLE_comparePrefix below order.groups.size
  obtain ⟨runs, cuts⟩ := Sort.exists_cuts grouped
  -- Neither the sorted entries nor their runs depend on how they are dealt out.
  refine ⟨runs.map groupOf, cogroups_runs sound.ordered total sorts cuts, ?_⟩
  intro partitions seed other otherMade
  obtain ⟨otherOrder, otherOrdered, rfl, otherSound⟩ := ofJob_sound otherMade
  have same : order = otherOrder := Except.ok.inj (ordered.symm.trans otherOrdered)
  subst same
  refine ⟨traces (max partitions 1) seed runs (List.range (max partitions 1).toNat), _,
    accounts_runs otherSound total sorts cuts, ?_⟩
  intro σ ε make makes state
  exact outcome_runWith otherSound total makes sorts cuts state

end Runner

/-! A run over three partitions with a handler that counts what it reads. -/

namespace Sample

def settings : Settings := { maxFieldBytes := 100 }

def counter : Handler (Bool × Nat) Unit where
  enter _ state := (true, state.2)
  wants state := state.1
  receive answer state := if answer.isSome then (state.1, state.2 + 1) else (false, state.2)

theorem counter_taken (tuples : List Tuple) (state : Bool × Nat) :
    counter.taken tuples state = (state.1, state.2 + tuples.length) := by
  induction tuples generalizing state with
  | nil => rfl
  | cons tuple tuples ih =>
      have step : counter.taken (tuple :: tuples) state =
          counter.taken tuples (state.1, state.2 + 1) := rfl
      rw [step, ih, List.length_cons, Nat.add_assoc, Nat.add_comm 1]

theorem counter_thorough : counter.Thorough where
  setup _ _ := rfl
  openGroup _ _ _ _ := rfl
  closeGroup _ _ _ _ := rfl
  leave _ _ _ := rfl
  cleanup _ _ := rfl
  asks key tuples state := by
    rw [counter_taken]
    rfl
  stops key tuples state := by
    rw [Handler.readThrough, counter_taken]
    rfl

def runner : Runner :=
  valueOf (Runner.ofJob (σ := Unit) (ε := Unit) job settings .empty .standard .empty) (by decide)

def split : Runner :=
  valueOf (Runner.ofJob (σ := Unit) (ε := Unit) job
    { settings with partitions := 3, seed := some 7 } .empty .standard .empty) (by decide)

theorem runner_made :
    Runner.ofJob (σ := Unit) (ε := Unit) job settings .empty .standard .empty = .ok runner :=
  eq_valueOf _

theorem runner_records : runner.records = records := by
  obtain ⟨order, ordered, same, _⟩ := Runner.ofJob_sound runner_made
  have limit : settings.maxFieldBytes.toNat = 100 := rfl
  rw [Runner.orderOf, built, ok_bind, limit, made, ok_bind] at ordered
  obtain ⟨_, plan, codec⟩ := RecordOrder.ofPlan_sound (Plan.build_sound built).1 ordered
  rw [same, Runner.ofOrder, plan, codec]
  rfl

theorem accepts {tuple : Tuple} (member : tuple ∈ [page, visit, page]) :
    runner.records.Accepts tuple := by
  rw [runner_records]
  simp only [List.mem_cons, List.not_mem_nil, or_false] at member
  rcases member with rfl | rfl | rfl
  · exact ⟨keeps_page, valueOf (records.encode page) (by decide +kernel), eq_valueOf _, by decide +kernel⟩
  · exact ⟨keeps_visit, valueOf (records.encode visit) (by decide +kernel), eq_valueOf _, by decide +kernel⟩
  · exact ⟨keeps_page, valueOf (records.encode page) (by decide +kernel), eq_valueOf _, by decide +kernel⟩

end Sample

theorem Runner.runWith_cogroups_sample :
    ∃ groups, Sample.runner.order.Cogroups [Sample.page, Sample.visit, Sample.page] groups ∧
      ∃ calls summary, Sample.runner.order.Accounts [Sample.page, Sample.visit, Sample.page] groups
          (calls.flatMap Prod.snd) summary ∧
        (Sample.split.runInto Sample.counter [Sample.page, Sample.visit, Sample.page]).run (false, 0) =
          (.ok summary, performAll (fun _ => return Sample.counter) calls (false, 0)) := by
  have total : Comparators.empty.Total := by
    intro name comparator found
    cases found
  have makes : Runner.Makes (ε := Unit) fun _ => return Sample.counter :=
    fun _ state => ⟨Sample.counter, state, rfl, Sample.counter_thorough⟩
  obtain ⟨groups, cogroups, runs⟩ := Runner.runWith_cogroups Sample.runner_made total
    fun tuple (member : tuple ∈ [Sample.page, Sample.visit, Sample.page]) => Sample.accepts member
  obtain ⟨calls, summary, accounts, run⟩ := runs 3 (some 7) Sample.split (eq_valueOf _)
  exact ⟨groups, cogroups, calls, summary, accounts, run _ _ _ makes (false, 0)⟩

end Cogrouping
