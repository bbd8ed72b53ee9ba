import Cogrouping.Proofs.Runner.Entries

/-!
What a runner does with a tuple that it cannot take. Such a tuple has no record, whatever the number of
partitions, and all is over before a handler is made.
-/

namespace Cogrouping

namespace RecordCodec

variable {records : RecordCodec} {tuple : Tuple} {cause : Error} {after : Buffers}

theorem encode_of_error (failed : outcome (records.write tuple) ⟨[], []⟩ = (.error cause, after)) :
    records.encode tuple = .error cause := by
  have run : (records.write tuple).run ⟨[], []⟩ = (.error cause, after) := failed
  rw [encode, run]
  rfl

theorem encode_of_leading (sound : records.plan.Sound) {source : SourcePlan}
    (named : records.plan.sourceNamed tuple.schema.name = .ok source)
    (sized : tuple.size = source.schema.size) {count : Nat}
    (failed : outcome (encodeSlots records.fields tuple source.id (records.plan.common.fields.take count)
      (source.commonSlots.take count)) ⟨[], []⟩ = (.error cause, after)) :
    records.encode tuple = .error cause := by
  obtain ⟨declared, planned, _⟩ := (Plan.sourceNamed_eq_ok sound).mp named
  have same : (records.plan.common.fields.take count).length = (source.commonSlots.take count).length := by
    rw [List.length_take, List.length_take, planned.sound.feedsCommon.length_eq]
  have whole : outcome (encodeSlots records.fields tuple source.id records.plan.common.fields
      source.commonSlots) ⟨[], []⟩ = (.error cause, after) := by
    rw [← List.take_append_drop count records.plan.common.fields,
      ← List.take_append_drop count source.commonSlots, encodeSlots_append tuple source.id same,
      outcome_bind_of_error failed]
  apply encode_of_error
  rw [outcome_write sound named sized, outcome_bind_of_error whole]

end RecordCodec

def Plan.Sizes (plan : Plan) (tuple : Tuple) : Prop :=
  ∀ source, plan.sourceNamed tuple.schema.name = .ok source → tuple.size = source.schema.size

namespace Partitioner

variable {partitioner : Partitioner} {tuple : Tuple} {cause : Error} {after : Buffers}

theorem encode_of_assign_error (sound : partitioner.plan.Sound) (sized : partitioner.plan.Sizes tuple)
    (failed : outcome (partitioner.assign tuple) ⟨[], []⟩ = (.error cause, after)) :
    (RecordCodec.mk partitioner.plan partitioner.codec).encode tuple = .error cause := by
  by_cases single : partitioner.count = 1
  · rw [assign, if_pos single, outcome_pure] at failed
    cases failed
  · cases named : partitioner.plan.sourceNamed tuple.schema.name with
    | error other =>
        have unnamed : ∀ buffers : Buffers, outcome (ofExcept (.error other : Except Error SourcePlan) :
            Writing SourcePlan) buffers = (.error other, buffers) := outcome_ofExcept _
        rw [assign, if_neg single, named, outcome_bind_of_error (unnamed _)] at failed
        cases failed
        apply RecordCodec.encode_of_error
        rw [RecordCodec.write]
        simp only [named]
        exact outcome_bind_of_error (unnamed _)
    | ok source =>
        rw [assign_named sound single named, outcome_bind] at failed
        cases written : outcome (RecordCodec.encodeSlots partitioner.codec tuple source.id
            (partitioner.plan.common.fields.take (partitioner.plan.minDepth + 1))
            (source.commonSlots.take (partitioner.plan.minDepth + 1))) ⟨[], []⟩ with
        | mk result between =>
            rw [written] at failed
            cases result with
            | ok => cases failed
            | error other =>
                cases failed
                have recordsSound : (RecordCodec.mk partitioner.plan partitioner.codec).plan.Sound := sound
                exact RecordCodec.encode_of_leading recordsSound named (sized source named) written

end Partitioner

namespace Runner

open Run

variable {runner : Runner} {tuple : Tuple} {tuples : List Tuple} {cause : Error}

/-- A tuple has no partition, or it has one and no record, and why. -/
inductive Declines (runner : Runner) (tuple : Tuple) : Error → Prop
  | unplaced {cause : Error} : (outcome (runner.partitioner.assign tuple) ⟨[], []⟩).1 = .error cause →
      Declines runner tuple cause
  | unwritten {id : PartitionId} {cause : Error} :
      (outcome (runner.partitioner.assign tuple) ⟨[], []⟩).1 = .ok id →
      runner.records.encode tuple = .error cause → Declines runner tuple cause

theorem assign_eq_error : runner.assign tuple = .error cause ↔ runner.Declines tuple cause := by
  rw [assign_eq]
  constructor
  · intro failed
    cases assigned : (outcome (runner.partitioner.assign tuple) ⟨[], []⟩).1 with
    | error other =>
        rw [assigned, error_bind] at failed
        exact Except.error.inj failed ▸ .unplaced assigned
    | ok id =>
        rw [assigned, ok_bind, map_eq_error] at failed
        exact .unwritten assigned failed
  · rintro (unplaced | ⟨assigned, unwritten⟩)
    · rw [unplaced, error_bind]
    · rw [assigned, ok_bind, map_eq_error]
      exact unwritten

theorem exists_declines (refused : (∃ cause, (outcome (runner.partitioner.assign tuple) ⟨[], []⟩).1 = .error cause) ∨
    ∃ cause, runner.records.encode tuple = .error cause) : ∃ cause, runner.Declines tuple cause := by
  cases assigned : (outcome (runner.partitioner.assign tuple) ⟨[], []⟩).1 with
  | error cause => exact ⟨cause, .unplaced assigned⟩
  | ok id =>
      rcases refused with ⟨cause, unplaced⟩ | ⟨cause, unwritten⟩
      · rw [assigned] at unplaced
        cases unplaced
      · exact ⟨cause, .unwritten assigned unwritten⟩

/-- The first of some tuples that a runner cannot partition or write, and why it cannot. -/
def FirstRefused (runner : Runner) (tuples : List Tuple) (tuple : Tuple) (cause : Error) : Prop :=
  ∃ before behind, tuples = before ++ tuple :: behind ∧
    (∀ earlier ∈ before, ∃ placed, runner.Places earlier placed) ∧ runner.Declines tuple cause

/-- Whatever handlers there are to be, a run fails and leaves what it found: it makes none, and no call. -/
def Refuses (runner : Runner) (tuples : List Tuple) (cause : Error) : Prop :=
  ∀ {σ ε : Type} (make : PartitionId → Running σ ε (Handler σ ε)) (handler : Handler σ ε) (state : σ),
    outcome (runner.runWith make tuples) state = (.error (.failed (.engine cause)), state) ∧
      outcome (runner.runInto handler tuples) state = (.error (.failed (.engine cause)), state)

theorem mapM_assign_eq_error : tuples.mapM runner.assign = .error cause ↔
    ∃ tuple, runner.FirstRefused tuples tuple cause := by
  simp only [mapM_eq_error, assign_eq_ok, assign_eq_error, FirstRefused]
  constructor
  · rintro ⟨before, tuple, behind, split⟩
    exact ⟨tuple, before, behind, split⟩
  · rintro ⟨tuple, before, behind, split⟩
    exact ⟨before, tuple, behind, split⟩

theorem FirstRefused.refuses (first : runner.FirstRefused tuples tuple cause) :
    runner.Refuses tuples cause := by
  have stopped : (runner.distribute tuples).mapError Stop.failed = .error (.failed cause) := by
    rw [distribute, mapM_assign_eq_error.mpr ⟨tuple, first⟩]
    rfl
  intro σ ε make handler state
  have stops : ∀ make : PartitionId → Running σ ε (Handler σ ε),
      outcome (runner.runWith make tuples) state = (.error (.failed (.engine cause)), state) := by
    intro make
    rw [runWith, outcome_bind_of_error (outcome_raise_of_error stopped state)]
    rfl
  exact ⟨stops make, stops _⟩

theorem exists_firstRefused (refused : ∃ tuple ∈ tuples, ∃ cause, runner.Declines tuple cause) :
    ∃ tuple cause, runner.FirstRefused tuples tuple cause := by
  obtain ⟨tuple, member, cause, declines⟩ := refused
  cases assigned : tuples.mapM runner.assign with
  | error told =>
      obtain ⟨first, refused⟩ := mapM_assign_eq_error.mp assigned
      exact ⟨first, told, refused⟩
  | ok placed =>
      obtain ⟨other, _, taken⟩ := (mapM_eq_ok.mp assigned).exists_right member
      rw [assign_eq_error.mpr declines] at taken
      cases taken

variable {order : RecordOrder} {count : UInt64} {seed : Option UInt64}

theorem exists_places (sound : order.plan.Sound) {record : Bytes}
    (encoded : (RecordCodec.mk order.plan order.codec).encode tuple = .ok record) :
    ∃ id, (ofOrder order count seed).Places tuple (id, record) := by
  have assignSound : (ofOrder order count seed).partitioner.plan.Sound := sound
  obtain ⟨id, after, assigned⟩ := Partitioner.exists_assigned assignSound encoded ⟨[], []⟩
  exact ⟨id, congrArg Prod.fst assigned, encoded⟩

/-- Why a tuple is declined does not depend on the partitions: it has no record for the same cause. -/
theorem Declines.encode_eq (sound : order.plan.Sound) (sized : order.plan.Sizes tuple)
    (declines : (ofOrder order count seed).Declines tuple cause) :
    (RecordCodec.mk order.plan order.codec).encode tuple = .error cause := by
  have assignSound : (ofOrder order count seed).partitioner.plan.Sound := sound
  cases declines with
  | unplaced unplaced => exact Partitioner.encode_of_assign_error assignSound sized (Prod.ext unplaced rfl)
  | unwritten _ unwritten => exact unwritten

theorem FirstRefused.other (sound : order.plan.Sound)
    (first : (ofOrder order count seed).FirstRefused tuples tuple cause)
    (sized : order.plan.Sizes tuple) (otherCount : UInt64) (otherSeed : Option UInt64) :
    (ofOrder order otherCount otherSeed).FirstRefused tuples tuple cause := by
  obtain ⟨before, behind, split, earlier, declines⟩ := first
  have unwritten := declines.encode_eq sound sized
  have declinesToo : ∃ told, (ofOrder order otherCount otherSeed).Declines tuple told :=
    exists_declines (.inr ⟨cause, unwritten⟩)
  obtain ⟨told, declinesToo⟩ := declinesToo
  obtain rfl := Except.error.inj (unwritten.symm.trans (declinesToo.encode_eq sound sized))
  refine ⟨before, behind, split, fun other member => ?_, declinesToo⟩
  obtain ⟨placed, places⟩ := earlier other member
  obtain ⟨id, placesToo⟩ := exists_places sound places.encoded
  exact ⟨_, placesToo⟩

end Runner

end Cogrouping
