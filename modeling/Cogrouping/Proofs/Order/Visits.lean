import Cogrouping.Proofs.Phases.Plain
import Cogrouping.Proofs.Wire.Boundaries

/-!
Which fields a comparison of records comes to, and where. A comparison goes on as long as it holds the
fields equal, and on either side it measures the fields that it leaves behind. Whatever the other record
is, it comes to the fields of a record that can be read where they begin.
-/

namespace Cogrouping

inductive Side
  | left
  | right

namespace Side

def of {α : Type} : Side → α → α → α
  | .left, first, _ => first
  | .right, _, second => second

def offset (side : Side) (progress : Progress) : Nat := side.of progress.left progress.right

end Side

namespace SortKey

variable {key : SortKey} {codec : FieldCodec}

def measure (key : SortKey) (codec : FieldCodec) (buffer : Bytes) (offset : Nat) : Except Error Nat :=
  match key.comparator, key.type with
  | some _, type => (codec.decode buffer offset type).map Prod.snd
  | none, .text => (codec.textBytes buffer offset).map Prod.snd
  | none, .object _ => .error (.unorderableField key.name)
  | none, type => codec.skip buffer offset type

theorem measure_of_compareEncoded {left right : Bytes} {leftOffset rightOffset leftSize rightSize : Nat}
    {ascending : Ordering}
    (compared : key.compareEncoded codec left leftOffset right rightOffset =
      .ok (ascending, leftSize, rightSize)) :
    key.measure codec left leftOffset = .ok leftSize ∧
      key.measure codec right rightOffset = .ok rightSize := by
  unfold compareEncoded at compared
  unfold measure
  cases given : key.comparator with
  | some comparator =>
      simp only [given] at compared
      obtain ⟨⟨leftValue, leftWidth⟩, leftRead, compared⟩ := bind_eq_ok.mp compared
      obtain ⟨⟨rightValue, rightWidth⟩, rightRead, compared⟩ := bind_eq_ok.mp compared
      cases compared
      simp only [leftRead, rightRead, Except.map, and_self]
  | none =>
      cases typed : key.type with
      | text =>
          simp only [given, typed] at compared
          obtain ⟨⟨leftBytes, leftWidth⟩, leftRead, compared⟩ := bind_eq_ok.mp compared
          obtain ⟨⟨rightBytes, rightWidth⟩, rightRead, compared⟩ := bind_eq_ok.mp compared
          cases compared
          simp only [leftRead, rightRead, Except.map, and_self]
      | object name =>
          simp only [given, typed] at compared
          cases compared
      | _ =>
          simp only [given, typed] at compared
          obtain ⟨leftWidth, leftSkipped, compared⟩ := bind_eq_ok.mp compared
          obtain ⟨rightWidth, rightSkipped, compared⟩ := bind_eq_ok.mp compared
          cases compared
          exact ⟨leftSkipped, rightSkipped⟩

theorem measure_of_decode {buffer : Bytes} {offset size measured : Nat} {value : Value}
    (read : codec.decode buffer offset key.type = .ok (value, size))
    (done : key.measure codec buffer offset = .ok measured) : measured = size := by
  have measures := FieldCodec.decode_measures read
  unfold measure at done
  cases given : key.comparator with
  | some comparator =>
      simp only [given, read, Except.map, Except.ok.injEq] at done
      exact done.symm
  | none =>
      cases typed : key.type with
      | text =>
          obtain ⟨payload, measures⟩ := measures.text typed
          simp only [given, typed, measures, Except.map, Except.ok.injEq] at done
          exact done.symm
      | object name =>
          simp only [given, typed] at done
          cases done
      | _ =>
          have skipped := measures.skipped
          simp only [given, typed] at done
          rw [typed, done, Except.ok.injEq] at skipped
          exact skipped

end SortKey

namespace RecordOrder

variable {order : RecordOrder} {left right : Bytes}

theorem compareCommonBytes_cons_eq {progress next : Progress} {key : SortKey} {keys : List SortKey} :
    order.compareCommonBytes left right progress (key :: keys) = .ok (.eq, next) ↔
      ∃ ascending between, order.compareField left right progress key = .ok (ascending, between) ∧
        key.direction.apply ascending = .eq ∧
        order.compareCommonBytes left right between keys = .ok (.eq, next) := by
  rw [compareCommonBytes_cons]
  constructor
  · intro done
    obtain ⟨⟨ascending, between⟩, here, done⟩ := bind_eq_ok.mp done
    cases equal : key.direction.apply ascending with
    | lt => simp [equal] at done
    | gt => simp [equal] at done
    | eq =>
        simp only [equal] at done
        exact ⟨ascending, between, here, equal, done⟩
  · rintro ⟨ascending, between, here, equal, done⟩
    rw [here, ok_bind]
    simp only [equal]
    exact done

theorem compareCommonBytes_eq_error {progress : Progress} {keys : List SortKey} {cause : Error} :
    order.compareCommonBytes left right progress keys = .error cause ↔
      ∃ before key behind next, keys = before ++ key :: behind ∧
        order.compareCommonBytes left right progress before = .ok (.eq, next) ∧
        order.compareField left right next key = .error cause := by
  induction keys generalizing progress with
  | nil => simp [compareCommonBytes]
  | cons first keys ih =>
      rw [compareCommonBytes_cons]
      constructor
      · intro failed
        cases here : order.compareField left right progress first with
        | error other =>
            rw [here, error_bind, Except.error.injEq] at failed
            exact ⟨[], first, keys, progress, rfl, rfl, failed ▸ here⟩
        | ok step =>
            rw [here, ok_bind] at failed
            cases equal : first.direction.apply step.1 with
            | lt => simp [equal] at failed
            | gt => simp [equal] at failed
            | eq =>
                simp only [equal] at failed
                obtain ⟨before, key, behind, next, rfl, passed, failed⟩ := ih.mp failed
                exact ⟨first :: before, key, behind, next, rfl,
                  compareCommonBytes_cons_eq.mpr ⟨_, _, here, equal, passed⟩, failed⟩
      · rintro ⟨before, key, behind, next, split, passed, failed⟩
        cases before with
        | nil =>
            cases split
            cases passed
            rw [failed, error_bind]
        | cons other before =>
            cases split
            obtain ⟨ascending, between, here, equal, passed⟩ := compareCommonBytes_cons_eq.mp passed
            rw [here, ok_bind]
            simp only [equal]
            exact ih.mpr ⟨before, key, behind, next, rfl, passed, failed⟩

theorem compareSecondaryBytes_eq {keys : List SortKey} (unmarked : ∀ key ∈ keys, key.isSourceId = false)
    (progress : Progress) :
    order.compareSecondaryBytes left right progress.left progress.right keys =
      (order.compareCommonBytes left right progress keys).map Prod.fst := by
  induction keys generalizing progress with
  | nil => rfl
  | cons key keys ih =>
      rw [List.forall_mem_cons] at unmarked
      rw [compareSecondaryBytes, compareCommonBytes_cons, compareField, unmarked.1]
      cases key.compareEncoded order.codec left progress.left right progress.right with
      | error cause => rfl
      | ok compared =>
          obtain ⟨ascending, leftSize, rightSize⟩ := compared
          simp only [ok_bind, Bool.false_eq_true, if_false, pure_eq_ok]
          cases key.direction.apply ascending with
          | lt => rfl
          | gt => rfl
          | eq => exact ih unmarked.2 ⟨progress.left + leftSize, progress.right + rightSize, progress.sources⟩

/-- A comparison of records comes to a key, its cursors as far as the fields before it reach. -/
inductive Visits (order : RecordOrder) (keys : List SortKey) (withSecondary : Bool) (left right : Bytes) :
    Progress → SortKey → Prop
  | common {before behind : List SortKey} {key : SortKey} {progress : Progress} :
      keys = before ++ key :: behind →
      order.compareCommonBytes left right ⟨0, 0, none⟩ before = .ok (.eq, progress) →
      Visits order keys withSecondary left right progress key
  | secondary {before behind : List SortKey} {key : SortKey} {id : SourceId}
      {between progress : Progress} : withSecondary = true →
      order.compareCommonBytes left right ⟨0, 0, none⟩ keys = .ok (.eq, between) →
      order.sharedSource? between = some id → order.secondaryOf id = before ++ key :: behind →
      order.compareCommonBytes left right between before = .ok (.eq, progress) →
      Visits order keys withSecondary left right progress key

variable {comparators : Comparators} {codec : FieldCodec}

theorem unmarked_secondary {plan : Plan} (sound : plan.Sound)
    (made : ofPlan plan codec comparators = .ok order) {id : SourceId} :
    ∀ key ∈ order.secondaryOf id, key.isSourceId = false := by
  intro key member
  obtain ⟨declared, source, planned, rfl⟩ := exists_planned_of_secondary sound made member
  obtain ⟨orderSound, rfl, rfl⟩ := ofPlan_sound sound made
  obtain ⟨⟨leading, rest, split, sorted⟩, _⟩ := orderSound.secondary declared source planned
  obtain ⟨field, inside, sorts⟩ := sorted.exists_right member
  have specific : field ∈ source.specific.fields := split ▸ List.mem_append_left _ inside
  obtain ⟨slot, placed, feeds⟩ := planned.sound.feedsSpecific.exists_right specific
  obtain ⟨position, _, rfl⟩ := List.mem_map.mp placed
  cases feeds with
  | field unmarked =>
      rw [SortKey.isSourceId, sorts.name]
      exact unmarked

/-- A comparison fails where it comes to a key whose fields it cannot compare, and nowhere else. -/
theorem compareBytesBy_eq_error {plan : Plan} (sound : plan.Sound)
    (made : ofPlan plan codec comparators = .ok order) {keys : List SortKey} {withSecondary : Bool}
    {cause : Error} :
    order.compareBytesBy keys withSecondary left right = .error cause ↔
      ∃ progress key, order.Visits keys withSecondary left right progress key ∧
        order.compareField left right progress key = .error cause := by
  have secondary (id : SourceId) (progress : Progress) :
      order.compareSecondaryBytes left right progress.left progress.right (order.secondaryOf id) =
        (order.compareCommonBytes left right progress (order.secondaryOf id)).map Prod.fst :=
    compareSecondaryBytes_eq (unmarked_secondary sound made) progress
  rw [compareBytesBy]
  constructor
  · intro failed
    cases walked : order.compareCommonBytes left right ⟨0, 0, none⟩ keys with
    | error other =>
        rw [walked, error_bind, Except.error.injEq] at failed
        obtain ⟨before, key, behind, next, rfl, passed, failed⟩ :=
          compareCommonBytes_eq_error.mp (failed ▸ walked)
        exact ⟨next, key, .common rfl passed, failed⟩
    | ok step =>
        obtain ⟨ordering, between⟩ := step
        rw [walked, ok_bind] at failed
        dsimp only at failed
        split at failed
        · rename_i equal
          simp only [Bool.and_eq_true, decide_eq_true_eq] at equal
          obtain ⟨rfl, wanted⟩ := equal
          split at failed
          · rename_i id shared
            rw [secondary, map_eq_error] at failed
            obtain ⟨before, key, behind, next, split, passed, failed⟩ := compareCommonBytes_eq_error.mp failed
            exact ⟨next, key, .secondary wanted walked shared split passed, failed⟩
          · cases failed
        · cases failed
  · rintro ⟨progress, key, visits, failed⟩
    cases visits with
    | common split passed =>
        rw [compareCommonBytes_eq_error.mpr ⟨_, key, _, progress, split, passed, failed⟩, error_bind]
    | secondary wanted walked shared split passed =>
        rw [walked, ok_bind]
        simp only [wanted, decide_true, Bool.and_self, if_true, shared]
        rw [secondary, map_eq_error]
        exact compareCommonBytes_eq_error.mpr ⟨_, key, _, progress, split, passed, failed⟩

def Along (fields : List Field) (place : Nat) (keys : List SortKey) : Prop :=
  ∀ (index : Nat) (key : SortKey), keys[index]? = some key →
    ∃ field, fields[place + index]? = some field ∧ key.SortsBy field

namespace Along

variable {fields : List Field} {place : Nat} {key : SortKey} {keys : List SortKey}

theorem of_forall₂ {before between behind : List Field} (sorts : List.Forall₂ SortKey.SortsBy keys between) :
    Along (before ++ (between ++ behind)) before.length keys := by
  intro index key found
  obtain ⟨field, here, sorted⟩ := sorts.getElem?_left found
  have inside := (List.getElem?_eq_some_iff.mp here).1
  refine ⟨field, ?_, sorted⟩
  rw [List.getElem?_append_right (by omega), Nat.add_sub_cancel_left, List.getElem?_append_left inside, here]

theorem first (along : Along fields place (key :: keys)) :
    ∃ field, fields[place]? = some field ∧ key.SortsBy field := along 0 key rfl

theorem rest (along : Along fields place (key :: keys)) : Along fields (place + 1) keys := by
  intro index other found
  obtain ⟨field, here, sorts⟩ := along (index + 1) other found
  exact ⟨field, by rw [Nat.add_right_comm]; exact here, sorts⟩

theorem take (along : Along fields place keys) (count : Nat) : Along fields place (keys.take count) := by
  intro index other found
  rw [List.getElem?_take] at found
  split at found
  · exact along index other found
  · cases found

theorem split {before behind : List SortKey} (along : Along fields place (before ++ key :: behind)) :
    Along fields place before ∧ ∃ field, fields[place + before.length]? = some field ∧ key.SortsBy field := by
  constructor
  · have front := along.take before.length
    rwa [List.take_left] at front
  · exact along before.length key (by simp)

end Along

structure Reaches (side : Side) (source : SourcePlan) (start : Nat → Nat) (place : Nat)
    (progress : Progress) : Prop where
  offset : side.offset progress = start place
  numbered : ∀ leftId rightId, progress.sources = some (leftId, rightId) →
    side.of leftId rightId = source.id

variable {side : Side} {source : SourcePlan} {start : Nat → Nat} {place : Nat} {progress next : Progress}

theorem compareField_reaches {key : SortKey} {field : Field} {ascending : Ordering}
    (begins : (RecordCodec.mk order.plan order.codec).Begins source (side.of left right) start)
    (found : (order.plan.recordFields source)[place]? = some field) (sorts : key.SortsBy field)
    (reaches : Reaches side source start place progress)
    (done : order.compareField left right progress key = .ok (ascending, next)) :
    Reaches side source start (place + 1) next := by
  obtain ⟨offset, numbered⟩ := reaches
  rw [compareField] at done
  cases marked : key.isSourceId with
  | true =>
      rw [SortKey.isSourceId, sorts.name] at marked
      obtain ⟨size, behind, read⟩ := begins.sourceId place field found marked
      rw [if_pos (by rw [SortKey.isSourceId, sorts.name]; exact marked)] at done
      obtain ⟨⟨leftId, leftSize⟩, leftRead, done⟩ := bind_eq_ok.mp done
      obtain ⟨⟨rightId, rightSize⟩, rightRead, done⟩ := bind_eq_ok.mp done
      cases done
      rw [← offset] at read behind
      cases side with
      | left =>
          cases leftRead.symm.trans read
          exact ⟨behind.symm, by rintro _ _ ⟨⟩; rfl⟩
      | right =>
          cases rightRead.symm.trans read
          exact ⟨behind.symm, by rintro _ _ ⟨⟩; rfl⟩
  | false =>
      have unmarked : field.isSourceId = false := by
        rw [← marked, SortKey.isSourceId, sorts.name, Field.isSourceId]
      obtain ⟨value, size, behind, read⟩ := begins.value place field found unmarked
      rw [marked, if_neg Bool.false_ne_true] at done
      obtain ⟨⟨compared, leftSize, rightSize⟩, walked, done⟩ := bind_eq_ok.mp done
      obtain ⟨leftMeasured, rightMeasured⟩ := SortKey.measure_of_compareEncoded walked
      cases done
      rw [← offset, ← sorts.type] at read
      rw [← offset] at behind
      cases side with
      | left => exact ⟨by rw [behind, ← SortKey.measure_of_decode read leftMeasured]; rfl, numbered⟩
      | right => exact ⟨by rw [behind, ← SortKey.measure_of_decode read rightMeasured]; rfl, numbered⟩

theorem compareCommonBytes_reaches {keys : List SortKey}
    (begins : (RecordCodec.mk order.plan order.codec).Begins source (side.of left right) start)
    (along : Along (order.plan.recordFields source) place keys)
    (reaches : Reaches side source start place progress)
    (done : order.compareCommonBytes left right progress keys = .ok (.eq, next)) :
    Reaches side source start (place + keys.length) next := by
  induction keys generalizing place progress with
  | nil =>
      cases done
      exact reaches
  | cons key keys ih =>
      obtain ⟨field, found, sorts⟩ := along.first
      obtain ⟨ascending, between, here, -, done⟩ := compareCommonBytes_cons_eq.mp done
      have ended := ih along.rest (compareField_reaches begins found sorts reaches here) done
      rwa [Nat.add_right_comm, Nat.add_assoc] at ended

theorem along_common (sound : order.Sound comparators) :
    Along (order.plan.recordFields source) 0 order.common := by
  rw [Plan.recordFields, ← List.nil_append (_ ++ _)]
  exact .of_forall₂ sound.common

theorem along_secondary (sound : order.Sound comparators) {declared : Source}
    (planned : order.plan.Planned declared source) :
    Along (order.plan.recordFields source) order.plan.common.fields.length (order.secondaryOf source.id) := by
  obtain ⟨⟨leading, rest, split, sorts⟩, _⟩ := sound.secondary declared source planned
  rw [Plan.recordFields, split]
  exact .of_forall₂ sorts

theorem sharedSource?_reaches (sound : order.plan.Sound) {declared : Source}
    (planned : order.plan.Planned declared source) (reaches : Reaches side source start place progress)
    {id : SourceId} (shared : order.sharedSource? progress = some id) : id = source.id := by
  rw [sharedSource?] at shared
  cases read : progress.sources with
  | some ids =>
      obtain ⟨leftId, rightId⟩ := ids
      have own := reaches.numbered leftId rightId read
      simp only [read, Option.ite_none_right_eq_some, Option.some.injEq] at shared
      obtain ⟨rfl, rfl⟩ := shared
      cases side with
      | left => exact own
      | right => exact own
  | none =>
      simp only [read, sound.isMultiSource_eq, decide_eq_true_eq, Option.ite_none_left_eq_some] at shared
      obtain ⟨single, shared⟩ := shared
      rw [planned.head?_of_single sound single, Option.map_some, Option.some.injEq] at shared
      exact shared.symm

/-- A comparison with a record comes to each of its fields where the field begins. -/
def Meets (order : RecordOrder) (keys : List SortKey) (withSecondary : Bool) (source : SourcePlan)
    (record : Bytes) (start : Nat → Nat) : Prop :=
  ∀ (side : Side) (left right : Bytes) (progress : Progress) (key : SortKey),
    side.of left right = record → order.Visits keys withSecondary left right progress key →
    ∃ place field, (order.plan.recordFields source)[place]? = some field ∧ field.name = key.name ∧
      side.offset progress = start place

theorem meets_of_begins (sound : order.Sound comparators) {declared : Source} {record : Bytes}
    (planned : order.plan.Planned declared source)
    (begins : (RecordCodec.mk order.plan order.codec).Begins source record start) (count : Nat)
    {withSecondary : Bool} (whole : withSecondary = true → order.common.length ≤ count) :
    order.Meets (order.common.take count) withSecondary source record start := by
  intro side left right progress key same visits
  subst same
  have along : Along (order.plan.recordFields source) 0 (order.common.take count) :=
    (along_common sound).take count
  have begun : Reaches side source start 0 ⟨0, 0, none⟩ := by
    refine ⟨?_, by rintro _ _ ⟨⟩⟩
    rw [begins.first]
    cases side with
    | left => rfl
    | right => rfl
  cases visits with
  | common split passed =>
      rw [split] at along
      obtain ⟨front, field, found, sorts⟩ := along.split
      exact ⟨_, field, found, sorts.name.symm, (compareCommonBytes_reaches begins front begun passed).offset⟩
  | secondary wanted walked shared split passed =>
      rw [List.take_of_length_le (whole wanted)] at walked along
      have behind := compareCommonBytes_reaches begins along begun walked
      obtain rfl := sharedSource?_reaches sound.plan planned behind shared
      rw [Nat.zero_add, sound.common.length_eq] at behind
      have along := along_secondary sound planned
      rw [split] at along
      obtain ⟨front, field, found, sorts⟩ := along.split
      exact ⟨_, field, found, sorts.name.symm, (compareCommonBytes_reaches begins front behind passed).offset⟩

end RecordOrder

/-- Reading a value, passing over it and looking at its text come to one length, which the bytes of the
value alone decide. So finding the source of a record, reading it and comparing it with any other come to
each of its fields at one offset. -/
theorem FieldCodec.boundaries_agree (codec : FieldCodec) :
    (∀ buffer offset type value size, codec.decode buffer offset type = .ok (value, size) →
      codec.Measures buffer offset type value size) ∧
    ∀ job plan comparators order, Plan.build job = .ok plan →
      RecordOrder.ofPlan plan codec comparators = .ok order →
      ∀ record tuple, (RecordCodec.mk plan codec).decode record = .ok tuple →
        ∃ source start, (RecordCodec.mk plan codec).sourceOf record = .ok source ∧
          (RecordCodec.mk plan codec).Begins source record start ∧
          (RecordCodec.mk plan codec).Walks source record start ∧
          order.Meets order.common true source record start ∧
          order.Meets order.groups.keys false source record start := by
  refine ⟨fun _ _ _ _ _ => decode_measures, ?_⟩
  intro job plan comparators order built resolved record tuple read
  obtain ⟨planSound, rfl⟩ := Plan.build_sound built
  obtain ⟨sound, rfl, rfl⟩ := RecordOrder.ofPlan_sound planSound resolved
  obtain ⟨declared, source, planned, found, parses⟩ := RecordCodec.parses_of_decode planSound read
  obtain ⟨start, begins, walks⟩ := RecordCodec.exists_begins planSound planned found parses
  refine ⟨source, start, found, begins, walks, ?_, ?_⟩
  · have meets : order.Meets (order.common.take order.common.length) true source record start :=
      RecordOrder.meets_of_begins sound planned begins order.common.length fun _ => le_rfl
    rwa [List.take_length] at meets
  · exact RecordOrder.meets_of_begins sound planned begins order.groups.size (by simp)

/-- The fields of the record of a page, whose text is one of three bytes. -/
theorem FieldCodec.boundaries_agree_sample :
    Sample.fields.Measures [0x81, 1, 97, 0x81, 1, 0x81, 1] 0 .text (.text "a") 3 ∧
    ∃ source start, Sample.records.sourceOf [0x81, 1, 97, 0x81, 1, 0x81, 1] = .ok source ∧
      Sample.records.Begins source [0x81, 1, 97, 0x81, 1, 0x81, 1] start ∧
      Sample.records.Walks source [0x81, 1, 97, 0x81, 1, 0x81, 1] start ∧
      Sample.order.Meets Sample.order.common true source [0x81, 1, 97, 0x81, 1, 0x81, 1] start ∧
      Sample.order.Meets Sample.order.groups.keys false source [0x81, 1, 97, 0x81, 1, 0x81, 1] start :=
  ⟨(boundaries_agree Sample.fields).1 _ _ _ _ _ (by decide +kernel),
    (boundaries_agree Sample.fields).2 _ _ _ _ Sample.built (eq_valueOf _) _ Sample.page (by decide +kernel)⟩

end Cogrouping
