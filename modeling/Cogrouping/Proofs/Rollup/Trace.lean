import Cogrouping.Proofs.Rollup.Walk

/-!
What can be told from the calls of a walk: the groups that are read, the keys that are opened at each
depth, and that all that is opened is closed.
-/

namespace Cogrouping.Rollup

def Call.leaf? : Call → Option (GroupKey × List Tuple)
  | .elements key tuples => some (key, tuples)
  | _ => none

def Call.openedAt? (depth : Nat) : Call → Option GroupKey
  | .openGroup here _ key => if here = depth then some key else none
  | _ => none

def leaves (calls : List Call) : List (GroupKey × List Tuple) := calls.filterMap Call.leaf?

def openedAt (depth : Nat) (calls : List Call) : List GroupKey := calls.filterMap (Call.openedAt? depth)

theorem leaves_append (calls others : List Call) :
    leaves (calls ++ others) = leaves calls ++ leaves others :=
  List.filterMap_append

theorem openedAt_append (depth : Nat) (calls others : List Call) :
    openedAt depth (calls ++ others) = openedAt depth calls ++ openedAt depth others :=
  List.filterMap_append

def Call.isOpen : Call → Bool
  | .openGroup .. => true
  | _ => false

theorem Stats.foldl_opened (calls : List Call) (stats : Stats) :
    (calls.foldl Stats.after stats).opened = stats.opened + calls.countP Call.isOpen := by
  induction calls generalizing stats with
  | nil => rfl
  | cons call calls ih =>
      rw [List.foldl_cons, ih, List.countP_cons]
      cases call with
      | openGroup => simp [Stats.after, Call.isOpen, Nat.add_comm, Nat.add_left_comm]
      | _ => rfl

namespace Engine

variable (engine : Engine) (differ : GroupKey → GroupKey → Nat) (key : GroupKey) (first : Nat)

theorem leaves_opens : leaves (engine.opens key first) = [] := by
  simp [leaves, opens, List.filterMap_map, Function.comp_def, Call.leaf?]

theorem leaves_closes : leaves (engine.closes key first) = [] := by
  simp [leaves, closes, List.filterMap_map, Function.comp_def, Call.leaf?]

theorem openedAt_closes (depth : Nat) : openedAt depth (engine.closes key first) = [] := by
  simp [openedAt, closes, List.filterMap_map, Function.comp_def, Call.openedAt?]

theorem mem_depthsFrom {depth : Nat} :
    depth ∈ engine.depthsFrom first ↔ first ≤ depth ∧ depth ≤ engine.maxDepth := by
  rw [depthsFrom, List.mem_range'_1]
  omega

theorem openedAt_opens (depth : Nat) :
    openedAt depth (engine.opens key first) =
      if depth ∈ engine.depthsFrom first then [key] else [] := by
  have distinct : (engine.depthsFrom first).Nodup := List.nodup_range'
  rw [openedAt, opens, List.filterMap_map]
  generalize engine.depthsFrom first = depths at distinct ⊢
  induction depths with
  | nil => rfl
  | cons other depths ih =>
      rw [List.nodup_cons] at distinct
      rw [List.filterMap_cons, ih distinct.2]
      by_cases here : other = depth
      · subst here
        simp [Call.openedAt?, distinct.1]
      · have there : ¬depth = other := fun same => here same.symm
        simp [Call.openedAt?, here, there]

theorem leaves_turns (key : GroupKey) (previous : Option GroupKey) :
    leaves (engine.turns differ key previous) = [] := by
  rw [turns, leaves_append, leaves_opens, List.append_nil]
  cases previous with
  | none => rfl
  | some before => exact engine.leaves_closes before _

theorem leaves_calls (previous : Option GroupKey) (groups : List (GroupKey × List Tuple)) :
    leaves (engine.calls differ previous groups) = groups := by
  induction groups generalizing previous with
  | nil =>
      cases previous with
      | none => rfl
      | some before => exact engine.leaves_closes before engine.minDepth
  | cons group groups ih =>
      obtain ⟨key, tuples⟩ := group
      rw [calls, leaves_append, leaves_turns, List.nil_append]
      exact congrArg ((key, tuples) :: ·) (ih (some key))

theorem leaves_trace (context : Context) (groups : List (GroupKey × List Tuple)) :
    leaves (engine.trace differ context groups) = groups := by
  rw [trace, leaves_append]
  exact (List.append_nil _).trans (engine.leaves_calls differ none groups)

theorem openedAt_turns (previous : Option GroupKey) (depth : Nat) :
    openedAt depth (engine.turns differ key previous) =
      if depth ∈ engine.depthsFrom (engine.firstDepth differ key previous) then [key] else [] := by
  rw [turns, openedAt_append, openedAt_opens]
  cases previous with
  | none => rfl
  | some before => rw [Option.map_some, Option.getD_some, openedAt_closes, List.nil_append]

theorem openedAt_trace (context : Context) (groups : List (GroupKey × List Tuple)) (depth : Nat) :
    openedAt depth (engine.trace differ context groups) =
      openedAt depth (engine.calls differ none groups) := by
  rw [trace, openedAt_append]
  exact List.append_nil _

theorem openedAt_calls {α : Type} {key : α → GroupKey} {tuples : α → List Tuple}
    {order : α → α → Ordering} {depth : Nat} (shallow : engine.minDepth ≤ depth)
    (deep : depth ≤ engine.maxDepth)
    (differs : ∀ left right, differ (key left) (key right) ≤ depth ↔ order left right ≠ .eq)
    (previous : Option α) (items : List α) :
    openedAt depth (engine.calls differ (previous.map key)
        (items.map fun item => (key item, tuples item))) =
      (Sort.heads order previous items).map key := by
  induction items generalizing previous with
  | nil =>
      cases previous with
      | none => rfl
      | some before => exact engine.openedAt_closes (key before) engine.minDepth depth
  | cons item items ih =>
      have later : openedAt depth (.elements (key item) (tuples item) ::
          engine.calls differ (some (key item)) (items.map fun item => (key item, tuples item))) =
          (Sort.heads order (some item) items).map key := ih (some item)
      rw [List.map_cons, calls, openedAt_append, openedAt_turns, later, Sort.heads]
      cases previous with
      | none =>
          have opens : depth ∈ engine.depthsFrom (engine.firstDepth differ (key item) none) :=
            (engine.mem_depthsFrom engine.minDepth).mpr ⟨shallow, deep⟩
          rw [Option.map_none, if_pos opens]
          rfl
      | some before =>
          have opens : depth ∈ engine.depthsFrom (differ (key before) (key item)) ↔
              order before item ≠ .eq := by
            rw [mem_depthsFrom, differs before item]
            exact and_iff_left deep
          rw [Option.map_some, firstDepth, Option.any_some]
          by_cases equal : order before item = .eq
          · rw [if_neg (fun member => opens.mp member equal), if_pos (by simp [equal])]
            rfl
          · rw [if_pos (opens.mpr equal), if_neg (by simp [equal])]
            rfl

theorem foldl_opens (stats : Stats) :
    (engine.opens key first).foldl Stats.after stats =
      { stats with opened := stats.opened + (engine.depthsFrom first).length } := by
  rw [opens, List.foldl_map]
  generalize engine.depthsFrom first = depths
  induction depths generalizing stats with
  | nil => rfl
  | cons depth depths ih =>
      rw [List.foldl_cons, ih, List.length_cons, Stats.after, Nat.add_assoc, Nat.add_comm 1]

theorem foldl_closes (stats : Stats) :
    (engine.closes key first).foldl Stats.after stats =
      { stats with closed := stats.closed + (engine.depthsFrom first).length } := by
  rw [closes, List.foldl_map, ← List.length_reverse]
  generalize (engine.depthsFrom first).reverse = depths
  induction depths generalizing stats with
  | nil => rfl
  | cons depth depths ih =>
      rw [List.foldl_cons, ih, List.length_cons, Stats.after, Nat.add_assoc, Nat.add_comm 1]

def depth : Option GroupKey → Nat
  | none => 0
  | some _ => (engine.depthsFrom engine.minDepth).length

theorem foldl_turns (previous : Option GroupKey) (stats : Stats) :
    ∃ closed opened, (engine.turns differ key previous).foldl Stats.after stats =
        { stats with closed := stats.closed + closed, opened := stats.opened + opened } ∧
      closed + engine.depth (some key) = opened + engine.depth previous := by
  rw [turns, List.foldl_append]
  cases previous with
  | none =>
      refine ⟨0, (engine.depthsFrom engine.minDepth).length, ?_, Nat.add_comm _ _⟩
      exact engine.foldl_opens key engine.minDepth stats
  | some before =>
      have closes := engine.foldl_closes before (differ before key) stats
      refine ⟨(engine.depthsFrom (differ before key)).length,
        (engine.depthsFrom (differ before key)).length, ?_, rfl⟩
      rw [firstDepth, foldl_opens, Option.map_some, Option.getD_some, closes]

/-- The counts of a walk are those of its groups, and what is opened is closed. -/
structure Accounts (previous : Option GroupKey) (groups : List (GroupKey × List Tuple))
    (stats last : Stats) : Prop where
  counted : last.groups = stats.groups + groups.length
  elements : last.elements = stats.elements + (groups.map fun group => group.2.length).sum
  drained : last.drained = stats.drained
  balanced : last.closed + stats.opened = last.opened + stats.closed + engine.depth previous

theorem calls_accounts (previous : Option GroupKey) (groups : List (GroupKey × List Tuple))
    (stats : Stats) :
    engine.Accounts previous groups stats
      ((engine.calls differ previous groups).foldl Stats.after stats) := by
  induction groups generalizing previous stats with
  | nil =>
      cases previous with
      | none => exact ⟨rfl, rfl, rfl, Nat.add_comm _ _⟩
      | some before =>
          rw [calls, Option.map_some, Option.getD_some, foldl_closes]
          constructor
          · rfl
          · rfl
          · rfl
          · simp only [depth]
            omega
  | cons group groups ih =>
      obtain ⟨key, tuples⟩ := group
      obtain ⟨closed, opened, turned, balance⟩ := engine.foldl_turns differ key previous stats
      rw [calls, List.foldl_append, turned, List.foldl_cons]
      obtain ⟨counted, elements, drained, balanced⟩ := ih (some key) (Stats.after
        { stats with closed := stats.closed + closed, opened := stats.opened + opened }
        (.elements key tuples))
      simp only [Stats.after] at counted elements drained balanced ⊢
      constructor
      · rw [counted, List.length_cons]
        omega
      · rw [elements, List.map_cons, List.sum_cons, Nat.add_assoc]
      · exact drained
      · omega

theorem trace_accounts (context : Context) (groups : List (GroupKey × List Tuple)) (stats : Stats) :
    engine.Accounts none groups stats
      ((engine.trace differ context groups).foldl Stats.after stats) := by
  rw [trace, List.foldl_append]
  exact engine.calls_accounts differ none groups stats

end Engine

end Cogrouping.Rollup
