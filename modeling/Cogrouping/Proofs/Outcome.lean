import Mathlib.Data.List.Forall2

/-!
What an action does to its state, step by step. An action that changes a state and may fail has an
outcome in every state: a result or a failure, and the state it leaves behind.
-/

namespace Cogrouping

variable {ε σ α β : Type}

def outcome (action : ExceptT ε (StateM σ) α) (state : σ) : Except ε α × σ := action.run state

@[simp] theorem outcome_pure (value : α) (state : σ) :
    outcome (pure value : ExceptT ε (StateM σ) α) state = (.ok value, state) := rfl

@[simp] theorem outcome_throw (cause : ε) (state : σ) :
    outcome (throw cause : ExceptT ε (StateM σ) α) state = (.error cause, state) := rfl

@[simp] theorem outcome_get (state : σ) :
    outcome (get : ExceptT ε (StateM σ) σ) state = (.ok state, state) := rfl

@[simp] theorem outcome_set (next state : σ) :
    outcome (set next : ExceptT ε (StateM σ) PUnit) state = (.ok ⟨⟩, next) := rfl

@[simp] theorem outcome_modify (change : σ → σ) (state : σ) :
    outcome (modify change : ExceptT ε (StateM σ) PUnit) state = (.ok ⟨⟩, change state) := rfl

@[simp] theorem outcome_ofExcept (result : Except ε α) (state : σ) :
    outcome (ofExcept result : ExceptT ε (StateM σ) α) state = (result, state) := by
  cases result <;> rfl

theorem outcome_bind (action : ExceptT ε (StateM σ) α) (next : α → ExceptT ε (StateM σ) β)
    (state : σ) :
    outcome (action >>= next) state =
      match outcome action state with
      | (.ok value, after) => outcome (next value) after
      | (.error cause, after) => (.error cause, after) := by
  simp only [outcome, ExceptT.run, bind, ExceptT.bind, ExceptT.bindCont, ExceptT.mk, StateT.bind]
  generalize action state = first
  obtain ⟨result, after⟩ := first
  cases result <;> rfl

@[simp] theorem outcome_map (change : α → β) (action : ExceptT ε (StateM σ) α) (state : σ) :
    outcome (change <$> action) state =
      ((outcome action state).1.map change, (outcome action state).2) := by
  rw [← bind_pure_comp, outcome_bind]
  generalize outcome action state = first
  obtain ⟨result, after⟩ := first
  cases result <;> rfl

theorem outcome_bind_of_ok {action : ExceptT ε (StateM σ) α} {next : α → ExceptT ε (StateM σ) β}
    {state after : σ} {value : α} (first : outcome action state = (.ok value, after)) :
    outcome (action >>= next) state = outcome (next value) after := by
  rw [outcome_bind, first]

theorem outcome_bind_of_error {action : ExceptT ε (StateM σ) α}
    {next : α → ExceptT ε (StateM σ) β} {state after : σ} {cause : ε}
    (first : outcome action state = (.error cause, after)) :
    outcome (action >>= next) state = (.error cause, after) := by
  rw [outcome_bind, first]

theorem outcome_bind_eq_ok {action : ExceptT ε (StateM σ) α} {next : α → ExceptT ε (StateM σ) β}
    {state last : σ} {value : β} :
    outcome (action >>= next) state = (.ok value, last) ↔
      ∃ first between, outcome action state = (.ok first, between) ∧
        outcome (next first) between = (.ok value, last) := by
  rw [outcome_bind]
  constructor
  · intro whole
    split at whole
    · rename_i first between done
      exact ⟨first, between, done, whole⟩
    · simp at whole
  · rintro ⟨first, between, done, rest⟩
    rw [done]
    exact rest

/-- In all states of a kind an action comes to a result and a state as told, or to one of some failures. -/
def Ensures (before : σ → Prop) (action : ExceptT ε (StateM σ) α) (after : α → σ → Prop)
    (fault : ε → Prop) : Prop :=
  ∀ state, before state → match outcome action state with
    | (.ok value, last) => after value last
    | (.error cause, _) => fault cause

namespace Ensures

variable {before : σ → Prop} {between : α → σ → Prop} {after : β → σ → Prop} {fault : ε → Prop}
variable {action : ExceptT ε (StateM σ) α} {next : α → ExceptT ε (StateM σ) β}

theorem bind (first : Ensures before action between fault)
    (later : ∀ value, Ensures (between value) (next value) after fault) :
    Ensures before (action >>= next) after fault := by
  intro state held
  have done := first state held
  rw [outcome_bind]
  generalize outcome action state = result at done ⊢
  obtain ⟨result, last⟩ := result
  cases result with
  | error cause => exact done
  | ok value => exact later value last done

theorem of_and {action : ExceptT ε (StateM σ) α} {after : α → σ → Prop} {fact : Prop}
    (ensures : Ensures before action after fault) :
    Ensures (fun state => fact ∧ before state) action after fault :=
  fun state held => ensures state held.2

theorem get_bind {next : σ → ExceptT ε (StateM σ) β}
    (later : ∀ seen, before seen → Ensures before (next seen) after fault) :
    Ensures before (get >>= next) after fault := by
  intro state held
  rw [outcome_bind_of_ok (outcome_get state)]
  exact later state held state held

theorem pure {after : α → σ → Prop} (value : α) (holds : ∀ state, before state → after value state) :
    Ensures before (Pure.pure value : ExceptT ε (StateM σ) α) after fault :=
  holds

theorem modify {change : σ → σ} {after : σ → Prop}
    (holds : ∀ state, before state → after (change state)) :
    Ensures before (modify change : ExceptT ε (StateM σ) PUnit) (fun _ => after) fault :=
  holds

theorem set {written : σ} {after : σ → Prop} (holds : after written) :
    Ensures before (set written : ExceptT ε (StateM σ) PUnit) (fun _ => after) fault :=
  fun _ _ => holds

theorem forM {items : List β} {step : β → ExceptT ε (StateM σ) PUnit}
    (each : ∀ item, Ensures before (step item) (fun _ => before) fault) :
    Ensures before (items.forM step) (fun _ => before) fault := by
  induction items with
  | nil => exact fun state held => held
  | cons item items ih =>
      rw [List.forM_eq_forM] at ih ⊢
      rw [List.forM_cons]
      exact (each item).bind fun _ => ih

theorem exists_error {after : α → σ → Prop} (ensures : Ensures before action after fault)
    (never : ∀ value state, ¬after value state) (state : σ) (held : before state) :
    ∃ cause last, outcome action state = (.error cause, last) ∧ fault cause := by
  have done := ensures state held
  generalize outcome action state = result at done ⊢
  obtain ⟨result, last⟩ := result
  cases result with
  | ok value => exact absurd done (never value last)
  | error cause => exact ⟨cause, last, rfl, done⟩

end Ensures

/-- In all states of a kind an action comes to a result or to a failure, each with a state as told. -/
def Settles (before : σ → Prop) (action : ExceptT ε (StateM σ) α) (after : α → σ → Prop)
    (broken : ε → σ → Prop) : Prop :=
  ∀ state, before state → match outcome action state with
    | (.ok value, last) => after value last
    | (.error cause, last) => broken cause last

namespace Settles

variable {before : σ → Prop} {between : α → σ → Prop} {after : β → σ → Prop} {broken : ε → σ → Prop}
variable {action : ExceptT ε (StateM σ) α} {next : α → ExceptT ε (StateM σ) β}

theorem bind (first : Settles before action between broken)
    (later : ∀ value, Settles (between value) (next value) after broken) :
    Settles before (action >>= next) after broken := by
  intro state held
  have done := first state held
  rw [outcome_bind]
  generalize outcome action state = result at done ⊢
  obtain ⟨result, last⟩ := result
  cases result with
  | error cause => exact done
  | ok value => exact later value last done

theorem imp {weaker : α → σ → Prop} {worse : ε → σ → Prop} (settles : Settles before action between broken)
    (after : ∀ value state, between value state → weaker value state)
    (failed : ∀ cause state, broken cause state → worse cause state) :
    Settles before action weaker worse := by
  intro state held
  have done := settles state held
  generalize outcome action state = result at done ⊢
  obtain ⟨result, last⟩ := result
  cases result with
  | error cause => exact failed cause last done
  | ok value => exact after value last done

theorem of_and {after : α → σ → Prop} {fact : Prop} (settles : fact → Settles before action after broken) :
    Settles (fun state => fact ∧ before state) action after broken :=
  fun state held => settles held.1 state held.2

theorem get_bind {next : σ → ExceptT ε (StateM σ) β}
    (later : ∀ seen, before seen → Settles before (next seen) after broken) :
    Settles before (get >>= next) after broken := by
  intro state held
  rw [outcome_bind_of_ok (outcome_get state)]
  exact later state held state held

theorem pure {after : α → σ → Prop} (value : α) (holds : ∀ state, before state → after value state) :
    Settles before (Pure.pure value : ExceptT ε (StateM σ) α) after broken :=
  holds

theorem throw {after : α → σ → Prop} {cause : ε} (holds : ∀ state, before state → broken cause state) :
    Settles before (MonadExcept.throw cause : ExceptT ε (StateM σ) α) after broken :=
  holds

theorem modify {change : σ → σ} {after : σ → Prop}
    (holds : ∀ state, before state → after (change state)) :
    Settles before (modify change : ExceptT ε (StateM σ) PUnit) (fun _ => after) broken :=
  holds

end Settles

@[simp] theorem ok_bind (value : α) (next : α → Except ε β) :
    (Except.ok value >>= next) = next value := rfl

@[simp] theorem error_bind (cause : ε) (next : α → Except ε β) :
    (Except.error cause >>= next) = .error cause := rfl

@[simp] theorem pure_eq_ok (value : α) : (pure value : Except ε α) = .ok value := rfl

@[simp] theorem throw_eq_error (cause : ε) : (throw cause : Except ε α) = .error cause := rfl

theorem bind_eq_ok {action : Except ε α} {next : α → Except ε β} {value : β} :
    (action >>= next) = .ok value ↔ ∃ first, action = .ok first ∧ next first = .ok value := by
  cases action with
  | error cause => simp
  | ok first => simp

theorem map_eq_ok {action : Except ε α} {change : α → β} {value : β} :
    action.map change = .ok value ↔ ∃ first, action = .ok first ∧ change first = value := by
  cases action <;> simp [Except.map]

theorem map_eq_error {action : Except ε α} {change : α → β} {cause : ε} :
    action.map change = .error cause ↔ action = .error cause := by
  cases action <;> simp [Except.map]

theorem map_bind_eq {γ : Type} (action : Except ε α) (next : α → Except ε β) (change : β → γ) :
    (action >>= next).map change = action >>= fun value => (next value).map change := by
  cases action <;> rfl

def valueOf (result : Except ε α) (succeeds : result.isOk = true) : α :=
  match result, succeeds with
  | .ok value, _ => value

theorem eq_valueOf {result : Except ε α} (succeeds : result.isOk = true) :
    result = .ok (valueOf result succeeds) := by
  cases result with
  | error cause => simp [Except.isOk, Except.toBool] at succeeds
  | ok value => rfl

theorem forM_eq_ok {step : α → Except ε Unit} {items : List α} :
    items.forM step = .ok () ↔ ∀ item ∈ items, step item = .ok () := by
  induction items with
  | nil => exact iff_of_true rfl (by simp)
  | cons item items ih =>
      rw [List.forM_eq_forM] at ih ⊢
      rw [List.forM_cons, bind_eq_ok, List.forall_mem_cons, ← ih]
      exact ⟨fun ⟨_, here, later⟩ => ⟨here, later⟩, fun ⟨here, later⟩ => ⟨(), here, later⟩⟩

theorem mapM_eq_ok {step : α → Except ε β} {items : List α} {results : List β} :
    items.mapM step = .ok results ↔
      List.Forall₂ (fun item result => step item = .ok result) items results := by
  induction items generalizing results with
  | nil =>
      rw [List.mapM_nil, pure_eq_ok, Except.ok.injEq, List.forall₂_nil_left_iff]
      exact eq_comm
  | cons item items ih =>
      rw [List.mapM_cons, bind_eq_ok, List.forall₂_cons_left_iff]
      constructor
      · rintro ⟨first, done, rest⟩
        obtain ⟨others, later, same⟩ := bind_eq_ok.mp rest
        rw [pure_eq_ok, Except.ok.injEq] at same
        exact ⟨first, others, done, ih.mp later, same.symm⟩
      · rintro ⟨first, others, done, later, rfl⟩
        exact ⟨first, done, bind_eq_ok.mpr ⟨others, ih.mpr later, rfl⟩⟩

theorem mapM_eq_error {step : α → Except ε β} {items : List α} {cause : ε} :
    items.mapM step = .error cause ↔ ∃ before item behind, items = before ++ item :: behind ∧
      (∀ earlier ∈ before, ∃ result, step earlier = .ok result) ∧ step item = .error cause := by
  constructor
  · intro failed
    induction items with
    | nil => cases failed
    | cons first items ih =>
        rw [List.mapM_cons] at failed
        cases done : step first with
        | error other =>
            rw [done, error_bind, Except.error.injEq] at failed
            exact ⟨[], first, items, rfl, by simp, by rw [done, failed]⟩
        | ok value =>
            rw [done, ok_bind] at failed
            have later : items.mapM step = .error cause := by
              cases rest : items.mapM step with
              | error other => simpa [rest] using failed
              | ok values => simp [rest] at failed
            obtain ⟨before, item, behind, rfl, earlier, failed⟩ := ih later
            refine ⟨first :: before, item, behind, rfl, ?_, failed⟩
            exact List.forall_mem_cons.mpr ⟨⟨value, done⟩, earlier⟩
  · rintro ⟨before, item, behind, rfl, earlier, failed⟩
    induction before with
    | nil => rw [List.nil_append, List.mapM_cons, failed, error_bind]
    | cons first before ih =>
        rw [List.forall_mem_cons] at earlier
        obtain ⟨⟨value, done⟩, earlier⟩ := earlier
        rw [List.cons_append, List.mapM_cons, done, ok_bind, ih earlier, error_bind]

end Cogrouping
