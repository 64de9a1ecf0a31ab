/-!
Computations with a state as functions: what a sequence of two of them ends with.
-/

namespace Hinting

section

variable {action : EStateM ε σ α} {next : α → EStateM ε σ β} {state after : σ}

theorem bind_apply (action : EStateM ε σ α) (next : α → EStateM ε σ β) (state : σ) :
    (action >>= next) state =
      match action state with
      | .ok result after => next result after
      | .error failure after => .error failure after := by
  cases ends : action state <;> simp [bind, EStateM.bind, ends]

theorem get_bind_apply (next : σ → EStateM ε σ β) (state : σ) :
    (get >>= next) state = next state state := rfl

theorem set_bind_apply (other : σ) (next : PUnit → EStateM ε σ β) (state : σ) :
    (set other >>= next) state = next ⟨⟩ other := rfl

theorem bind_apply_of_ok {result : α} (ends : action state = .ok result after) :
    (action >>= next) state = next result after := by
  rw [bind_apply, ends]

theorem bind_apply_of_error {failure : ε} (ends : action state = .error failure after) :
    (action >>= next) state = .error failure after := by
  rw [bind_apply, ends]

theorem bind_eq_ok {result : β} :
    (action >>= next) state = .ok result after ↔
      ∃ first middle, action state = .ok first middle ∧
        next first middle = .ok result after := by
  rw [bind_apply]
  cases ends : action state with
  | ok first middle =>
      constructor
      · intro continued
        exact ⟨first, middle, rfl, continued⟩
      · rintro ⟨_, _, equal, continued⟩
        cases equal
        exact continued
  | error failure middle => simp

theorem bind_eq_error {failure : ε} :
    (action >>= next) state = .error failure after ↔
      action state = .error failure after ∨ ∃ first middle, action state = .ok first middle ∧
        next first middle = .error failure after := by
  rw [bind_apply]
  cases ends : action state with
  | ok first middle =>
      constructor
      · intro continued
        exact .inr ⟨first, middle, rfl, continued⟩
      · rintro (impossible | ⟨_, _, equal, continued⟩)
        · cases impossible
        · cases equal
          exact continued
  | error other middle => simp

end

/-! ## Changed states -/

/-- Where the action succeeds it also does after a change of the state. The result is the same, and
the change may as well be made behind the action. -/
def CommutesWith (change : σ → σ) (action : EStateM ε σ α) : Prop :=
  ∀ state result after, action state = .ok result after →
    action (change state) = .ok result (change after)

namespace CommutesWith

variable {change : σ → σ} {action : EStateM ε σ α}

theorem pure (result : α) : CommutesWith change (pure result : EStateM ε σ α) := by
  rintro state _ _ ⟨⟩
  rfl

theorem throw (failure : ε) : CommutesWith change (throw failure : EStateM ε σ α) :=
  fun _ _ _ impossible => nomatch impossible

theorem bind {next : α → EStateM ε σ β} (first : CommutesWith change action)
    (rest : ∀ result, CommutesWith change (next result)) :
    CommutesWith change (action >>= next) := by
  intro state result after ends
  rcases bind_eq_ok.mp ends with ⟨middle, between, acted, continued⟩
  rw [bind_apply_of_ok (first state middle between acted)]
  exact rest middle between result after continued

theorem get_bind {next : σ → EStateM ε σ β} (same : ∀ state, next (change state) = next state)
    (rest : ∀ state, CommutesWith change (next state)) :
    CommutesWith change (get >>= next) := by
  intro state result after ends
  rw [get_bind_apply] at ends ⊢
  rw [same]
  exact rest state state result after ends

theorem modify {other : σ → σ} (commutes : ∀ state, other (change state) = change (other state)) :
    CommutesWith change (modify other : EStateM ε σ PUnit) := by
  rintro state _ _ ⟨⟩
  exact congrArg (EStateM.Result.ok _) (commutes state)

theorem ofExcept (outcome : Except ε α) :
    CommutesWith change (MonadExcept.ofExcept outcome : EStateM ε σ α) := by
  cases outcome with
  | ok result => exact pure result
  | error failure => exact throw failure

end CommutesWith

def onState (change : σ → σ) : EStateM.Result ε σ α → EStateM.Result ε σ α
  | .ok result state => .ok result (change state)
  | .error failure state => .error failure (change state)

/-- The action ends as it does after a change of the state, and the change may as well be made
behind it. Nothing is said of failures that are excused. -/
def CommutesUnless (excused : ε → Prop) (change : σ → σ) (action : EStateM ε σ α) : Prop :=
  ∀ state, action (change state) = onState change (action state) ∨
    ∃ failure after, action state = .error failure after ∧ excused failure

namespace CommutesUnless

variable {excused : ε → Prop} {change : σ → σ} {action : EStateM ε σ α}

theorem pure (result : α) : CommutesUnless excused change (pure result : EStateM ε σ α) :=
  fun _ => .inl rfl

theorem throw (failure : ε) : CommutesUnless excused change (throw failure : EStateM ε σ α) :=
  fun _ => .inl rfl

theorem bind {next : α → EStateM ε σ β} (first : CommutesUnless excused change action)
    (rest : ∀ result, CommutesUnless excused change (next result)) :
    CommutesUnless excused change (action >>= next) := by
  intro state
  rw [bind_apply, bind_apply]
  rcases first state with same | ⟨failure, after, fails, excuse⟩
  · rw [same]
    cases action state with
    | ok result after => exact rest result after
    | error failure after => exact .inl rfl
  · rw [fails]
    exact .inr ⟨failure, after, rfl, excuse⟩

theorem get_bind {next : σ → EStateM ε σ β} (same : ∀ state, next (change state) = next state)
    (rest : ∀ state, CommutesUnless excused change (next state)) :
    CommutesUnless excused change (get >>= next) := by
  intro state
  rw [get_bind_apply, get_bind_apply, same]
  exact rest state state

theorem modify {other : σ → σ} (commutes : ∀ state, other (change state) = change (other state)) :
    CommutesUnless excused change (modify other : EStateM ε σ PUnit) :=
  fun state => .inl (congrArg (EStateM.Result.ok _) (commutes state))

theorem ofExcept (outcome : Except ε α) :
    CommutesUnless excused change (MonadExcept.ofExcept outcome : EStateM ε σ α) := by
  cases outcome with
  | ok result => exact pure result
  | error failure => exact throw failure

end CommutesUnless

/-! ## Invariants -/

def stateAfter : EStateM.Result ε σ α → σ
  | .ok _ state => state
  | .error _ state => state

/-- The action keeps the invariant, whether it succeeds or fails. -/
def Maintains (invariant : σ → Prop) (action : EStateM ε σ α) : Prop :=
  ∀ state, invariant state → invariant (stateAfter (action state))

namespace Maintains

variable {invariant : σ → Prop} {action : EStateM ε σ α}

theorem pure (result : α) : Maintains invariant (pure result : EStateM ε σ α) :=
  fun _ holds => holds

theorem throw (failure : ε) : Maintains invariant (throw failure : EStateM ε σ α) :=
  fun _ holds => holds

theorem get : Maintains invariant (get : EStateM ε σ σ) :=
  fun _ holds => holds

theorem modify {change : σ → σ} (keeps : ∀ state, invariant state → invariant (change state)) :
    Maintains invariant (modify change : EStateM ε σ PUnit) :=
  keeps

theorem bind {next : α → EStateM ε σ β} (first : Maintains invariant action)
    (rest : ∀ result, Maintains invariant (next result)) :
    Maintains invariant (action >>= next) := by
  intro state holds
  have middle := first state holds
  rw [bind_apply]
  cases ends : action state with
  | ok result after =>
      rw [ends] at middle
      exact rest result after middle
  | error failure after =>
      rw [ends] at middle
      exact middle

theorem ofExcept (outcome : Except ε α) :
    Maintains invariant (MonadExcept.ofExcept outcome : EStateM ε σ α) := by
  cases outcome with
  | ok result => exact pure result
  | error failure => exact throw failure

theorem and {other : σ → Prop} (left : Maintains invariant action)
    (right : Maintains other action) :
    Maintains (fun state => invariant state ∧ other state) action :=
  fun state holds => ⟨left state holds.1, right state holds.2⟩

theorem of_map {change : α → β} (maintains : Maintains invariant (do return change (← action))) :
    Maintains invariant action := by
  intro state holds
  have after := maintains state holds
  rw [bind_apply] at after
  cases ends : action state with
  | ok result middle =>
      rw [ends] at after
      exact after
  | error failure middle =>
      rw [ends] at after
      exact after

end Maintains

/-! ## Failures -/

def Raises (allowed : ε → Prop) (action : EStateM ε σ α) : Prop :=
  ∀ state failure after, action state = .error failure after → allowed failure

namespace Raises

variable {allowed : ε → Prop} {action : EStateM ε σ α}

theorem pure (result : α) : Raises allowed (pure result : EStateM ε σ α) :=
  fun _ _ _ impossible => nomatch impossible

theorem throw {failure : ε} (allows : allowed failure) :
    Raises allowed (throw failure : EStateM ε σ α) := by
  rintro state _ _ ⟨⟩
  exact allows

theorem get : Raises allowed (get : EStateM ε σ σ) := fun _ _ _ impossible => nomatch impossible

theorem modify (change : σ → σ) : Raises allowed (modify change : EStateM ε σ PUnit) :=
  fun _ _ _ impossible => nomatch impossible

theorem bind {next : α → EStateM ε σ β} (first : Raises allowed action)
    (rest : ∀ result, Raises allowed (next result)) : Raises allowed (action >>= next) := by
  intro state failure after fails
  rcases bind_eq_error.mp fails with failed | ⟨result, middle, _, continued⟩
  · exact first state failure after failed
  · exact rest result middle failure after continued

theorem ofExcept {outcome : Except ε α}
    (allows : ∀ failure, outcome = .error failure → allowed failure) :
    Raises allowed (MonadExcept.ofExcept outcome : EStateM ε σ α) := by
  cases outcome with
  | ok result => exact pure result
  | error failure => exact throw (allows failure rfl)

end Raises

def Reads (action : EStateM ε σ α) : Prop :=
  ∀ state, stateAfter (action state) = state

def SucceedsAt (action : EStateM ε σ α) (state : σ) : Prop :=
  ∃ result after, action state = .ok result after

/-- If the action fails in this state then it leaves the state. -/
def AtomicAt (action : EStateM ε σ α) (state : σ) : Prop :=
  ∀ failure after, action state = .error failure after → after = state

section

variable {action : EStateM ε σ α} {next : α → EStateM ε σ β} {state : σ}

/-- What keeps every invariant keeps the state itself. -/
theorem Reads.of_maintains (maintains : ∀ invariant : σ → Prop, Maintains invariant action) :
    Reads action :=
  fun state => maintains (fun other => other = state) state rfl

theorem Reads.bind (reads : Reads action) (rest : ∀ result, Reads (next result)) :
    Reads (action >>= next) := by
  intro state
  have same := reads state
  rw [bind_apply]
  cases ends : action state with
  | ok result after =>
      rw [ends] at same
      cases same
      exact rest result after
  | error failure after =>
      rw [ends] at same
      exact same

theorem SucceedsAt.bind {result : α} {middle : σ} (first : action state = .ok result middle)
    (rest : SucceedsAt (next result) middle) : SucceedsAt (action >>= next) state := by
  rwa [SucceedsAt, bind_apply_of_ok first]

theorem SucceedsAt.atomicAt (succeeds : SucceedsAt action state) : AtomicAt action state := by
  rcases succeeds with ⟨result, after, succeeds⟩
  intro failure other fails
  exact nomatch succeeds.symm.trans fails

theorem Reads.atomicAt (reads : Reads action) (state : σ) : AtomicAt action state := by
  intro failure after fails
  have same := reads state
  rwa [fails] at same

/-- Nothing has happened before the first change. -/
theorem Reads.bind_atomicAt (reads : Reads action)
    (rest : ∀ result, action state = .ok result state → AtomicAt (next result) state) :
    AtomicAt (action >>= next) state := by
  intro failure after fails
  rcases bind_eq_error.mp fails with failed | ⟨result, middle, acted, continued⟩
  · exact reads.atomicAt state failure after failed
  · have same := reads state
    rw [acted] at same
    cases same
    exact rest result acted failure after continued

/-- Nothing fails behind the first change. -/
theorem AtomicAt.bind (first : AtomicAt action state)
    (rest : ∀ result after, action state = .ok result after → SucceedsAt (next result) after) :
    AtomicAt (action >>= next) state := by
  intro failure after fails
  rcases bind_eq_error.mp fails with failed | ⟨result, middle, acted, continued⟩
  · exact first failure after failed
  · rcases rest result middle acted with ⟨_, _, succeeds⟩
    exact nomatch succeeds.symm.trans continued

end

end Hinting
