import Hinting.Proofs.Machine.Action

/-!
Outcomes that agree.

Two actions on two machines agree when they end in the same way and leave
related machines. Failures are compared up to the number of the outermost
instruction, so that a program can be compared with itself at a later place in
a longer one.
-/

namespace Hinting

namespace Failure

/-- The failure of the same program when it begins `offset` instructions later.
Only the outermost instruction is numbered by the program itself. -/
def later (offset : Nat) (failure : Failure) : Failure :=
  match failure.trail with
  | .instruction mnemonic index :: inner =>
      { failure with trail := .instruction mnemonic (index + offset) :: inner }
  | _ => failure

@[simp] theorem cause_later (offset : Nat) (failure : Failure) :
    (failure.later offset).cause = failure.cause := by
  rw [later]
  split <;> rfl

@[simp] theorem later_zero (failure : Failure) : failure.later 0 = failure := by
  rcases failure with ⟨_ | ⟨context, inner⟩, cause⟩
  · rfl
  · cases context <;> rfl

end Failure

namespace Machine

/-- The outcomes agree: both succeed with the same result, or both fail and the
left failure is the right one `offset` instructions later. A left failure with an
excused cause agrees with every outcome. -/
inductive Agree (excused : Fault → Prop) (offset : Nat)
    (related : Machine → Machine → Prop) : Outcome α → Outcome α → Prop
  | ok (result : α) {left right : Machine} :
      related left right →
        Agree excused offset related (.ok result left) (.ok result right)
  | error (failure : Failure) {left right : Machine} :
      related left right →
        Agree excused offset related (.error (failure.later offset) left)
          (.error failure right)
  | excuse {failure : Failure} {left : Machine} {outcome : Outcome α} :
      excused failure.cause →
        Agree excused offset related (.error failure left) outcome

section

variable {excused : Fault → Prop} {offset : Nat}
  {before between after : Machine → Machine → Prop} {left right : Machine}

namespace Agree

theorem fault {cause : Fault} (related : after left right) :
    Agree (α := α) excused offset after (Machine.fault cause left)
      (Machine.fault cause right) :=
  error { cause } related

theorem error_same (failure : Failure) (related : after left right) :
    Agree (α := α) excused 0 after (.error failure left) (.error failure right) := by
  have agree : Agree (α := α) excused 0 after (.error (failure.later 0) left)
      (.error failure right) := error failure related
  rwa [Failure.later_zero] at agree

theorem weaken {leftOutcome rightOutcome : Outcome α}
    (agree : Agree excused offset between leftOutcome rightOutcome)
    (weaker : ∀ left right, between left right → after left right) :
    Agree excused offset after leftOutcome rightOutcome := by
  cases agree with
  | ok result related => exact ok result (weaker _ _ related)
  | error failure related => exact error failure (weaker _ _ related)
  | excuse cause => exact excuse cause

theorem strict {leftOutcome rightOutcome : Outcome α}
    (agree : Agree excused offset after leftOutcome rightOutcome)
    (strict : ∀ cause, ¬ excused cause) (other : Fault → Prop) :
    Agree other offset after leftOutcome rightOutcome := by
  cases agree with
  | ok result related => exact ok result related
  | error failure related => exact error failure related
  | excuse cause => exact absurd cause (strict _)

theorem machines {leftOutcome rightOutcome : Outcome α}
    (agree : Agree excused offset after leftOutcome rightOutcome)
    (strict : ∀ cause, ¬ excused cause) :
    after leftOutcome.machine rightOutcome.machine := by
  cases agree with
  | ok result related => exact related
  | error failure related => exact related
  | excuse cause => exact absurd cause (strict _)

theorem exists_of_ok {result : α} {outcome : Outcome α}
    (agree : Agree excused offset after (.ok result left) outcome) :
    ∃ right, outcome = .ok result right ∧ after left right := by
  cases agree with
  | ok _ related => exact ⟨_, rfl, related⟩

theorem exists_of_error {failure : Failure} {outcome : Outcome α}
    (agree : Agree excused 0 after (.error failure left) outcome)
    (counts : ¬ excused failure.cause) :
    ∃ right, outcome = .error failure right ∧ after left right := by
  generalize fails : (EStateM.Result.error failure left : Outcome α) = leftOutcome at agree
  cases agree with
  | ok _ related => cases fails
  | error other related =>
      cases fails
      rw [Failure.later_zero]
      exact ⟨_, rfl, related⟩
  | excuse cause =>
      cases fails
      exact absurd cause counts

/-- The continuations only have to agree on results that the left action really
has. -/
theorem bind_of_ok {leftAction rightAction : MachineAction α}
    {leftNext rightNext : α → MachineAction β}
    (first : Agree excused offset between (leftAction left) (rightAction right))
    (weaker : ∀ left right, between left right → after left right)
    (next : ∀ result leftMiddle rightMiddle,
      leftAction left = .ok result leftMiddle → between leftMiddle rightMiddle →
        Agree excused offset after (leftNext result leftMiddle)
          (rightNext result rightMiddle)) :
    Agree excused offset after ((leftAction >>= leftNext) left)
      ((rightAction >>= rightNext) right) := by
  rw [bind_apply, bind_apply]
  generalize leftEnds : leftAction left = leftOutcome at first next
  generalize rightAction right = rightOutcome at first
  cases first with
  | ok result related => exact next result _ _ rfl related
  | error failure related => exact error failure (weaker _ _ related)
  | excuse cause => exact excuse cause

theorem bind {leftAction rightAction : MachineAction α}
    {leftNext rightNext : α → MachineAction β}
    (first : Agree excused offset between (leftAction left) (rightAction right))
    (weaker : ∀ left right, between left right → after left right)
    (next : ∀ result leftMiddle rightMiddle, between leftMiddle rightMiddle →
      Agree excused offset after (leftNext result leftMiddle)
        (rightNext result rightMiddle)) :
    Agree excused offset after ((leftAction >>= leftNext) left)
      ((rightAction >>= rightNext) right) :=
  bind_of_ok first weaker fun result leftMiddle rightMiddle _ =>
    next result leftMiddle rightMiddle

theorem get_bind {leftNext rightNext : Machine → MachineAction α}
    (agree : Agree excused offset after (leftNext left left) (rightNext right right)) :
    Agree excused offset after ((get >>= leftNext) left) ((get >>= rightNext) right) :=
  agree

theorem modify_bind {leftChange rightChange : Machine → Machine}
    {leftNext rightNext : PUnit → MachineAction α}
    (agree : Agree excused offset after (leftNext ⟨⟩ (leftChange left))
      (rightNext ⟨⟩ (rightChange right))) :
    Agree excused offset after (((modify leftChange : MachineAction PUnit) >>= leftNext) left)
      (((modify rightChange : MachineAction PUnit) >>= rightNext) right) :=
  agree

theorem modify {leftChange rightChange : Machine → Machine}
    (related : after (leftChange left) (rightChange right)) :
    Agree excused offset after ((modify leftChange : MachineAction Unit) left)
      ((modify rightChange : MachineAction Unit) right) :=
  ok PUnit.unit related

theorem within_instruction {leftAction rightAction : MachineAction α}
    {mnemonic : String} {index : Nat}
    (agree : Agree excused 0 after (leftAction left) (rightAction right)) :
    Agree excused offset after
      (within (.instruction mnemonic (index + offset)) leftAction left)
      (within (.instruction mnemonic index) rightAction right) := by
  unfold within
  generalize leftAction left = leftOutcome at agree
  generalize rightAction right = rightOutcome at agree
  cases agree with
  | ok result related => exact ok result related
  | error failure related =>
      rw [Failure.later_zero]
      exact error (failure.within (.instruction mnemonic index)) related
  | excuse cause => exact excuse cause

theorem within {leftAction rightAction : MachineAction α} {context : Context}
    (agree : Agree excused 0 after (leftAction left) (rightAction right)) :
    Agree excused 0 after (within context leftAction left)
      (Machine.within context rightAction right) := by
  unfold Machine.within
  generalize leftAction left = leftOutcome at agree
  generalize rightAction right = rightOutcome at agree
  cases agree with
  | ok result related => exact ok result related
  | error failure related =>
      rw [Failure.later_zero]
      exact error_same (failure.within context) related
  | excuse cause => exact excuse cause

theorem ensuring {leftAction rightAction : MachineAction α}
    {leftRestore rightRestore : Machine → Machine}
    (agree : Agree excused offset between (leftAction left) (rightAction right))
    (restored : ∀ left right, between left right →
      after (leftRestore left) (rightRestore right)) :
    Agree excused offset after (ensuring leftAction leftRestore left)
      (Machine.ensuring rightAction rightRestore right) := by
  unfold Machine.ensuring
  generalize leftAction left = leftOutcome at agree
  generalize rightAction right = rightOutcome at agree
  cases agree with
  | ok result related => exact ok result (restored _ _ related)
  | error failure related => exact error failure (restored _ _ related)
  | excuse cause => exact excuse cause

end Agree

end

end Machine

end Hinting
