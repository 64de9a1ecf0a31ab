import Hinting.Proofs.Machine.Agreement

/-!
Runs that end alike.

Different programs may have the same effect. Their failures are then compared by
the cause alone, since the ways that lead to it are not the same.
-/

namespace Hinting.Machine

/-- The machines are the same but for their steps and what they have reported. -/
structure SameState (left right : Machine) : Prop where
  limits : left.limits = right.limits
  font : left.font = right.font
  memory : left.memory = right.memory
  functions : left.functions = right.functions
  capture : left.capture = right.capture
  decodedFontProgram : left.decodedFontProgram = right.decodedFontProgram
  fontProgramLoaded : left.fontProgramLoaded = right.fontProgramLoaded
  inFontProgram : left.inFontProgram = right.inFontProgram
  primed : left.primed = right.primed
  callDepth : left.callDepth = right.callDepth

namespace SameState

theorem refl (machine : Machine) : SameState machine machine :=
  ⟨rfl, rfl, rfl, rfl, rfl, rfl, rfl, rfl, rfl, rfl⟩

theorem trans {first second third : Machine} (before : SameState first second)
    (after : SameState second third) : SameState first third where
  limits := before.limits.trans after.limits
  font := before.font.trans after.font
  memory := before.memory.trans after.memory
  functions := before.functions.trans after.functions
  capture := before.capture.trans after.capture
  decodedFontProgram := before.decodedFontProgram.trans after.decodedFontProgram
  fontProgramLoaded := before.fontProgramLoaded.trans after.fontProgramLoaded
  inFontProgram := before.inFontProgram.trans after.inFontProgram
  primed := before.primed.trans after.primed
  callDepth := before.callDepth.trans after.callDepth

theorem fetched (index : Nat) (instruction : Instruction) (machine : Machine) :
    SameState (machine.fetched index instruction) machine :=
  { refl machine with }

theorem onMemory {action : MemoryAction α} {left right after : Machine} {result : α}
    (same : SameState left right) (ends : onMemory action right = .ok result after) :
    Machine.onMemory action left = .ok result { left with memory := after.memory } ∧
      SameState { left with memory := after.memory } after := by
  unfold Machine.onMemory at ends ⊢
  rw [same.memory]
  cases acted : action right.memory with
  | error cause memory =>
      rw [acted] at ends
      exact nomatch ends
  | ok result memory =>
      rw [acted] at ends
      cases ends
      exact ⟨rfl, { same with memory := rfl }⟩

theorem withoutCapture {left right : Machine} (same : SameState left right) :
    SameState { left with capture := none } { right with capture := none } :=
  { same with capture := rfl }

end SameState

/-- The left machine has taken `extra` more steps than the right one to the same
state. -/
def SlowerBy (extra : Nat) (_ _ : Unit) (left right : Machine) : Prop :=
  SameState left right ∧ left.steps = right.steps + extra

/-- Both outcomes are results, or both are failures for the same cause. An excused
failure on the left ends like everything. -/
inductive EndsAlike (excused : Fault → Prop) (finished : α → β → Machine → Machine → Prop)
    (failed : Machine → Machine → Prop) : Outcome α → Outcome β → Prop
  | ok {leftResult : α} {rightResult : β} {left right : Machine} :
      finished leftResult rightResult left right →
        EndsAlike excused finished failed (.ok leftResult left) (.ok rightResult right)
  | error {leftFailure rightFailure : Failure} {left right : Machine} :
      leftFailure.cause = rightFailure.cause → failed left right →
        EndsAlike excused finished failed (.error leftFailure left)
          (.error rightFailure right)
  | excuse {failure : Failure} {left : Machine} {outcome : Outcome β} :
      excused failure.cause →
        EndsAlike excused finished failed (.error failure left) outcome

theorem Agree.endsAlike {excused otherExcused : Fault → Prop}
    {related : Machine → Machine → Prop}
    {finished : α → α → Machine → Machine → Prop} {failed : Machine → Machine → Prop}
    {leftOutcome rightOutcome : Outcome α}
    (agree : Agree excused offset related leftOutcome rightOutcome)
    (excuse : ∀ cause, excused cause → otherExcused cause)
    (ok : ∀ result left right, related left right → finished result result left right)
    (error : ∀ left right, related left right → failed left right) :
    EndsAlike otherExcused finished failed leftOutcome rightOutcome := by
  cases agree with
  | ok result related => exact .ok (ok result _ _ related)
  | error failure related => exact .error (failure.cause_later offset) (error _ _ related)
  | excuse cause => exact .excuse (excuse _ cause)

namespace EndsAlike

section

variable {excused : Fault → Prop} {between : α → β → Machine → Machine → Prop}
  {finished : γ → δ → Machine → Machine → Prop} {failed : Machine → Machine → Prop}
  {left right : Machine}

theorem weaken {finishedAfter : γ → δ → Machine → Machine → Prop}
    {failedAfter : Machine → Machine → Prop}
    {leftOutcome : Outcome γ} {rightOutcome : Outcome δ}
    (alike : EndsAlike excused finished failed leftOutcome rightOutcome)
    (ok : ∀ leftResult rightResult left right, finished leftResult rightResult left right →
      finishedAfter leftResult rightResult left right)
    (error : ∀ left right, failed left right → failedAfter left right) :
    EndsAlike excused finishedAfter failedAfter leftOutcome rightOutcome := by
  cases alike with
  | ok related => exact .ok (ok _ _ _ _ related)
  | error cause related => exact .error cause (error _ _ related)
  | excuse cause => exact .excuse cause

theorem bind {leftAction : MachineAction α} {rightAction : MachineAction β}
    {leftNext : α → MachineAction γ} {rightNext : β → MachineAction δ}
    (first : EndsAlike excused between failed (leftAction left) (rightAction right))
    (next : ∀ leftResult rightResult leftMiddle rightMiddle,
      between leftResult rightResult leftMiddle rightMiddle →
        EndsAlike excused finished failed (leftNext leftResult leftMiddle)
          (rightNext rightResult rightMiddle)) :
    EndsAlike excused finished failed ((leftAction >>= leftNext) left)
      ((rightAction >>= rightNext) right) := by
  rw [bind_apply, bind_apply]
  generalize leftAction left = leftOutcome at first
  generalize rightAction right = rightOutcome at first
  cases first with
  | ok related => exact next _ _ _ _ related
  | error cause related => exact .error cause related
  | excuse cause => exact .excuse cause

theorem map_left {leftAction : MachineAction α} {rightOutcome : Outcome β} {change : α → γ}
    {changed : γ → β → Machine → Machine → Prop}
    (alike : EndsAlike excused between failed (leftAction left) rightOutcome)
    (holds : ∀ leftResult rightResult left right, between leftResult rightResult left right →
      changed (change leftResult) rightResult left right) :
    EndsAlike excused changed failed ((leftAction >>= fun result => pure (change result)) left)
      rightOutcome := by
  rw [bind_apply]
  generalize leftAction left = leftOutcome at alike
  cases alike with
  | ok related => exact .ok (holds _ _ _ _ related)
  | error cause related => exact .error cause related
  | excuse cause => exact .excuse cause

theorem map_right {leftOutcome : Outcome α} {rightAction : MachineAction β} {change : β → δ}
    {changed : α → δ → Machine → Machine → Prop}
    (alike : EndsAlike excused between failed leftOutcome (rightAction right))
    (holds : ∀ leftResult rightResult left right, between leftResult rightResult left right →
      changed leftResult (change rightResult) left right) :
    EndsAlike excused changed failed leftOutcome
      ((rightAction >>= fun result => pure (change result)) right) := by
  rw [bind_apply]
  generalize rightAction right = rightOutcome at alike
  cases alike with
  | ok related => exact .ok (holds _ _ _ _ related)
  | error cause related => exact .error cause related
  | excuse cause => exact .excuse cause

theorem within_left {leftAction : MachineAction γ} {rightOutcome : Outcome δ}
    {context : Context}
    (alike : EndsAlike excused finished failed (leftAction left) rightOutcome) :
    EndsAlike excused finished failed (within context leftAction left) rightOutcome := by
  rw [within]
  generalize leftAction left = leftOutcome at alike
  cases alike with
  | ok related => exact .ok related
  | error cause related => exact .error cause related
  | excuse cause => exact .excuse cause

theorem ensuring_left {leftAction : MachineAction γ} {rightOutcome : Outcome δ}
    {restore : Machine → Machine} {finishedAfter : γ → δ → Machine → Machine → Prop}
    {failedAfter : Machine → Machine → Prop}
    (alike : EndsAlike excused finished failed (leftAction left) rightOutcome)
    (ok : ∀ leftResult rightResult left right, finished leftResult rightResult left right →
      finishedAfter leftResult rightResult (restore left) right)
    (error : ∀ left right, failed left right → failedAfter (restore left) right) :
    EndsAlike excused finishedAfter failedAfter (ensuring leftAction restore left)
      rightOutcome := by
  rw [ensuring]
  generalize leftAction left = leftOutcome at alike
  cases alike with
  | ok related => exact .ok (ok _ _ _ _ related)
  | error cause related => exact .error cause (error _ _ related)
  | excuse cause => exact .excuse cause

end

section

variable {excused : Fault → Prop} {run : Program → MachineAction Unit} {program : Program}
  {machine : Machine} {failed : Machine → Machine → Prop}

theorem runWhole_left {finished : Unit → β → Machine → Machine → Prop}
    {outcome : Outcome β}
    (alike : EndsAlike excused finished failed (run program machine) outcome)
    (finishedClosed : ∀ leftResult rightResult left right,
      finished leftResult rightResult left right → left.capture = none)
    (failedClosed : ∀ left right, failed left right → left.capture = none) :
    EndsAlike excused finished failed (Machine.runWhole run program machine) outcome := by
  rw [Machine.runWhole]
  generalize run program machine = leftOutcome at alike
  cases alike with
  | ok related =>
      dsimp only
      rw [finishedClosed _ _ _ _ related]
      exact .ok related
  | error cause related =>
      dsimp only
      rw [← failedClosed _ _ related]
      exact .error cause related
  | excuse cause => exact .excuse cause

theorem runWhole_right {finished : α → Unit → Machine → Machine → Prop}
    {outcome : Outcome α}
    (alike : EndsAlike excused finished failed outcome (run program machine))
    (finishedClosed : ∀ leftResult rightResult left right,
      finished leftResult rightResult left right → right.capture = none)
    (failedClosed : ∀ left right, failed left right → right.capture = none) :
    EndsAlike excused finished failed outcome (Machine.runWhole run program machine) := by
  rw [Machine.runWhole]
  generalize run program machine = rightOutcome at alike
  cases alike with
  | ok related =>
      dsimp only
      rw [finishedClosed _ _ _ _ related]
      exact .ok related
  | error cause related =>
      dsimp only
      rw [← failedClosed _ _ related]
      exact .error cause related
  | excuse cause => exact .excuse cause

end

theorem runWhole {excused : Fault → Prop} {extra : Nat}
    {leftRun rightRun : Program → MachineAction Unit} {leftProgram rightProgram : Program}
    {left right : Machine}
    (alike : EndsAlike excused (SlowerBy extra) SameState (leftRun leftProgram left)
      (rightRun rightProgram right)) :
    EndsAlike excused (SlowerBy extra) SameState (runWhole leftRun leftProgram left)
      (runWhole rightRun rightProgram right) := by
  unfold Machine.runWhole
  generalize leftRun leftProgram left = leftOutcome at alike
  generalize rightRun rightProgram right = rightOutcome at alike
  cases alike with
  | excuse cause => exact .excuse cause
  | error cause same => exact .error cause same.withoutCapture
  | @ok _ _ leftAfter rightAfter related =>
      dsimp only
      rw [related.1.capture]
      cases rightAfter.capture with
      | none => exact .ok related
      | some capture => exact .error rfl related.1.withoutCapture

end EndsAlike

end Hinting.Machine
