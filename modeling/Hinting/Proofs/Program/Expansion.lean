import Hinting.Proofs.Machine.Operands
import Hinting.Proofs.Machine.Rest

/-!
Calls do what the body of the function would do in their place.

A body runs one level below the program that calls it, so it may fail for want of
call depth where it would not as an outermost program. It makes no other
difference.
-/

namespace Hinting.Machine

open Correspondence

/-- Run a program several times in a row, until it fails. The result is the number
of steps of all the runs. -/
def executeRepeatedly (program : Program) : (count : Nat) → MachineAction Nat
  | 0 => pure 0
  | count + 1 => do
      executeProgram program
      let steps := (← get).steps
      let more ← executeRepeatedly program count
      return steps + more

theorem EndsAlike.once {excused : Fault → Prop} {finished : α → Nat → Machine → Machine → Prop}
    {finishedOnce : α → Unit → Machine → Machine → Prop} {failed : Machine → Machine → Prop}
    {outcome : Outcome α} {program : Program} {machine : Machine}
    (alike : EndsAlike excused finished failed outcome (executeRepeatedly program 1 machine))
    (ok : ∀ result total left right, finished result total left right →
      finishedOnce result () left right) :
    EndsAlike excused finishedOnce failed outcome (executeProgram program machine) := by
  rw [executeRepeatedly, bind_apply] at alike
  cases ran : executeProgram program machine with
  | ok _ after =>
      rw [ran] at alike
      cases alike with
      | ok related => exact .ok (ok _ _ _ _ related)
      | excuse cause => exact .excuse cause
  | error failure after =>
      rw [ran] at alike
      cases alike with
      | error cause related => exact .error cause related
      | excuse cause => exact .excuse cause

def ExceedsCallDepth (cause : Fault) : Prop :=
  ∃ limit, cause = .callDepthExceeded limit

/-- The left machine is inside of a function body and the right one in the same
state at rest. -/
def Inside (limits : Limits) (left right : Machine) : Prop :=
  (shift limits 1 left.steps).Holds false ⟨limits.maxCallDepth + 1, 0, false⟩ left
    { right with steps := 0 }

namespace Inside

variable {limits : Limits} {left right : Machine}

theorem of_holds {more : Nat} (unlimited : limits.maxSteps = none)
    (holds : (shift limits 1 more).Holds false ⟨limits.maxCallDepth + 1, 0, false⟩ left
      right) :
    Inside limits left right :=
  { holds with
    related := { holds.related with
      unlimited := .inr unlimited
      steps := (Nat.zero_add _).symm } }

theorem enter (rest : right.AtRest) (same : SameState left right)
    (unlimited : right.limits.maxSteps = none) :
    Inside right.limits { left with callDepth := left.callDepth + 1 } right :=
  have holds : (shift right.limits 0 left.steps).Holds false
      ⟨right.limits.maxCallDepth + 2, 0, false⟩ left { right with steps := 0 } :=
    rest.resetSteps.holds { same with } (Nat.zero_add _).symm (.inr unlimited) _
  { holds with
    related := { holds.related with
      leftDepth := congrArg (· + 1) holds.related.leftDepth } }

theorem rightClosed (inside : Inside limits left right) : right.capture = none :=
  inside.capture.symm.trans (inside.closed rfl)

theorem leave (inside : Inside limits left right) :
    SameState { left with callDepth := left.callDepth - 1 } right where
  limits := inside.related.leftLimits.trans inside.related.rightLimits.symm
  font := inside.font
  memory := inside.related.memory
  functions := inside.functions
  capture := inside.capture
  decodedFontProgram := inside.decodedFontProgram
  fontProgramLoaded := inside.fontProgramLoaded
  inFontProgram := inside.leftInFontProgram.trans inside.rightInFontProgram.symm
  primed := inside.primed
  callDepth := by
    have leftDepth := inside.related.leftDepth
    have rightDepth := inside.related.rightDepth
    dsimp only at leftDepth rightDepth ⊢
    omega

theorem runBody (unlimited : limits.maxSteps = none) (inside : Inside limits left right)
    {body : Program} (definesNothing : body.DefinesNothing) :
    EndsAlike ExceedsCallDepth
      (fun _ _ leftAfter rightAfter => Inside limits leftAfter rightAfter ∧
        leftAfter.steps = left.steps + 1 + rightAfter.steps)
      (Inside limits)
      (runNested (limits.maxCallDepth + 1) body { left with steps := left.steps + 1 })
      (executeProgram body right) := by
  obtain rfl : right.limits = limits := inside.related.rightLimits
  have ticked : (shift right.limits 1 (left.steps + 1)).Holds false
      ⟨right.limits.maxCallDepth + 1, 0, false⟩ { left with steps := left.steps + 1 }
      { right with steps := 0 } :=
    { inside with
      related := { inside.related with
        unlimited := .inr unlimited
        steps := (Nat.zero_add _).symm } }
  have agree := runsAgree_runNested (right.limits.maxCallDepth + 1) 0 false false body _ _
    ⟨fun _ => definesNothing, fun _ _ => trivial⟩ ticked
  have alike : EndsAlike ExceedsCallDepth
      (fun _ _ leftAfter rightAfter => Inside right.limits leftAfter rightAfter ∧
        leftAfter.steps = left.steps + 1 + rightAfter.steps)
      (Inside right.limits)
      (runNested (right.limits.maxCallDepth + 1) body { left with steps := left.steps + 1 })
      (runFrom (outermostCall right.limits) 0 0 body { right with steps := 0 }) :=
    agree.endsAlike (fun _ excused => excused.2)
      (fun _ _ _ ran => ⟨of_holds unlimited ran, ran.related.steps.trans (Nat.add_comm _ _)⟩)
      fun _ _ ran => of_holds unlimited ran
  rw [executeProgram_apply]
  exact EndsAlike.runWhole_right alike (fun _ _ _ _ ran => ran.1.rightClosed)
    fun _ _ ran => ran.rightClosed

end Inside

theorem endsAlike_repeatBody {limits : Limits} (unlimited : limits.maxSteps = none)
    {body : Program} (definesNothing : body.DefinesNothing) (count : Nat)
    {left right : Machine} (inside : Inside limits left right) :
    EndsAlike ExceedsCallDepth
      (fun _ total leftAfter rightAfter => Inside limits leftAfter rightAfter ∧
        leftAfter.steps = left.steps + count + total)
      (Inside limits)
      (repeatBody (runNested (limits.maxCallDepth + 1)) body count left)
      (executeRepeatedly body count right) := by
  induction count generalizing left right with
  | zero => exact .ok ⟨inside, rfl⟩
  | succ count induction =>
      -- Entering the body is a step of its own, which a program at rest does not take.
      have unlimitedLeft : left.limits.maxSteps = none := by
        rw [inside.related.leftLimits, unlimited]
      rw [repeatBody, bind_apply_of_ok (tick_unlimited unlimitedLeft)]
      refine (inside.runBody unlimited definesNothing).bind ?_
      rintro _ _ leftMiddle rightMiddle ⟨middle, steps⟩
      refine (induction middle).map_right ?_
      rintro _ total leftAfter rightAfter ⟨after, repeated⟩
      refine ⟨after, ?_⟩
      omega

theorem resolve_known {run : Program → MachineAction Unit} {id : UInt32} {body : Program}
    {machine : Machine} (known : machine.functions.get? id = some body) :
    resolve run id machine = .ok body machine := by
  rw [resolve, get_bind_apply, known]
  rfl

def SameClosed (left right : Machine) : Prop :=
  SameState left right ∧ left.capture = none

theorem AtRest.endsAlike_callFunction {left right : Machine} (rest : right.AtRest)
    (unlimited : right.limits.maxSteps = none) (same : SameState left right)
    {id : UInt32} {body : Program} (known : right.functions.get? id = some body)
    (count : Nat) :
    EndsAlike ExceedsCallDepth
      (fun (_ : Unit) total leftAfter rightAfter => SameClosed leftAfter rightAfter ∧
        leftAfter.steps = left.steps + count + total)
      SameClosed (outermostCall right.limits id count left)
      (executeRepeatedly body count right) := by
  have knownLeft : left.functions.get? id = some body := by rw [same.functions, known]
  rw [outermostCall, callFunction, bind_apply_of_ok (resolve_known knownLeft), get_bind_apply]
  dsimp only
  by_cases full : left.limits.maxCallDepth ≤ left.callDepth
  · rw [if_pos full]
    exact .excuse ⟨_, rfl⟩
  · rw [if_neg full]
    have repeated := endsAlike_repeatBody unlimited (rest.bodies id body known) count
      (Inside.enter rest same unlimited)
    refine .within_left (.ensuring_left repeated ?_ ?_)
    · rintro _ total leftAfter rightAfter ⟨inside, steps⟩
      exact ⟨⟨inside.leave, inside.closed rfl⟩, steps⟩
    · intro leftAfter rightAfter inside
      exact ⟨inside.leave, inside.closed rfl⟩

theorem AtRest.endsAlike_call {limits : Limits} {left right : Machine}
    (rest : right.AtRest) (sameLimits : limits = right.limits)
    (unlimited : limits.maxSteps = none) (same : SameState left right)
    {id : UInt32} {body : Program} (known : right.functions.get? id = some body)
    (count : Nat) :
    EndsAlike ExceedsCallDepth
      (fun (_ : Nat) total leftAfter rightAfter => SameClosed leftAfter rightAfter ∧
        leftAfter.steps = left.steps + count + total)
      SameClosed ((outermostCall limits id count >>= fun _ => pure 0) left)
      (executeRepeatedly body count right) := by
  subst sameLimits
  exact .map_left (rest.endsAlike_callFunction unlimited same known count)
    fun _ _ _ _ ended => ended

/-! ## Programs of one call -/

/-- The run has taken a step for the call, one for each of `count` entries of the body
and `total` steps inside of them. -/
def TakesInTotal (count : Nat) (_ : Unit) (total : Nat) (left right : Machine) : Prop :=
  SameState left right ∧ left.steps = 1 + count + total

theorem AtRest.endsAlike_single {machine : Machine} (rest : machine.AtRest)
    (unlimited : machine.limits.maxSteps = none) {instruction : Instruction} {outcome : Outcome β}
    {excused : Fault → Prop} {finished : β → Machine → Machine → Prop}
    {failed : Machine → Machine → Prop}
    (alike : ∀ fetched, SameState fetched machine → fetched.steps = 1 →
      EndsAlike excused (fun _ => finished) failed
        (execute (outermostCall machine.limits) [] instruction fetched) outcome)
    (finishedClosed : ∀ result left right, finished result left right → left.capture = none)
    (failedClosed : ∀ left right, failed left right → left.capture = none) :
    EndsAlike excused (fun _ => finished) failed (executeProgram [instruction] machine)
      outcome := by
  have unlimitedBegun : { machine with steps := 0 }.limits.maxSteps = none := unlimited
  rw [executeProgram_apply]
  refine .runWhole_left ?_ (fun _ => finishedClosed) failedClosed
  refine EndsAlike.map_left ?_ fun _ _ _ _ ended => ended
  rw [step_unlimited unlimitedBegun rest.resetSteps.capture]
  have fetched : SameState ({ machine with steps := 0 }.fetched 0 instruction) machine :=
    { SameState.refl machine with }
  exact (alike _ fetched rfl).within_left

theorem AtRest.executeProgram_single {machine : Machine} (rest : machine.AtRest)
    (unlimited : machine.limits.maxSteps = none) {instruction : Instruction} {count : Nat}
    {outcome : Outcome Nat}
    (alike : ∀ fetched, SameState fetched machine →
      EndsAlike ExceedsCallDepth
        (fun _ total left right => SameClosed left right ∧
          left.steps = fetched.steps + count + total)
        SameClosed (execute (outermostCall machine.limits) [] instruction fetched) outcome) :
    EndsAlike ExceedsCallDepth (TakesInTotal count) SameState
      (executeProgram [instruction] machine) outcome := by
  have whole : EndsAlike ExceedsCallDepth
      (fun (_ : Unit) total left right =>
        SameClosed left right ∧ left.steps = 1 + count + total)
      SameClosed (executeProgram [instruction] machine) outcome := by
    refine rest.endsAlike_single unlimited (fun fetched same first => ?_)
      (fun _ _ _ ended => ended.1.2) fun _ _ ended => ended.2
    rw [← first]
    exact alike fetched same
  exact whole.weaken (fun _ _ _ _ ended => ⟨ended.1.1, ended.2⟩) fun _ _ ended => ended.1

/-- A call does what running the function body as a program would do. LOOPCALL takes the
number of runs from the stack. -/
theorem AtRest.executeProgram_call {machine : Machine} (rest : machine.AtRest)
    (unlimited : machine.limits.maxSteps = none) {id : UInt32} {body : Program}
    (known : machine.functions.get? id = some body) :
    (∀ countValue idValue popped,
      onStack OperandStack.popTwo machine = .ok (countValue, idValue) popped →
      idValue.toIndex .function = .ok id →
        EndsAlike ExceedsCallDepth (TakesInTotal countValue.integerPart.toInt.toNat) SameState
          (executeProgram [.control .loopCall] machine)
          (executeRepeatedly body countValue.integerPart.toInt.toNat popped)) ∧
    ∀ idValue popped, onStack OperandStack.pop machine = .ok idValue popped →
      idValue.toIndex .function = .ok id →
        EndsAlike ExceedsCallDepth (TakesInTotal 1) SameState
          (executeProgram [.control .call] machine) (executeRepeatedly body 1 popped) := by
  constructor
  · intro countValue idValue popped pops index
    refine rest.executeProgram_single unlimited fun fetched same => ?_
    rcases same.onMemory pops with ⟨popsFetched, samePopped⟩
    rw [execute, control_loopCall popsFetched index]
    by_cases positive : 0 < countValue.integerPart
    · rw [if_pos positive]
      exact (rest.of_onMemory pops).endsAlike_call (same.limits.symm.trans samePopped.limits)
        unlimited samePopped (same.functions.symm.trans samePopped.functions ▸ known) _
    · have none : countValue.integerPart.toInt.toNat = 0 := by
        rw [Int64.lt_iff_toInt_lt, Int64.toInt_zero] at positive
        omega
      rw [if_neg positive, none]
      exact .ok ⟨⟨samePopped, same.capture.trans rest.capture⟩, rfl⟩
  · intro idValue popped pops index
    refine rest.executeProgram_single unlimited fun fetched same => ?_
    rcases same.onMemory pops with ⟨popsFetched, samePopped⟩
    rw [execute, control_call popsFetched index]
    exact (rest.of_onMemory pops).endsAlike_call (same.limits.symm.trans samePopped.limits)
      unlimited samePopped (same.functions.symm.trans samePopped.functions ▸ known) _

/-- Two runs of a function that duplicates the top of the stack, and one run of it. -/
theorem executeProgram_call_dup :
    EndsAlike ExceedsCallDepth (TakesInTotal 2) SameState
      (executeProgram [.control .loopCall]
        { new {} with
          functions := .define {} 3 [.stack .dup]
          memory := { stack := ⟨[.int 3, .int 2, .int 9], 4096⟩ } })
      (executeRepeatedly [.stack .dup] 2
        { new {} with
          functions := .define {} 3 [.stack .dup]
          memory := { stack := ⟨[.int 9], 4096⟩ } }) ∧
    EndsAlike ExceedsCallDepth (TakesInTotal 1) SameState
      (executeProgram [.control .call]
        { new {} with
          functions := .define {} 3 [.stack .dup]
          memory := { stack := ⟨[.int 3, .int 9], 4096⟩ } })
      (executeRepeatedly [.stack .dup] 1
        { new {} with
          functions := .define {} 3 [.stack .dup]
          memory := { stack := ⟨[.int 9], 4096⟩ } }) := by
  have rest (memory : Memory) :
      { new {} with functions := .define {} 3 [.stack .dup], memory }.AtRest :=
    ((atRest_new {}).define 3 (by decide)).withMemory memory
  have known : (FunctionTable.define {} 3 [.stack .dup]).get? 3 = some [.stack .dup] := by
    decide
  exact ⟨((rest _).executeProgram_call rfl known).1 (.int 2) (.int 3) _ rfl rfl,
    ((rest _).executeProgram_call rfl known).2 (.int 3) _ rfl rfl⟩

end Hinting.Machine
