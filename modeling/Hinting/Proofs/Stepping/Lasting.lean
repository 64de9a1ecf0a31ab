import Hinting.Proofs.Stepping.Entering

/-!
What lasts for a run.

What the actions keep that steps consist of is kept by steps, however these end, and so by runs.
-/

namespace Hinting.Machine

/-- What holds of a machine is kept by the actions that steps consist of, and has nothing to do with
the programs that are left in the end or in failure. -/
structure Lasting (holds : Machine → Prop) : Prop where
  tick : Maintains holds tick
  fetch (index : Nat) (instruction : Instruction) (rest : Program) :
    Maintains holds (fetch index instruction rest)
  enterDefined (invocation : Invocation) : Maintains holds (enterDefined invocation)
  invoke (invocation : Invocation) : Maintains holds (invoke invocation)
  leave (machine : Machine) (callDepth : Nat) (inFontProgram : Bool) (capture : Option Capture)
    (journal : List Event) :
    holds machine → holds { machine with callDepth, inFontProgram, capture, journal }

namespace Lasting

variable {holds : Machine → Prop} (lasting : Lasting holds) {active : Activation}
  {callers : List Caller} {machine : Machine}

include lasting

theorem fail {purpose : Purpose} {failure : Failure} (now : holds machine) :
    holds (Outcome.machine (fail purpose callers failure machine)) := by
  refine holds_fail holds (fun purpose machine now => ?_) purpose callers failure now
  cases purpose with
  | _ => exact lasting.leave machine _ _ _ machine.journal now

theorem await {caller : Caller} {outcome : Outcome Activation} (now : holds (stateAfter outcome)) :
    holds (await caller callers outcome).machine := by
  cases outcome with
  | ok active after => exact now
  | error failure after => exact lasting.fail now

theorem proceed {site : Context} {outcome : Outcome Effect} (now : holds (stateAfter outcome)) :
    holds (proceed active callers site outcome).machine := by
  cases outcome with
  | error failure after => exact lasting.fail now
  | ok effect after =>
      cases effect with
      | goOn pass => exact now
      | call invocation => exact lasting.await (lasting.invoke invocation after now)

theorem finishBody {id : UInt32} {more : Nat} {body : Program} (now : holds machine) :
    holds (finishBody id more body callers machine).machine := by
  cases more with
  | zero =>
      have left := lasting.leave machine (machine.callDepth - 1) machine.inFontProgram
        machine.capture machine.journal now
      cases callers with
      | nil => exact left
      | cons caller callers => exact left
  | succ more =>
      have ticked := lasting.tick machine now
      rw [Machine.finishBody]
      cases ends : Machine.tick machine with
      | ok result after =>
          rw [ends] at ticked
          exact ticked
      | error failure after =>
          rw [ends] at ticked
          exact lasting.fail ticked

theorem succeed {purpose : Purpose} (now : holds machine) :
    holds (succeed purpose callers machine).machine := by
  have left := lasting.leave machine machine.callDepth false machine.capture
    (.fontProgramDone machine.functions.size :: machine.journal) now
  unfold Machine.succeed
  split
  · exact lasting.await (lasting.enterDefined _ _ left)
  · exact left
  · exact now

theorem finish (now : holds machine) : holds (finish active callers machine).machine := by
  rw [Machine.finish]
  split
  · exact lasting.finishBody now
  · rw [finishWhole]
    split
    · exact lasting.fail now
    · exact lasting.succeed now

theorem advance (now : holds machine) : holds (advance active callers machine).machine := by
  rw [Machine.advance]
  split
  · exact lasting.proceed (lasting.fetch _ _ _ machine now)
  · exact lasting.finish now

theorem of_reaches {first last : Progress} (now : holds first.machine)
    (reaches : Reaches first last) : holds last.machine :=
  @Reaches.lasts (fun state => holds state.machine) _ _ reaches
    (fun _ _ _ now => lasting.advance now) now

end Lasting

end Hinting.Machine
