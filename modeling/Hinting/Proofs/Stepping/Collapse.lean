import Hinting.Proofs.Stepping.Entering

/-!
How runs end in failure.

The steps that a run can fail with are listed once, each with the programs that the failure comes
out of.
-/

namespace Hinting.Machine

/-- A step fails with `raised`, and its run with what becomes of that on the way out of the active
programs. -/
inductive Collapses (active : Activation) (callers : List Caller) (machine : Machine) :
    (raised : Failure) → Outcome Unit → Prop
  | instruction {instruction : Instruction} {raised : Failure} {left : Machine}
      (found : active.program[active.index]? = some instruction)
      (fails : fetch active.index instruction (active.program.drop (active.index + 1)) machine =
        .error raised left) :
      Collapses active callers machine raised (fail active.purpose callers raised left)
  | call {instruction : Instruction} {invocation : Invocation} {raised : Failure}
      {middle left : Machine} (found : active.program[active.index]? = some instruction)
      (calls : fetch active.index instruction (active.program.drop (active.index + 1)) machine =
        .ok (.call invocation) middle)
      (fails : invoke invocation middle = .error raised left) :
      Collapses active callers machine raised
        (fail active.purpose callers
          (raised.within (.instruction instruction.mnemonic active.index)) left)
  | entry {id : UInt32} {more : Nat} {raised : Failure} {left : Machine}
      (ended : active.program[active.index]? = none)
      (purpose : active.purpose = .function id (more + 1))
      (fails : tick machine = .error raised left) :
      Collapses active callers machine raised (fail (.function id more) callers raised left)
  | openEnd {capture : Capture} (ended : active.program[active.index]? = none)
      (whole : active.purpose.isFunction = false) (opened : machine.capture = some capture) :
      Collapses active callers machine { cause := .unterminatedFunction capture.id }
        (fail active.purpose callers { cause := .unterminatedFunction capture.id } machine)
  | resolution {caller : Caller} {others : List Caller} {raised : Failure} {left : Machine}
      (ended : active.program[active.index]? = none) (purpose : active.purpose = .fontProgram)
      (waiting : callers = caller :: others) (closed : machine.capture = none)
      (fails : enterDefined caller.invocation machine.leaveFontProgram = .error raised left) :
      Collapses active callers machine raised
        (fail caller.purpose others (raised.within caller.site) left)

section

variable {active : Activation} {callers : List Caller} {machine after : Machine} {failure : Failure}

theorem collapses_of_proceed {instruction : Instruction}
    (found : active.program[active.index]? = some instruction)
    (ended : proceed active callers (.instruction instruction.mnemonic active.index)
      (fetch active.index instruction (active.program.drop (active.index + 1)) machine) =
        .ended (.error failure after)) :
    ∃ raised, Collapses active callers machine raised (.error failure after) := by
  cases fetched : fetch active.index instruction (active.program.drop (active.index + 1))
      machine with
  | error raised left =>
      rw [fetched] at ended
      injection ended with fails
      exact fails ▸ ⟨_, .instruction found fetched⟩
  | ok effect middle =>
      rw [fetched] at ended
      cases effect with
      | goOn pass => cases ended
      | call invocation =>
          dsimp only [proceed] at ended
          cases invoked : invoke invocation middle with
          | ok entered left =>
              rw [invoked] at ended
              cases ended
          | error raised left =>
              rw [invoked] at ended
              injection ended with fails
              exact fails ▸ ⟨_, .call found fetched invoked⟩

theorem collapses_of_finishBody {id : UInt32} {more : Nat}
    (atEnd : active.program[active.index]? = none) (purpose : active.purpose = .function id more)
    (ended : finishBody id more active.program callers machine = .ended (.error failure after)) :
    ∃ raised, Collapses active callers machine raised (.error failure after) := by
  cases more with
  | zero => cases callers <;> cases ended
  | succ more =>
      rw [finishBody] at ended
      cases ticked : tick machine with
      | ok result left =>
          rw [ticked] at ended
          cases ended
      | error raised left =>
          rw [ticked] at ended
          injection ended with fails
          exact fails ▸ ⟨_, .entry atEnd purpose ticked⟩

theorem collapses_of_finishWhole (atEnd : active.program[active.index]? = none)
    (whole : active.purpose.isFunction = false)
    (ended : finishWhole active.purpose callers machine = .ended (.error failure after)) :
    ∃ raised, Collapses active callers machine raised (.error failure after) := by
  rw [finishWhole] at ended
  cases captured : machine.capture with
  | some capture =>
      rw [captured] at ended
      injection ended with fails
      exact fails ▸ ⟨_, .openEnd atEnd whole captured⟩
  | none =>
      rw [captured] at ended
      dsimp only at ended
      unfold succeed at ended
      split at ended
      · next caller others purpose =>
          cases entered : enterDefined caller.invocation machine.leaveFontProgram with
          | ok called left =>
              rw [entered] at ended
              cases ended
          | error raised left =>
              rw [entered] at ended
              injection ended with fails
              exact fails ▸ ⟨_, .resolution atEnd purpose rfl captured entered⟩
      · cases ended
      · cases ended

theorem collapses_of_advance
    (ended : advance active callers machine = .ended (.error failure after)) :
    ∃ raised, Collapses active callers machine raised (.error failure after) := by
  rw [advance] at ended
  cases found : active.program[active.index]? with
  | some instruction =>
      rw [found] at ended
      exact collapses_of_proceed found ended
  | none =>
      rw [found] at ended
      dsimp only at ended
      rw [finish] at ended
      cases purpose : active.purpose with
      | function id more =>
          rw [purpose] at ended
          exact collapses_of_finishBody found purpose ended
      | _ =>
          have whole : active.purpose.isFunction = false := by rw [purpose]; rfl
          rw [purpose] at ended
          exact collapses_of_finishWhole found whole (by rwa [purpose])

end

end Hinting.Machine
