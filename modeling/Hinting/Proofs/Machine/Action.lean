import Hinting.Machine.Session
import Hinting.Proofs.Stateful

/-!
Machine actions as functions: what they end with on a given machine.
-/

namespace Hinting.Machine

abbrev Outcome (α : Type) := EStateM.Result Failure Machine α

def Outcome.machine : Outcome α → Machine
  | .ok _ machine => machine
  | .error _ machine => machine

def Outcome.failure? : Outcome α → Option Failure
  | .ok _ _ => none
  | .error failure _ => some failure

theorem Outcome.eq_error_of_failure? {outcome : Outcome α} {failure : Failure}
    (fails : outcome.failure? = some failure) : outcome = .error failure outcome.machine := by
  cases outcome with
  | ok result after => cases fails
  | error other after =>
      cases fails
      rfl

theorem stateAfter_eq_machine (outcome : Outcome α) : stateAfter outcome = outcome.machine := by
  cases outcome <;> rfl

section

variable {action : MachineAction α} {machine after : Machine}

theorem within_apply_of_ok {result : α} (context : Context)
    (ends : action machine = .ok result after) :
    within context action machine = .ok result after := by
  rw [within, ends]

theorem within_apply_of_error {failure : Failure} (context : Context)
    (ends : action machine = .error failure after) :
    within context action machine = .error (failure.within context) after := by
  rw [within, ends]

end

theorem tick_apply (machine : Machine) :
    tick machine =
      match machine.limits.maxSteps with
      | some limit =>
          if limit < machine.steps + 1 then
            .error { cause := .stepLimitExceeded limit }
              { machine with steps := machine.steps + 1 }
          else .ok () { machine with steps := machine.steps + 1 }
      | none => .ok () { machine with steps := machine.steps + 1 } := by
  change (match machine.limits.maxSteps with
    | some limit =>
        if limit < machine.steps + 1 then fault (.stepLimitExceeded limit) else pure ()
    | none => pure () : MachineAction Unit) { machine with steps := machine.steps + 1 } = _
  cases machine.limits.maxSteps with
  | none => rfl
  | some limit =>
      by_cases exceeded : limit < machine.steps + 1
      · simp only [exceeded, if_true]
        rfl
      · simp only [exceeded, if_false]
        rfl

/-! ## Steps without a budget -/

def fetched (index : Nat) (instruction : Instruction) (machine : Machine) : Machine :=
  { machine with
    steps := machine.steps + 1
    journal := .executing index instruction machine.memory.stack.size :: machine.journal }

theorem tick_unlimited {machine : Machine} (unlimited : machine.limits.maxSteps = none) :
    tick machine = .ok () { machine with steps := machine.steps + 1 } := by
  rw [tick_apply, unlimited]

theorem step_unlimited {call : UInt32 → Nat → MachineAction Unit} {machine : Machine}
    (unlimited : machine.limits.maxSteps = none) (closed : machine.capture = none)
    (index : Nat) (instruction : Instruction) (rest : Program) :
    step call index instruction rest machine =
      within (.instruction instruction.mnemonic index) (execute call rest instruction)
        (machine.fetched index instruction) := by
  rw [step, bind_apply_of_ok (tick_unlimited unlimited), get_bind_apply, fetched]
  dsimp only
  rw [closed]
  rfl

/-! ## Results and failures -/

def Returns (property : α → Prop) (action : MachineAction α) : Prop :=
  ∀ machine result after, action machine = .ok result after → property result

namespace Returns

variable {property : α → Prop} {action : MachineAction α}

theorem pure {result : α} (holds : property result) : Returns property (pure result) := by
  intro machine other after ends
  cases ends
  exact holds

theorem fault {cause : Fault} : Returns property (fault cause) :=
  fun _ _ _ impossible => nomatch impossible

theorem bind {first : MachineAction β} {next : β → MachineAction α}
    (returns : ∀ result, Returns property (next result)) :
    Returns property (first >>= next) := by
  intro machine result after ends
  rcases bind_eq_ok.mp ends with ⟨between, middle, _, continued⟩
  exact returns between middle result after continued

theorem within {context : Context} (returns : Returns property action) :
    Returns property (within context action) := by
  intro machine result after ends
  rw [Machine.within] at ends
  cases inner : action machine with
  | ok _ _ =>
      rw [inner] at ends
      cases ends
      exact returns machine result after inner
  | error _ _ =>
      rw [inner] at ends
      exact nomatch ends

end Returns

def FailsWith (cause : Fault) (outcome : Outcome α) : Prop :=
  ∃ failure after, outcome = .error failure after ∧ failure.cause = cause

namespace FailsWith

variable {cause : Fault} {action : MachineAction α} {machine : Machine}

theorem bind {next : α → MachineAction β} (fails : FailsWith cause (action machine)) :
    FailsWith cause ((action >>= next) machine) := by
  rcases fails with ⟨failure, after, ends, equal⟩
  exact ⟨failure, after, bind_apply_of_error ends, equal⟩

theorem bind_of_ok {next : α → MachineAction β} {result : α} {after : Machine}
    (ends : action machine = .ok result after) (fails : FailsWith cause (next result after)) :
    FailsWith cause ((action >>= next) machine) := by
  rwa [bind_apply_of_ok ends]

theorem within {context : Context} (fails : FailsWith cause (action machine)) :
    FailsWith cause (within context action machine) := by
  rcases fails with ⟨failure, after, ends, equal⟩
  exact ⟨failure.within context, after, within_apply_of_error context ends, equal⟩

end FailsWith

/-! ## What actions leave alone -/

/-- Nothing has changed but memory, depths, steps and what is reported. -/
structure SameControl (before after : Machine) : Prop where
  font : after.font = before.font
  functions : after.functions = before.functions
  capture : after.capture = before.capture
  decodedFontProgram : after.decodedFontProgram = before.decodedFontProgram
  fontProgramLoaded : after.fontProgramLoaded = before.fontProgramLoaded
  inFontProgram : after.inFontProgram = before.inFontProgram
  primed : after.primed = before.primed

namespace SameControl

variable {before middle after : Machine}

theorem refl (machine : Machine) : SameControl machine machine :=
  ⟨rfl, rfl, rfl, rfl, rfl, rfl, rfl⟩

theorem trans (first : SameControl before middle) (second : SameControl middle after) :
    SameControl before after where
  font := second.font.trans first.font
  functions := second.functions.trans first.functions
  capture := second.capture.trans first.capture
  decodedFontProgram := second.decodedFontProgram.trans first.decodedFontProgram
  fontProgramLoaded := second.fontProgramLoaded.trans first.fontProgramLoaded
  inFontProgram := second.inFontProgram.trans first.inFontProgram
  primed := second.primed.trans first.primed

end SameControl

theorem sameControl_tick (machine : Machine) :
    SameControl machine (Outcome.machine (tick machine)) := by
  rw [tick_apply]
  cases machine.limits.maxSteps with
  | none => exact ⟨rfl, rfl, rfl, rfl, rfl, rfl, rfl⟩
  | some limit =>
      dsimp only
      split <;> exact ⟨rfl, rfl, rfl, rfl, rfl, rfl, rfl⟩

theorem memory_tick (machine : Machine) :
    (Outcome.machine (tick machine)).memory = machine.memory := by
  rw [tick_apply]
  cases machine.limits.maxSteps with
  | none => rfl
  | some limit =>
      dsimp only
      split <;> rfl

theorem sameControl_onMemory (action : MemoryAction α) (machine : Machine) :
    SameControl machine (Outcome.machine (onMemory action machine)) := by
  rw [onMemory]
  split <;> exact ⟨rfl, rfl, rfl, rfl, rfl, rfl, rfl⟩

end Hinting.Machine
