import Hinting.Proofs.Stepping.Requests

/-!
Sessions: what can be done with a machine from outside, in any order.

Whatever has been done to a machine, and however it ended, the machine is at rest.
-/

namespace Hinting.Machine

def opened (limits : Limits) : Option FontTables → Machine
  | none => new limits
  | some font => withFont limits font

/-- What can be done from outside. Stack and control values are open to any change. -/
inductive Operation
  | call (call : Call)
  | editStack (edit : OperandStack → OperandStack)
  | editControlValues (edit : ControlValues → ControlValues)

def afterOperation (machine : Machine) : Operation → Machine
  | .call call => machine.afterCall call
  | .editStack edit =>
      { machine with memory := { machine.memory with stack := edit machine.memory.stack } }
  | .editControlValues edit =>
      { machine with
        memory := { machine.memory with controlValues := edit machine.memory.controlValues } }

def session (limits : Limits) (font : Option FontTables) (history : List Operation) : Machine :=
  history.foldl afterOperation (opened limits font)

/-! ## Limits -/

theorem limits_enter (request : Request) (machine : Machine) :
    (Outcome.machine (request.enter machine)).limits = machine.limits := by
  have enters := request.enters machine
  generalize request.enter machine = outcome at enters ⊢
  cases enters with
  | fails failure after limits => exact limits
  | rests after limits => exact limits
  | begins purpose program after outermost limits => exact limits

theorem machine_nothingAfter (action : MachineAction Unit) (machine : Machine) :
    Outcome.machine (Reply.nothingAfter action machine) = Outcome.machine (action machine) := by
  rw [Reply.nothingAfter, bind_apply]
  cases action machine with
  | ok result after => rfl
  | error failure after => rfl

theorem AtRest.limits_request {machine : Machine} (rest : machine.AtRest) (request : Request) :
    (Outcome.machine (Reply.nothingAfter request.perform machine)).limits = machine.limits := by
  rw [machine_nothingAfter]
  rw [← limits_enter request machine, ← machine_begin]
  exact (rest.reaches_perform request).limits

theorem limits_onMemory (action : MemoryAction α) (machine : Machine) :
    (Outcome.machine (onMemory action machine)).limits = machine.limits :=
  congrArg Surroundings.limits ((Oblivious.onMemory action).surroundings_eq machine)

theorem AtRest.limits_afterCall {machine : Machine} (rest : machine.AtRest) (call : Call) :
    (machine.afterCall call).limits = machine.limits := by
  have after : machine.afterCall call = Outcome.machine (call.perform machine) := by
    rw [Machine.afterCall]
    cases call.perform machine <;> rfl
  rw [after]
  cases call with
  | executeProgram program => exact rest.limits_request (.executeProgram program)
  | executeBytes bytes => exact rest.limits_request (.executeBytes bytes)
  | prime => exact rest.limits_request .prime
  | loadFontProgram => exact rest.limits_request .loadFontProgram
  | onStack call => exact limits_onMemory _ machine
  | writeStorage location value =>
      exact (congrArg Machine.limits (machine_nothingAfter _ machine)).trans
        (limits_onMemory _ machine)
  | setControlValue index value =>
      exact (congrArg Machine.limits (machine_nothingAfter _ machine)).trans
        (limits_onMemory _ machine)

/-! ## Rest -/

structure Resting (limits : Limits) (machine : Machine) : Prop where
  rest : machine.AtRest
  limits : machine.limits = limits

theorem resting_opened (limits : Limits) (font : Option FontTables) :
    Resting limits (opened limits font) := by
  cases font with
  | none => exact ⟨atRest_new limits, rfl⟩
  | some font => exact ⟨atRest_withFont limits font, rfl⟩

theorem Resting.afterOperation {limits : Limits} {machine : Machine}
    (resting : Resting limits machine) (operation : Operation) :
    Resting limits (machine.afterOperation operation) := by
  cases operation with
  | call call =>
      exact ⟨resting.rest.afterCall call, (resting.rest.limits_afterCall call).trans resting.limits⟩
  | editStack edit => exact ⟨resting.rest.withMemory _, resting.limits⟩
  | editControlValues edit => exact ⟨resting.rest.withMemory _, resting.limits⟩

theorem Resting.foldl_afterOperation {limits : Limits} {machine : Machine}
    (resting : Resting limits machine) (history : List Operation) :
    Resting limits (history.foldl Machine.afterOperation machine) := by
  induction history generalizing machine with
  | nil => exact resting
  | cons operation history induction => exact induction (resting.afterOperation operation)

theorem resting_session (limits : Limits) (font : Option FontTables) (history : List Operation) :
    Resting limits (session limits font history) :=
  (resting_opened limits font).foldl_afterOperation history

/-- Between the operations of a session no definition is open, no function is active and the font
program is not being run. Within them, the font program is never run for a call while a definition
is open. -/
theorem session_resting (limits : Limits) (font : Option FontTables) (history : List Operation) :
    ((session limits font history).isCapturing = false ∧
        (session limits font history).callDepth = 0 ∧
        (session limits font history).inFontProgram = false) ∧
      ∀ (request : Request) active callers before caller program after,
        Reaches (request.begin (session limits font history)) (.running active callers before) →
        Follows (.running active callers before)
          (.running ⟨.fontProgram, program, 0⟩ (caller :: callers) after) →
        before.capture = none ∧ after.capture = none := by
  have rest := (resting_session limits font history).rest
  refine ⟨⟨?_, rest.callDepth, rest.inFontProgram⟩, ?_⟩
  · rw [isCapturing, rest.capture]
    rfl
  · intro request active callers before caller program after _ follows
    exact closed_of_startsFontProgram follows

/-- The call names a function that has been put on the stack from outside, and that nothing but the
font program can define. -/
theorem session_resting_call :
    let font : FontTables := { fontProgram := some [0xB0, 5, 0x2C, 0x2D] }
    let machine := session {} (some font) [.call .prime, .editStack fun _ => ⟨[.int 5], 8⟩]
    let first := (Request.executeProgram [.control .call]).begin machine
    (machine.isCapturing = false ∧ machine.callDepth = 0 ∧ machine.inFontProgram = false) ∧
      ∃ before caller program after,
        Reaches first (.running ⟨.program, [.control .call], 0⟩ [] before) ∧
          Follows (.running ⟨.program, [.control .call], 0⟩ [] before)
            (.running ⟨.fontProgram, program, 0⟩ [caller] after) ∧
          before.capture = none ∧ after.capture = none := by
  intro font machine first
  have resting := session_resting {} (some font)
    [.call .prime, .editStack fun _ => ⟨[.int 5], 8⟩]
  exact ⟨resting.1, _, _, _, _, .refl, .advance ⟨.program, [.control .call], 0⟩ [] _,
    resting.2 (.executeProgram [.control .call]) _ _ _ _ _ _ .refl
      (.advance ⟨.program, [.control .call], 0⟩ [] _)⟩

end Hinting.Machine
