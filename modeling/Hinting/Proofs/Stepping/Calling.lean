import Hinting.Proofs.Machine.Operands
import Hinting.Proofs.Stepping.Trails

/-!
Calls as steps.

From which states a call is made, and what the step from there does: the operands are taken from the
stack before it is looked for the function.
-/

namespace Hinting.Machine

/-- The instruction is a call, and its operands ask for this invocation. What is below stays. -/
inductive Invokes : Instruction → List Value → Invocation → List Value → Prop
  | call {top : Value} {below : List Value} {id : UInt32} (index : top.toIndex .function = .ok id) :
      Invokes (.control .call) (top :: below) ⟨id, 1⟩ below
  | loopCall {top count : Value} {below : List Value} {id : UInt32}
      (index : top.toIndex .function = .ok id) (positive : 0 < count.integerPart) :
      Invokes (.control .loopCall) (top :: count :: below)
        ⟨id, count.integerPart.toInt.toNat⟩ below

def AffordsStep (machine : Machine) : Prop :=
  ∀ limit, machine.limits.maxSteps = some limit → machine.steps < limit

def withValues (values : List Value) (machine : Machine) : Machine :=
  { machine with
    memory := { machine.memory with stack := { machine.memory.stack with values } } }

/-- The next instruction of the active program is a call, and it is carried out. -/
structure Calling (active : Activation) (machine : Machine) (instruction : Instruction)
    (invocation : Invocation) (below : List Value) : Prop where
  found : active.program[active.index]? = some instruction
  closed : machine.capture = none
  affordable : machine.AffordsStep
  operands : Invokes instruction machine.memory.stack.values invocation below

/-- The caller waits behind a call, whose operands have asked for its invocation. -/
def Caller.Waits (caller : Caller) : Prop :=
  ∃ index instruction values below,
    caller.index = index + 1 ∧ caller.program[index]? = some instruction ∧
      Invokes instruction values caller.invocation below ∧
      caller.site = .instruction instruction.mnemonic index

section

variable {rest : Program} {machine after : Machine} {invocation : Invocation}

/-! ## Operands -/

section

variable {top count : Value} {below : List Value} {id : UInt32}

theorem carryOut_call (held : machine.memory.stack.values = top :: below)
    (index : top.toIndex .function = .ok id) :
    carryOut rest (.control .call) machine = .ok (.call ⟨id, 1⟩) (machine.withValues below) := by
  have first : machine.memory.stack.values[0]? = some top := by rw [held]; rfl
  have named := functionId_apply first index
  exact (bind_apply_of_ok named).trans (bind_apply_of_ok (onStack_pop held))

theorem carryOut_loopCall (held : machine.memory.stack.values = top :: count :: below)
    (index : top.toIndex .function = .ok id) :
    carryOut rest (.control .loopCall) machine =
      .ok (if 0 < count.integerPart then .call ⟨id, count.integerPart.toInt.toNat⟩ else .goOn 0)
        (machine.withValues below) := by
  have present : 2 ≤ machine.memory.stack.size := by
    rw [OperandStack.size, held]
    exact Nat.le_add_left 2 _
  have first : machine.memory.stack.values[0]? = some top := by rw [held]; rfl
  have second : machine.memory.stack.values[1]? = some count := by rw [held]; rfl
  have pops : onStack OperandStack.popTwo machine =
      .ok (count, top) (machine.withValues below) := by
    rw [onStack, onMemory, Memory.onStack, OperandStack.popTwo, held]
    rfl
  rw [carryOut, bind_apply_of_ok (onStack_require present),
    bind_apply_of_ok (functionId_apply first index), bind_apply_of_ok (onStack_peek second)]
  exact bind_apply_of_ok pops

end

theorem Invokes.carryOut {instruction : Instruction} {below : List Value}
    (invokes : Invokes instruction machine.memory.stack.values invocation below) :
    carryOut rest instruction machine = .ok (.call invocation) (machine.withValues below) := by
  generalize held : machine.memory.stack.values = values at invokes
  cases invokes with
  | call index => exact carryOut_call held index
  | loopCall index positive => rw [carryOut_loopCall held index, if_pos positive]

theorem invokes_of_carryOut_loopCall
    (ends : carryOut rest (.control .loopCall) machine = .ok (.call invocation) after) :
    ∃ below, Invokes (.control .loopCall) machine.memory.stack.values invocation below := by
  rcases bind_eq_ok.mp ends with ⟨_, required, requires, named⟩
  rcases eq_of_require requires with ⟨rfl, present⟩
  rcases bind_eq_ok.mp named with ⟨id, _, names, _⟩
  rcases eq_of_functionId names with ⟨rfl, top, others, held, index⟩
  cases others with
  | nil =>
      rw [OperandStack.size, held] at present
      exact absurd present (by decide : ¬ 2 ≤ 1)
  | cons count below =>
      rw [carryOut_loopCall held index] at ends
      by_cases positive : 0 < count.integerPart
      · rw [if_pos positive] at ends
        cases ends
        rw [held]
        exact ⟨below, .loopCall index positive⟩
      · rw [if_neg positive] at ends
        cases ends

theorem invokes_of_carryOut {instruction : Instruction}
    (ends : carryOut rest instruction machine = .ok (.call invocation) after) :
    ∃ below, Invokes instruction machine.memory.stack.values invocation below := by
  have calls : instruction.isCall = true := returns_carryOut_calls _ _ _ _ _ ends
  unfold Instruction.isCall at calls
  split at calls
  · rcases bind_eq_ok.mp ends with ⟨id, _, names, _⟩
    rcases eq_of_functionId names with ⟨rfl, top, below, held, index⟩
    rw [carryOut_call held index] at ends
    cases ends
    rw [held]
    exact ⟨below, .call index⟩
  · exact invokes_of_carryOut_loopCall ends
  · cases calls

/-! ## Steps -/

theorem tick_of_affordsStep (affordable : machine.AffordsStep) :
    tick machine = .ok () { machine with steps := machine.steps + 1 } := by
  rw [tick_apply]
  cases budget : machine.limits.maxSteps with
  | none => rfl
  | some limit =>
      dsimp only
      rw [if_neg (Nat.not_lt.mpr (affordable limit budget))]

theorem tick_of_not_affordsStep (exhausted : ¬machine.AffordsStep) :
    ∃ limit, machine.limits.maxSteps = some limit ∧
      tick machine = .error { cause := .stepLimitExceeded limit }
        { machine with steps := machine.steps + 1 } := by
  rcases Classical.not_forall.mp exhausted with ⟨limit, unaffordable⟩
  rcases Classical.not_imp.mp unaffordable with ⟨budget, reached⟩
  refine ⟨limit, budget, ?_⟩
  rw [tick_apply, budget]
  dsimp only
  rw [if_pos (Nat.lt_succ_of_le (Nat.not_lt.mp reached))]

theorem affordsStep_of_tick {result : Unit} (ticked : tick machine = .ok result after) :
    machine.AffordsStep := by
  intro limit budget
  rw [tick_apply, budget] at ticked
  dsimp only at ticked
  split at ticked
  · cases ticked
  · next affordable =>
      exact Nat.lt_of_not_le fun exceeded => affordable (Nat.lt_succ_of_le exceeded)

theorem fetch_of_closed (closed : machine.capture = none) (affordable : machine.AffordsStep)
    (index : Nat) (instruction : Instruction) (rest : Program) :
    fetch index instruction rest machine =
      within (.instruction instruction.mnemonic index) (carryOut rest instruction)
        (machine.fetched index instruction) := by
  rw [fetch, bind_apply_of_ok (tick_of_affordsStep affordable), attempt, get_bind_apply, fetched]
  dsimp only
  rw [closed]
  rfl

variable {active : Activation} {callers : List Caller} {instruction : Instruction}
  {below : List Value}

theorem Calling.fetch (calling : Calling active machine instruction invocation below) :
    fetch active.index instruction (active.program.drop (active.index + 1)) machine =
      .ok (.call invocation) ((machine.fetched active.index instruction).withValues below) := by
  have operands : Invokes instruction
      (machine.fetched active.index instruction).memory.stack.values invocation below :=
    calling.operands
  rw [fetch_of_closed calling.closed calling.affordable]
  exact within_apply_of_ok _ operands.carryOut

theorem Calling.advance (calling : Calling active machine instruction invocation below) :
    advance active callers machine =
      await (active.calling (.instruction instruction.mnemonic active.index) invocation) callers
        (invoke invocation ((machine.fetched active.index instruction).withValues below)) := by
  rw [Machine.advance, calling.found]
  dsimp only
  rw [calling.fetch]
  rfl

theorem calling_of_fetch (found : active.program[active.index]? = some instruction)
    (ends :
      Machine.fetch active.index instruction (active.program.drop (active.index + 1)) machine =
        .ok (.call invocation) after) :
    ∃ below, Calling active machine instruction invocation below ∧
      after = (machine.fetched active.index instruction).withValues below := by
  have closed := (closed_of_fetch_call ends).1
  have affordable : machine.AffordsStep := by
    rcases bind_eq_ok.mp ends with ⟨_, _, ticked, _⟩
    exact affordsStep_of_tick ticked
  have carried := ends
  rw [fetch_of_closed closed affordable, within] at carried
  split at carried
  · next carries =>
      cases carried
      rcases invokes_of_carryOut carries with ⟨below, operands⟩
      have calling : Calling active machine instruction invocation below :=
        ⟨found, closed, affordable, operands⟩
      rw [calling.fetch] at ends
      cases ends
      exact ⟨below, calling, rfl⟩
  · cases carried

/-! ## Runs -/

theorem Calling.waits (calling : Calling active machine instruction invocation below) :
    (active.calling (.instruction instruction.mnemonic active.index) invocation).Waits :=
  ⟨active.index, instruction, _, below, rfl, calling.found, calling.operands, rfl⟩

theorem waits_of_reaches {first last : Progress} (waits : first.Callers Caller.Waits)
    (reaches : Reaches first last) : last.Callers Caller.Waits := by
  refine Progress.Callers.of_reaches waits reaches ?_
  intro active machine instruction invocation after found fetched
  rcases calling_of_fetch found fetched with ⟨below, calling, _⟩
  exact calling.waits

end

end Hinting.Machine
