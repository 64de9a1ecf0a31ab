import Hinting.Proofs.Machine.Action

/-!
How control instructions take their operands.
-/

namespace Hinting.Machine

variable {machine after : Machine}

/-! ## Looking at the stack -/

theorem onStack_require {needed : Nat} (present : needed ≤ machine.memory.stack.size) :
    onStack (OperandStack.require needed) machine = .ok () machine := by
  rw [onStack, onMemory, Memory.onStack, OperandStack.require, if_pos present]

theorem eq_of_require {needed : Nat}
    (required : onStack (OperandStack.require needed) machine = .ok () after) :
    after = machine ∧ needed ≤ machine.memory.stack.size := by
  rw [onStack, onMemory, Memory.onStack, OperandStack.require] at required
  by_cases present : needed ≤ machine.memory.stack.size
  · rw [if_pos present] at required
    cases required
    exact ⟨rfl, present⟩
  · rw [if_neg present] at required
    cases required

theorem onStack_peek {depth : Nat} {value : Value}
    (found : machine.memory.stack.values[depth]? = some value) :
    onStack (OperandStack.peek depth) machine = .ok value machine := by
  rw [onStack, onMemory, Memory.onStack, OperandStack.peek, found]

theorem functionId_apply {value : Value} {id : UInt32}
    (top : machine.memory.stack.values[0]? = some value)
    (index : value.toIndex .function = .ok id) :
    functionId machine = .ok id machine := by
  rw [functionId, bind_apply_of_ok (onStack_peek top), index]
  rfl

theorem eq_of_functionId {id : UInt32} (named : functionId machine = .ok id after) :
    after = machine ∧ ∃ top below, machine.memory.stack.values = top :: below ∧
      top.toIndex .function = .ok id := by
  rcases bind_eq_ok.mp named with ⟨top, middle, peeked, converted⟩
  cases held : machine.memory.stack.values with
  | nil =>
      rw [onStack, onMemory, Memory.onStack, OperandStack.peek, held] at peeked
      cases peeked
  | cons value below =>
      have found : machine.memory.stack.values[0]? = some value := by rw [held]; rfl
      rw [onStack_peek found] at peeked
      cases peeked
      cases index : top.toIndex .function with
      | error cause =>
          rw [index] at converted
          cases converted
      | ok other =>
          rw [index] at converted
          cases converted
          exact ⟨rfl, top, below, rfl, index⟩

/-! ## Taking values from the stack -/

theorem onStack_pop {value : Value} {below : List Value}
    (held : machine.memory.stack.values = value :: below) :
    onStack OperandStack.pop machine =
      .ok value { machine with
        memory :=
          { machine.memory with stack := { machine.memory.stack with values := below } } } := by
  rw [onStack, onMemory, Memory.onStack, OperandStack.pop, held]

theorem values_of_pop {value : Value} (pops : onStack OperandStack.pop machine = .ok value after) :
    machine.memory.stack.values = value :: after.memory.stack.values := by
  rw [onStack, onMemory, Memory.onStack, OperandStack.pop] at pops
  cases held : machine.memory.stack.values with
  | nil =>
      rw [held] at pops
      cases pops
  | cons top below =>
      rw [held] at pops
      cases pops
      rfl

theorem values_of_popTwo {first second : Value}
    (pops : onStack OperandStack.popTwo machine = .ok (first, second) after) :
    machine.memory.stack.values = second :: first :: after.memory.stack.values := by
  rw [onStack, onMemory, Memory.onStack, OperandStack.popTwo] at pops
  rcases held : machine.memory.stack.values with _ | ⟨top, _ | ⟨next, below⟩⟩
  · rw [held] at pops
    cases pops
  · rw [held] at pops
    cases pops
  · rw [held] at pops
    cases pops
    rfl

/-! ## Operands of calls -/

section

variable {call : UInt32 → Nat → MachineAction Unit} {rest : Program}
  {idValue countValue : Value} {id : UInt32}

theorem control_call (pops : onStack OperandStack.pop machine = .ok idValue after)
    (index : idValue.toIndex .function = .ok id) :
    control call rest .call machine = (call id 1 >>= fun _ => pure 0) after := by
  have top : machine.memory.stack.values[0]? = some idValue := by rw [values_of_pop pops]; rfl
  exact (bind_apply_of_ok (functionId_apply top index)).trans (bind_apply_of_ok pops)

theorem control_loopCall
    (pops : onStack OperandStack.popTwo machine = .ok (countValue, idValue) after)
    (index : idValue.toIndex .function = .ok id) :
    control call rest .loopCall machine =
      if 0 < countValue.integerPart then
        (call id countValue.integerPart.toInt.toNat >>= fun _ => pure 0) after
      else .ok 0 after := by
  have values := values_of_popTwo pops
  have present : 2 ≤ machine.memory.stack.size := by
    rw [OperandStack.size, values]
    exact Nat.le_add_left 2 _
  have top : machine.memory.stack.values[0]? = some idValue := by rw [values]; rfl
  have next : machine.memory.stack.values[1]? = some countValue := by rw [values]; rfl
  rw [control, bind_apply_of_ok (onStack_require present),
    bind_apply_of_ok (functionId_apply top index), bind_apply_of_ok (onStack_peek next)]
  dsimp only
  rw [bind_apply_of_ok pops]
  split <;> rfl

end

end Hinting.Machine
