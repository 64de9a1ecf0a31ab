import Hinting.Proofs.Memory.Atomicity
import Hinting.Proofs.Program.Skipping
import Hinting.Proofs.Stepping.Calling
import Hinting.Proofs.Stepping.Definitions

/-!
Control instructions that fail.

Operands are looked at before they are popped, with one exception: an IF has popped its condition
when it looks ahead for the end of the branch.
-/

namespace Hinting.Machine

/-! ## Actions on memory -/

theorem reads_onMemory {action : MemoryAction α} (reads : Reads action) :
    Reads (onMemory action) := by
  intro machine
  have same := reads machine.memory
  rw [onMemory]
  cases acted : action machine.memory with
  | ok result memory =>
      rw [acted] at same
      cases same
      rfl
  | error cause memory =>
      rw [acted] at same
      cases same
      rfl

theorem reads_onStack {action : StackAction α} (reads : Reads action) : Reads (onStack action) :=
  reads_onMemory (Memory.reads_onStack reads)

theorem reads_functionId : Reads functionId :=
  (reads_onStack (OperandStack.reads_peek 0)).bind fun _ =>
    reads_onMemory (.of_maintains fun _ => .ofExcept _)

theorem atomicAt_onStack {action : StackAction α} (refuses : OperandStack.Refuses action)
    (machine : Machine) : AtomicAt (onStack action) machine := by
  intro failure after fails
  rw [onStack, onMemory] at fails
  cases acted : Memory.onStack action machine.memory with
  | ok result memory =>
      rw [acted] at fails
      cases fails
  | error cause memory =>
      rw [acted] at fails
      cases fails
      rw [Memory.atomicAt_onStack (refuses.atomicAt _) _ _ acted]

section

variable {rest : Program} {machine after : Machine} {failure : Failure}

/-! ## Conditionals -/

theorem carryOut_beginElse (rest : Program) (machine : Machine) :
    carryOut rest (.control .beginElse) machine =
      match distanceToMarker? false 0 rest with
      | some distance => .ok (.goOn distance) machine
      | none => .error { cause := .unbalancedConditional } machine := by
  change (do return .goOn (← skipBranch false rest) : MachineAction Effect) machine = _
  rw [skipBranch]
  cases distanceToMarker? false 0 rest with
  | some distance => rfl
  | none => rfl

theorem carryOut_beginIf {condition : Value} {below : List Value}
    (held : machine.memory.stack.values = condition :: below) :
    carryOut rest (.control .beginIf) machine =
      if condition.raw = 0 then
        match distanceToMarker? true 0 rest with
        | some distance => .ok (.goOn distance) (machine.withValues below)
        | none => .error { cause := .unbalancedConditional } (machine.withValues below)
      else .ok (.goOn 0) (machine.withValues below) := by
  have popped : control (fun _ _ => pure ()) rest .beginIf machine =
      (if condition.isTrue then pure 0 else skipBranch true rest) (machine.withValues below) :=
    bind_apply_of_ok (onStack_pop held)
  change (do return .goOn (← control (fun _ _ => pure ()) rest .beginIf) :
    MachineAction Effect) machine = _
  rw [bind_apply, popped, Value.isTrue, skipBranch]
  by_cases zero : condition.raw = 0
  · rw [if_pos zero, zero]
    cases distanceToMarker? true 0 rest with
    | some distance => rfl
    | none => rfl
  · rw [if_neg zero, if_pos (bne_iff_ne.mpr zero)]
    rfl

/-! ## Failures -/

/-- The condition on top of the stack is zero, and neither an ELSE nor an EIF ends the branch. All
that has happened to memory is that the condition is gone. -/
structure LosesCondition (rest : Program) (before after : Machine) : Prop where
  missing : distanceToMarker? true 0 rest = none
  popped : ∃ condition below, before.memory.stack.values = condition :: below ∧
    condition.raw = 0 ∧ after.memory = (before.withValues below).memory

theorem atomicAt_carryOut {operation : ControlOperation} (other : operation ≠ .beginIf)
    (rest : Program) (machine : Machine) :
    AtomicAt (carryOut rest (.control operation)) machine := by
  have popped := atomicAt_onStack OperandStack.refuses_pop machine
  cases operation with
  | beginFunction =>
      have opens : AtomicAt (control (fun _ _ => pure ()) rest .beginFunction) machine :=
        reads_functionId.bind_atomicAt fun _ _ => popped.bind fun _ _ _ => ⟨_, _, rfl⟩
      exact opens.bind fun _ _ _ => ⟨_, _, rfl⟩
  | endFunction =>
      have strays : Reads (control (fun _ _ => pure ()) rest .endFunction) :=
        .of_maintains fun _ => .bind .get fun _ => .throw _
      exact (strays.atomicAt machine).bind fun _ _ _ => ⟨_, _, rfl⟩
  | call => exact reads_functionId.bind_atomicAt fun _ _ => popped.bind fun _ _ _ => ⟨_, _, rfl⟩
  | loopCall =>
      refine (reads_onStack (OperandStack.reads_require 2)).bind_atomicAt fun _ _ => ?_
      refine reads_functionId.bind_atomicAt fun _ _ => ?_
      refine (reads_onStack (OperandStack.reads_peek 1)).bind_atomicAt fun _ _ => ?_
      exact (atomicAt_onStack OperandStack.refuses_popTwo machine).bind fun _ _ _ => ⟨_, _, rfl⟩
  | beginIf => exact absurd rfl other
  | beginElse =>
      intro failure after fails
      rw [carryOut_beginElse] at fails
      split at fails
      · cases fails
      · cases fails
        rfl
  | endIf => exact SucceedsAt.atomicAt ⟨_, _, rfl⟩

theorem carryOut_beginIf_fails
    (fails : carryOut rest (.control .beginIf) machine = .error failure after) :
    SameDefinitions machine after ∧
      (after.memory = machine.memory ∨
        failure.cause = .unbalancedConditional ∧ LosesCondition rest machine after) := by
  cases held : machine.memory.stack.values with
  | nil =>
      have empty : onStack OperandStack.pop machine =
          .error { cause := .stackUnderflow 1 0 } machine := by
        rw [onStack, onMemory, Memory.onStack, OperandStack.pop, held]
      have refused : control (fun _ _ => pure ()) rest .beginIf machine =
          .error { cause := .stackUnderflow 1 0 } machine :=
        bind_apply_of_error empty
      cases (bind_apply_of_error refused).symm.trans fails
      exact ⟨⟨rfl, rfl⟩, .inl rfl⟩
  | cons condition below =>
      rw [carryOut_beginIf held] at fails
      by_cases zero : condition.raw = 0
      · rw [if_pos zero] at fails
        cases missing : distanceToMarker? true 0 rest with
        | some distance =>
            rw [missing] at fails
            cases fails
        | none =>
            rw [missing] at fails
            cases fails
            exact ⟨⟨rfl, rfl⟩, .inr ⟨rfl, missing, condition, below, held, zero, rfl⟩⟩
      · rw [if_neg zero] at fails
        cases fails

theorem carryOut_atomic {operation : ControlOperation}
    (fails : carryOut rest (.control operation) machine = .error failure after) :
    SameDefinitions machine after ∧
      (after.memory = machine.memory ∨
        operation = .beginIf ∧ failure.cause = .unbalancedConditional ∧
          LosesCondition rest machine after) := by
  by_cases conditional : operation = .beginIf
  · subst conditional
    rcases carryOut_beginIf_fails fails with ⟨same, kept | lost⟩
    · exact ⟨same, .inl kept⟩
    · exact ⟨same, .inr ⟨rfl, lost⟩⟩
  · cases atomicAt_carryOut conditional rest machine failure after fails
    exact ⟨⟨rfl, rfl⟩, .inl rfl⟩

/-- A control instruction that fails by itself leaves memory, the functions and the open definition
as they were. Only an IF whose branch has no end loses its condition. A call fails by itself when
its operands do not ask for an invocation. -/
theorem step_atomic (call : UInt32 → Nat → MachineAction Unit) (index : Nat) (rest : Program)
    {operation : ControlOperation} (closed : machine.capture = none)
    (refused : ∀ invocation below,
      ¬Invokes (.control operation) machine.memory.stack.values invocation below)
    (fails : step call index (.control operation) rest machine = .error failure after) :
    SameDefinitions machine after ∧
      (after.memory = machine.memory ∨
        operation = .beginIf ∧ failure.cause = .unbalancedConditional ∧
          LosesCondition rest machine after) := by
  rw [step_eq, bind_apply] at fails
  cases ticked : tick machine with
  -- Beyond the budget the instruction is not attempted.
  | error exceeded counted =>
      have fetched : fetch index (.control operation) rest machine = .error exceeded counted :=
        bind_apply_of_error ticked
      have same := sameControl_tick machine
      have memory := memory_tick machine
      rw [ticked] at same memory
      rw [fetched] at fails
      cases fails
      exact ⟨⟨same.functions, same.capture⟩, .inl memory⟩
  | ok _ counted =>
      rw [fetch_of_closed closed (affordsStep_of_tick ticked)] at fails
      cases carried : carryOut rest (.control operation)
          (machine.fetched index (.control operation)) with
      | ok effect left =>
          rw [within_apply_of_ok _ carried] at fails
          cases effect with
          | goOn pass => cases fails
          | call invocation =>
              rcases invokes_of_carryOut carried with ⟨below, invokes⟩
              exact absurd invokes (refused invocation below)
      | error raised left =>
          rw [within_apply_of_error _ carried] at fails
          cases fails
          rcases carryOut_atomic carried with ⟨same, left⟩
          refine ⟨⟨same.functions, same.capture⟩, left.imp_right ?_⟩
          rintro ⟨conditional, cause, loses⟩
          exact ⟨conditional, cause, loses.missing, loses.popped⟩

/-- The operands of a loop stay where they are when there is no function with their id. -/
theorem step_atomic_loopCall :
    let call : UInt32 → Nat → MachineAction Unit := fun _ _ => pure ()
    let machine : Machine := { new {} with memory := { stack := ⟨[.int (-1), .int 2], 8⟩ } }
    ∃ after, step call 0 (.control .loopCall) [] machine =
        .error ⟨[.instruction "LOOPCALL" 0], .invalidIndex .function (-1)⟩ after ∧
      SameDefinitions machine after ∧ after.memory = machine.memory := by
  intro call machine
  have closed : machine.capture = none := rfl
  have refused : ∀ invocation below,
      ¬Invokes (.control .loopCall) machine.memory.stack.values invocation below := by
    intro invocation below invokes
    generalize held : machine.memory.stack.values = values at invokes
    cases invokes with
    | loopCall index positive =>
        cases held
        cases index
  rcases step_atomic call 0 [] closed refused rfl with ⟨same, memory | lost⟩
  · exact ⟨_, rfl, same, memory⟩
  · cases lost.1

/-- An IF that is not taken, at the end of its program. -/
theorem step_beginIf_loses :
    let call : UInt32 → Nat → MachineAction Unit := fun _ _ => pure ()
    let machine := (new {}).afterCall (.onStack (.push (.int 0)))
    machine.capture = none ∧ machine.memory.stack.values = [.int 0] ∧
      ∃ after, step call 0 (.control .beginIf) [] machine =
          .error ⟨[.instruction "IF" 0], .unbalancedConditional⟩ after ∧
        after.memory.stack.values = [] :=
  ⟨rfl, rfl, _, rfl, rfl⟩

end

end Hinting.Machine
