import Hinting.Proofs.Memory.Writes
import Hinting.Proofs.Stepping.Calling

/-!
What runs write to registers.

Of all that a step consists of, only the instruction that is carried out changes memory, and of the
instructions only those on storage and control values change registers. So a register holds what the
latest instruction that wrote to it has left.
-/

namespace Hinting.Machine

open Memory (SameRegisters Stored)

/-! ## What changes memory -/

section

variable {memory : Memory} {active : Activation} {callers : List Caller} {machine : Machine}

theorem ignoresNesting_memory : IgnoresNesting fun machine => machine.memory = memory where
  nesting _ _ _ _ same := same
  load _ same := same

theorem memory_fail (purpose : Purpose) (callers : List Caller) (failure : Failure)
    (machine : Machine) :
    (Outcome.machine (fail purpose callers failure machine)).memory = machine.memory := by
  apply holds_fail fun later => later.memory = machine.memory
  · intro purpose later same
    cases purpose with
    | _ => exact same
  · rfl

theorem memory_await (caller : Caller) (outcome : Outcome Activation) :
    (await caller callers outcome).machine.memory = (Outcome.machine outcome).memory := by
  cases outcome with
  | ok entered after => rfl
  | error failure after => exact memory_fail _ _ _ after

theorem memory_proceed (site : Context) (outcome : Outcome Effect) :
    (proceed active callers site outcome).machine.memory = (Outcome.machine outcome).memory := by
  cases outcome with
  | error failure after => exact memory_fail _ _ _ after
  | ok effect after =>
      cases effect with
      | goOn pass => rfl
      | call invocation =>
          rw [proceed, memory_await, ← stateAfter_eq_machine]
          exact ignoresNesting_memory.invoke invocation after rfl

theorem memory_finishBody (id : UInt32) (more : Nat) (body : Program) :
    (finishBody id more body callers machine).machine.memory = machine.memory := by
  cases more with
  | zero =>
      cases callers with
      | nil => rfl
      | cons caller others => rfl
  | succ more =>
      have same := memory_tick machine
      rw [finishBody]
      cases ticked : tick machine with
      | ok result after =>
          rw [ticked] at same
          exact same
      | error failure after =>
          rw [ticked] at same
          exact (memory_fail _ _ _ after).trans same

theorem memory_succeed (purpose : Purpose) :
    (succeed purpose callers machine).machine.memory = machine.memory := by
  unfold succeed
  split
  · rw [memory_await, ← stateAfter_eq_machine]
    exact ignoresNesting_memory.enterDefined _ _ rfl
  · rfl
  · rfl

theorem memory_finish : (finish active callers machine).machine.memory = machine.memory := by
  rw [finish]
  split
  · exact memory_finishBody _ _ _
  · rw [finishWhole]
    split
    · exact memory_fail _ _ _ machine
    · exact memory_succeed _

theorem memory_record (capture : Capture) (instruction : Instruction) :
    Maintains (fun machine => machine.memory = memory) (record capture instruction) := by
  unfold record
  split
  · intro machine same
    rw [endFunction, get_bind_apply]
    split <;> exact same
  · exact .throw _
  · exact .modify fun _ same => same

end

/-! ## Instructions -/

theorem maintains_onMemory {invariant : Memory → Prop} {action : MemoryAction α}
    (maintains : Maintains invariant action) :
    Maintains (fun machine => invariant machine.memory) (onMemory action) := by
  intro machine now
  have after := maintains machine.memory now
  rw [onMemory]
  cases ends : action machine.memory with
  | ok result memory =>
      rw [ends] at after
      exact after
  | error cause memory =>
      rw [ends] at after
      exact after

section

variable {memory : Memory}

theorem sameRegisters_onStack (action : StackAction α) :
    Maintains (fun machine => SameRegisters memory machine.memory) (onStack action) :=
  maintains_onMemory (Memory.sameRegisters_onStack action)

theorem sameRegisters_functionId :
    Maintains (fun machine => SameRegisters memory machine.memory) functionId :=
  (sameRegisters_onStack _).bind fun _ => maintains_onMemory (.ofExcept _)

theorem sameRegisters_skipBranch (stopAtElse : Bool) (rest : Program) :
    Maintains (fun machine => SameRegisters memory machine.memory)
      (skipBranch stopAtElse rest) := by
  rw [skipBranch]
  split
  · exact .pure _
  · exact .throw _

theorem sameRegisters_goOn {action : MachineAction Nat}
    (same : Maintains (fun machine => SameRegisters memory machine.memory) action) :
    Maintains (fun machine => SameRegisters memory machine.memory)
      (do return .goOn (← action) : MachineAction Effect) :=
  same.bind fun _ => .pure _

theorem sameRegisters_control (rest : Program) (operation : ControlOperation) :
    Maintains (fun machine => SameRegisters memory machine.memory)
      (carryOut rest (.control operation)) := by
  have popped : Maintains (fun machine => SameRegisters memory machine.memory)
      (onStack OperandStack.pop) := sameRegisters_onStack _
  cases operation with
  | beginFunction =>
      apply sameRegisters_goOn
      exact sameRegisters_functionId.bind fun _ => popped.bind fun _ =>
        .bind (.modify fun _ same => same) fun _ => .pure _
  | endFunction => exact sameRegisters_goOn (Maintains.get.bind fun _ => .throw _)
  | call => exact sameRegisters_functionId.bind fun _ => popped.bind fun _ => .pure _
  | loopCall =>
      exact (sameRegisters_onStack _).bind fun _ => sameRegisters_functionId.bind fun _ =>
        (sameRegisters_onStack _).bind fun _ => (sameRegisters_onStack _).bind fun _ => .pure _
  | beginIf =>
      apply sameRegisters_goOn
      apply popped.bind
      intro condition
      split
      · exact .pure _
      · exact sameRegisters_skipBranch _ _
  | beginElse => exact sameRegisters_goOn (sameRegisters_skipBranch _ _)
  | endIf => exact sameRegisters_goOn (.pure _)

theorem sameRegisters_carryOut (rest : Program) {instruction : Instruction}
    (other : ∀ operation, instruction ≠ .storage operation) :
    Maintains (fun machine => SameRegisters memory machine.memory)
      (carryOut rest instruction) := by
  cases instruction with
  | control operation => exact sameRegisters_control rest operation
  | storage operation => exact absurd rfl (other operation)
  | _ => exact sameRegisters_goOn ((sameRegisters_onStack _).bind fun _ => .pure _)

end

section

variable {machine : Machine} {index : Nat} {instruction : Instruction} {rest : Program}

theorem memory_carryOut_storage (operation : StorageOperation) :
    (Outcome.machine (carryOut rest (.storage operation) machine)).memory =
      machine.memory.afterStep (.instruction operation) := by
  change (Outcome.machine (((do onMemory operation.apply; return 0 : MachineAction Nat) >>=
    fun pass => pure (Effect.goOn pass)) machine)).memory = _
  rw [bind_apply, bind_apply, onMemory, Memory.afterStep, RegisterStep.perform]
  cases operation.apply machine.memory with
  | ok result memory => rfl
  | error cause memory => rfl

theorem memory_fetch_of_closed (closed : machine.capture = none)
    (affordable : machine.AffordsStep) :
    (Outcome.machine (fetch index instruction rest machine)).memory =
      (Outcome.machine (carryOut rest instruction (machine.fetched index instruction))).memory := by
  rw [fetch_of_closed closed affordable, within]
  cases carryOut rest instruction (machine.fetched index instruction) with
  | ok effect after => rfl
  | error failure after => rfl

theorem memory_fetch_of_idle (idle : ¬(machine.capture = none ∧ machine.AffordsStep)) :
    (Outcome.machine (fetch index instruction rest machine)).memory = machine.memory := by
  by_cases affordable : machine.AffordsStep
  · cases opened : machine.capture with
    | none => exact absurd ⟨opened, affordable⟩ idle
    | some capture =>
        rw [fetch, bind_apply_of_ok (tick_of_affordsStep affordable), attempt, get_bind_apply]
        dsimp only
        rw [opened, ← stateAfter_eq_machine]
        exact ((memory_record capture instruction).bind fun _ => .pure _) _ rfl
  · rcases tick_of_not_affordsStep affordable with ⟨limit, _, exhausted⟩
    rw [fetch, bind_apply_of_error exhausted]
    rfl

end

/-! ## Steps -/

/-- The next instruction is carried out, and it writes this value to this register. -/
inductive Progress.Writes (register : Register) (value : Value) : Progress → Prop
  | instruction {active : Activation} {callers : List Caller} {machine : Machine}
      {operation : StorageOperation}
      (found : active.program[active.index]? = some (.storage operation))
      (closed : machine.capture = none) (affordable : machine.AffordsStep)
      (writes : machine.memory.Writes (.instruction operation) register value) :
      Writes register value (.running active callers machine)

section

variable {register : Register} {value : Value} {state first last : Progress}
  {outcome : Outcome Unit}

theorem memory_next_of_found {active : Activation} {callers : List Caller} {machine : Machine}
    {instruction : Instruction} (found : active.program[active.index]? = some instruction) :
    (Progress.running active callers machine).next.machine.memory =
      (Outcome.machine (fetch active.index instruction
        (active.program.drop (active.index + 1)) machine)).memory := by
  rw [Progress.next, advance, found]
  exact memory_proceed _ _

theorem memory_next_of_none {active : Activation} {callers : List Caller} {machine : Machine}
    (atEnd : active.program[active.index]? = none) :
    (Progress.running active callers machine).next.machine.memory = machine.memory := by
  rw [Progress.next, advance, atEnd]
  exact memory_finish

theorem Progress.Writes.stored (writes : state.Writes register value) :
    Stored state.machine.memory register value state.next.machine.memory := by
  cases writes with
  | instruction found closed affordable writes =>
      rw [memory_next_of_found found, memory_fetch_of_closed closed affordable,
        memory_carryOut_storage]
      exact writes.afterStep.2

theorem Progress.register?_next (untouched : ∀ value, ¬state.Writes register value) :
    state.next.machine.memory.register? register = state.machine.memory.register? register := by
  cases state with
  | ended outcome => rfl
  | running active callers machine =>
      cases found : active.program[active.index]? with
      | none =>
          rw [memory_next_of_none found]
          rfl
      | some instruction =>
          rw [memory_next_of_found found]
          by_cases carried : machine.capture = none ∧ machine.AffordsStep
          · rw [memory_fetch_of_closed carried.1 carried.2]
            by_cases stores : ∃ operation, instruction = .storage operation
            · rcases stores with ⟨operation, rfl⟩
              rw [memory_carryOut_storage]
              exact Memory.register?_afterStep fun value writes =>
                untouched value (.instruction found carried.1 carried.2 writes)
            · rw [← stateAfter_eq_machine]
              exact (sameRegisters_carryOut _ (not_exists.mp stores) (machine.fetched _ _)
                ⟨rfl, rfl⟩).register?
          · rw [memory_fetch_of_idle carried]
            rfl

/-! ## Runs -/

/-- The run comes to a step that writes this value to the register, and to none behind it that
writes to the register again. -/
def Progress.LastWrites (register : Register) (value : Value) (first : Progress) : Prop :=
  ∃ state, Reaches first state ∧ state.Writes register value ∧
    ∀ later, Reaches state.next later → ∀ other, ¬later.Writes register other

theorem Reaches.eq_or_next (reaches : Reaches first last) :
    last = first ∨ Reaches first.next last := by
  rcases Relation.ReflTransGen.cases_head reaches with same | ⟨_, follows, onward⟩
  · exact .inl same.symm
  · cases follows
    exact .inr onward

theorem register?_of_reaches
    (untouched : ∀ state, Reaches first state → ∀ value, ¬state.Writes register value)
    (reaches : Reaches first last) :
    last.machine.memory.register? register = first.machine.memory.register? register := by
  induction reaches with
  | refl => rfl
  | tail before follows induction =>
      cases follows with
      | advance active callers machine =>
          exact (Progress.register?_next (untouched _ before)).trans induction

theorem Progress.LastWrites.register? (writes : first.LastWrites register value)
    (ends : Reaches first (.ended outcome)) :
    (Outcome.machine outcome).memory.register? register = some value := by
  rcases writes with ⟨state, reaches, writes, untouched⟩
  rcases (reaches.onward ends).eq_or_next with rfl | onward
  · cases writes
  · exact (register?_of_reaches untouched onward).trans writes.stored.same

theorem lastWrites_or_untouched (ends : Reaches first (.ended outcome)) :
    (∃ value, first.LastWrites register value) ∨
      ∀ state, Reaches first state → ∀ value, ¬state.Writes register value := by
  -- From the end of the run backwards, so that the first write that is met is the last one.
  induction ends using Relation.ReflTransGen.head_induction_on with
  | refl =>
      right
      intro state reaches value writes
      rw [reaches.eq_of_ended] at writes
      cases writes
  | head follows _ induction =>
      cases follows with
      | advance active callers machine =>
          rcases induction with ⟨value, state, reaches, last⟩ | untouched
          · exact .inl ⟨value, state, .head (.advance active callers machine) reaches, last⟩
          · by_cases now : ∃ value,
                (Progress.running active callers machine).Writes register value
            · rcases now with ⟨value, writes⟩
              exact .inl ⟨value, _, .refl, writes, untouched⟩
            · right
              intro state reaches
              rcases reaches.eq_or_next with rfl | onward
              · exact not_exists.mp now
              · exact untouched state onward

end

end Hinting.Machine
