import Hinting.Proofs.Memory.Registers
import Mathlib.Data.List.Induction

/-!
What registers hold after a sequence of steps.

A step writes to one register or to none, and this can be told from the step and the stack that it
finds. A register holds what the latest step that wrote to it has left.
-/

namespace Hinting

/-- What may be done to registers, by an instruction or from outside, and to the stack in between. -/
inductive RegisterStep
  | instruction (operation : StorageOperation)
  | writeStorage (location : UInt64) (value : Value)
  | setControlValue (index : UInt32) (value : Value)
  | stackCall (call : StackCall)

def RegisterStep.perform : RegisterStep → MemoryAction Unit
  | instruction operation => operation.apply
  | writeStorage location value => Memory.writeStorage location value
  | setControlValue index value => Memory.setControlValue index value
  | stackCall call => do let _ ← Memory.onStack call.perform

namespace Memory

def afterStep (memory : Memory) (step : RegisterStep) : Memory :=
  stateAfter (step.perform memory)

def afterSteps (memory : Memory) (steps : List RegisterStep) : Memory :=
  steps.foldl afterStep memory

/-! ## One step -/

/-- The step writes this value to this register. An instruction finds the value on top of the stack
and the register named below it. -/
inductive Writes (memory : Memory) : RegisterStep → Register → Value → Prop
  | ws {value operand : Value} {below : List Value} {location : UInt64}
      (held : memory.stack.values = value :: operand :: below)
      (named : operand.integerPart.toInt = location.toNat) :
      Writes memory (.instruction .ws) (.location location) value
  | wcvtp {value operand : Value} {below : List Value} {index : UInt32}
      (held : memory.stack.values = value :: operand :: below)
      (named : operand.integerPart.toInt = index.toNat)
      (inside : index.toNat < memory.controlValues.size) :
      Writes memory (.instruction .wcvtp) (.controlValue index) value
  | wcvtf {value operand : Value} {below : List Value} {index : UInt32}
      (held : memory.stack.values = value :: operand :: below)
      (named : operand.integerPart.toInt = index.toNat)
      (inside : index.toNat < memory.controlValues.size) :
      Writes memory (.instruction .wcvtf) (.controlValue index) (.int value.integerPart)
  | writeStorage (location : UInt64) (value : Value) :
      Writes memory (.writeStorage location value) (.location location) value
  | setControlValue {index : UInt32} (inside : index.toNat < memory.controlValues.size)
      (value : Value) : Writes memory (.setControlValue index value) (.controlValue index) value

variable {memory : Memory} {step : RegisterStep} {register : Register} {value : Value}

theorem Writes.performs (writes : Writes memory step register value) :
    ∃ after, step.perform memory = .ok () after ∧ Stored memory register value after := by
  cases writes with
  | ws held named =>
      exact ⟨_, StorageOperation.ws_of_location held named, stored_write _ memory _ value⟩
  | wcvtp held named inside =>
      exact ⟨_, StorageOperation.writeControlValue_of_index id held named inside,
        stored_set _ memory inside value⟩
  | wcvtf held named inside =>
      exact ⟨_, StorageOperation.writeControlValue_of_index _ held named inside,
        stored_set _ memory inside _⟩
  | writeStorage location => exact ⟨_, rfl, stored_write memory.stack memory location value⟩
  | setControlValue inside =>
      refine ⟨_, ?_, stored_set memory.stack memory inside value⟩
      change Memory.setControlValue _ value memory = _
      rw [setControlValue_apply, ControlValues.set_of_lt inside]

theorem Writes.afterStep (writes : Writes memory step register value) :
    step.perform memory = .ok () (memory.afterStep step) ∧
      Stored memory register value (memory.afterStep step) := by
  rcases writes.performs with ⟨after, performs, stored⟩
  have same : memory.afterStep step = after := congrArg stateAfter performs
  exact ⟨same ▸ performs, same ▸ stored⟩

theorem Writes.unique {other : Register} {otherValue : Value}
    (writes : Writes memory step register value) (also : Writes memory step other otherValue) :
    register = other ∧ value = otherValue := by
  cases writes with
  | ws held named =>
      cases also with
      | ws alsoHeld alsoNamed =>
          cases held.symm.trans alsoHeld
          rw [UInt64.toNat_inj.mp (Int.ofNat_inj.mp (named.symm.trans alsoNamed))]
          exact ⟨rfl, rfl⟩
  | wcvtp held named =>
      cases also with
      | wcvtp alsoHeld alsoNamed =>
          cases held.symm.trans alsoHeld
          rw [UInt32.toNat_inj.mp (Int.ofNat_inj.mp (named.symm.trans alsoNamed))]
          exact ⟨rfl, rfl⟩
  | wcvtf held named =>
      cases also with
      | wcvtf alsoHeld alsoNamed =>
          cases held.symm.trans alsoHeld
          rw [UInt32.toNat_inj.mp (Int.ofNat_inj.mp (named.symm.trans alsoNamed))]
          exact ⟨rfl, rfl⟩
  | writeStorage location value =>
      cases also with
      | writeStorage => exact ⟨rfl, rfl⟩
  | setControlValue inside value =>
      cases also with
      | setControlValue => exact ⟨rfl, rfl⟩

def SameRegisters (before after : Memory) : Prop :=
  after.storage = before.storage ∧ after.controlValues = before.controlValues

theorem SameRegisters.of_error {failure : Fault}
    (fails : step.perform memory = .error failure memory) :
    SameRegisters memory (memory.afterStep step) := by
  rw [afterStep, fails]
  exact ⟨rfl, rfl⟩

theorem SameRegisters.of_maintains
    (maintains : Maintains (SameRegisters memory) step.perform) :
    SameRegisters memory (memory.afterStep step) :=
  maintains memory ⟨rfl, rfl⟩

theorem sameRegisters_onStack (action : StackAction α) :
    Maintains (SameRegisters memory) (onStack action) :=
  @maintains_beside
    (fun storage table => storage = memory.storage ∧ table = memory.controlValues) _ action

theorem writes_or_same (memory : Memory) (step : RegisterStep) :
    (∃ register value, Writes memory step register value) ∨
      SameRegisters memory (memory.afterStep step) := by
  cases step with
  | writeStorage location value => exact .inl ⟨_, _, .writeStorage location value⟩
  | setControlValue index value =>
      by_cases inside : index.toNat < memory.controlValues.size
      · exact .inl ⟨_, _, .setControlValue inside value⟩
      · exact .inr (.of_error (setControlValue_of_le (Nat.le_of_not_lt inside) value))
  | stackCall call =>
      exact .inr (.of_maintains ((sameRegisters_onStack _).bind fun _ => .pure _))
  | instruction operation =>
      cases operation with
      | ws =>
          rcases StorageOperation.ws_cases memory with ⟨failure, fails⟩ |
            ⟨value, operand, below, location, held, named⟩
          · exact .inr (.of_error fails)
          · exact .inl ⟨_, _, .ws held named⟩
      | wcvtp =>
          rcases StorageOperation.writeControlValue_cases id memory with ⟨failure, fails⟩ |
            ⟨value, operand, below, index, held, named, inside⟩
          · exact .inr (.of_error fails)
          · exact .inl ⟨_, _, .wcvtp held named inside⟩
      | wcvtf =>
          rcases StorageOperation.writeControlValue_cases
              (fun value => .int value.integerPart) memory with ⟨failure, fails⟩ |
            ⟨value, operand, below, index, held, named, inside⟩
          · exact .inr (.of_error fails)
          · exact .inl ⟨_, _, .wcvtf held named inside⟩
      | rs =>
          exact .inr (.of_maintains ((sameRegisters_onStack _).bind fun _ =>
            (Maintains.ofExcept _).bind fun _ => (maintains_readStorage _).bind fun _ =>
              sameRegisters_onStack _))
      | rcvt =>
          exact .inr (.of_maintains ((sameRegisters_onStack _).bind fun _ =>
            (Maintains.ofExcept _).bind fun _ => (maintains_getControlValue _).bind fun _ =>
              sameRegisters_onStack _))

theorem SameRegisters.register? {after : Memory} (same : SameRegisters memory after) :
    after.register? register = memory.register? register := by
  cases register with
  | location number => rw [Memory.register?, Memory.register?, same.1]
  | controlValue index => rw [Memory.register?, Memory.register?, same.2]

theorem register?_afterStep (untouched : ∀ value, ¬Writes memory step register value) :
    (memory.afterStep step).register? register = memory.register? register := by
  rcases memory.writes_or_same step with ⟨written, value, writes⟩ | same
  · refine writes.afterStep.2.other register fun same => untouched value ?_
    rwa [same]
  · exact same.register?

/-! ## Many steps -/

/-- The latest value that the steps have written to the register. -/
inductive LastWritten (start : Memory) (register : Register) : List RegisterStep → Value → Prop
  | now {steps : List RegisterStep} {step : RegisterStep} {value : Value}
      (writes : Writes (start.afterSteps steps) step register value) :
      LastWritten start register (steps ++ [step]) value
  | before {steps : List RegisterStep} {step : RegisterStep} {value : Value}
      (written : LastWritten start register steps value)
      (untouched : ∀ other, ¬Writes (start.afterSteps steps) step register other) :
      LastWritten start register (steps ++ [step]) value

theorem afterSteps_concat (start : Memory) (steps : List RegisterStep) (step : RegisterStep) :
    start.afterSteps (steps ++ [step]) = (start.afterSteps steps).afterStep step := by
  rw [afterSteps, List.foldl_append]
  rfl

variable {start : Memory} {steps : List RegisterStep}

theorem Maintained.afterSteps {invariant : Memory → Prop} (maintained : Maintained invariant)
    (holds : invariant start) (steps : List RegisterStep) : invariant (start.afterSteps steps) := by
  have performs : ∀ step : RegisterStep, Maintains invariant step.perform := by
    intro step
    cases step with
    | instruction operation => exact @Maintained.instruction _ maintained (.storage operation) _ rfl
    | writeStorage location value => exact maintained.writeStorage location value
    | setControlValue index value => exact maintained.setControlValue index value
    | stackCall call => exact (maintained.stackCall call).bind fun _ => .pure _
  induction steps using List.reverseRec with
  | nil => exact holds
  | append_singleton steps step induction =>
      rw [afterSteps_concat]
      exact performs step _ induction

theorem maintained_afterSteps (start : Memory) :
    Maintained fun memory => ∃ steps, memory = start.afterSteps steps := by
  have step : ∀ step : RegisterStep,
      Maintains (fun memory => ∃ steps, memory = start.afterSteps steps) step.perform := by
    rintro step memory ⟨steps, rfl⟩
    exact ⟨steps ++ [step], (afterSteps_concat start steps step).symm⟩
  have stackCall : ∀ call : StackCall,
      Maintains (fun memory => ∃ steps, memory = start.afterSteps steps) (onStack call.perform) :=
    fun call => (step (.stackCall call)).of_map
  have applies : ∀ (call : StackCall) {action : StackAction Unit},
      call.perform = Reply.nothingAfter action →
        Maintains (fun memory => ∃ steps, memory = start.afterSteps steps) (onStack action) := by
    intro call action performs
    have performed := stackCall call
    rw [performs, Reply.nothingAfter, onStack_map action fun _ => Reply.nothing] at performed
    exact performed.of_map
  refine ⟨?_, stackCall, fun _ _ => step (.writeStorage _ _), fun _ _ => step (.setControlValue _ _)⟩
  intro instruction action acts
  cases instruction with
  | push constants =>
      cases acts
      exact applies (.pushAll _) rfl
  | stack operation =>
      cases acts
      exact applies (.stackOperation operation) rfl
  | unary operation =>
      cases acts
      exact applies (.unaryOperation operation) rfl
  | binary operation =>
      cases acts
      exact applies (.binaryOperation operation) rfl
  | storage operation =>
      cases acts
      exact step (.instruction operation)
  | control operation => cases acts

theorem not_lastWritten_nil : ¬LastWritten start register [] value := by
  intro written
  generalize empty : ([] : List RegisterStep) = steps at written
  cases written with
  | now | before => exact List.append_ne_nil_of_right_ne_nil _ (List.cons_ne_nil _ _) empty.symm

theorem lastWritten_concat :
    LastWritten start register (steps ++ [step]) value ↔
      Writes (start.afterSteps steps) step register value ∨
        LastWritten start register steps value ∧
          ∀ other, ¬Writes (start.afterSteps steps) step register other := by
  refine ⟨fun written => ?_, ?_⟩
  · generalize all : steps ++ [step] = whole at written
    cases written with
    | now writes =>
        rcases List.append_inj' all rfl with ⟨rfl, same⟩
        cases same
        exact .inl writes
    | before written untouched =>
        rcases List.append_inj' all rfl with ⟨rfl, same⟩
        cases same
        exact .inr ⟨written, untouched⟩
  · rintro (writes | ⟨written, untouched⟩)
    · exact .now writes
    · exact .before written untouched

theorem LastWritten.register? (written : LastWritten start register steps value) :
    (start.afterSteps steps).register? register = some value := by
  induction written with
  | now writes =>
      rw [afterSteps_concat]
      exact writes.afterStep.2.same
  | before _ untouched induction => rw [afterSteps_concat, register?_afterStep untouched, induction]

theorem register?_of_unwritten (unwritten : ∀ value, ¬LastWritten start register steps value) :
    (start.afterSteps steps).register? register = start.register? register := by
  induction steps using List.reverseRec with
  | nil => rfl
  | append_singleton steps step induction =>
      have untouched : ∀ value, ¬Writes (start.afterSteps steps) step register value :=
        fun value writes => unwritten value (.now writes)
      rw [afterSteps_concat, register?_afterStep untouched]
      exact induction fun value written => unwritten value (.before written untouched)

end Memory

end Hinting
