import Hinting.Execution.StackCall
import Hinting.Proofs.Memory.Composition

/-!
Invariants of memory.

What the operations that change a stack keep is kept by everything that is done to memory, by
instructions and from outside. The depth that a stack is limited to is such an invariant.
-/

namespace Hinting

/-! ## Stacks -/

/-- The invariant is kept by the operations that change a stack. -/
structure OperandStack.Maintained (invariant : OperandStack → Prop) : Prop where
  push : ∀ value, Maintains invariant (push value)
  pushAll : ∀ values, Maintains invariant (pushAll values)
  pop : Maintains invariant pop
  popTwo : Maintains invariant popTwo
  replaceTop : ∀ value, Maintains invariant (replaceTop value)
  removeAt : ∀ depth, Maintains invariant (removeAt depth)
  swap : ∀ left right, Maintains invariant (swap left right)
  clear : Maintains invariant clear

namespace OperandStack

section

variable {invariant : OperandStack → Prop}

theorem maintains_require (needed : Nat) : Maintains invariant (require needed) := by
  intro stack holds
  rw [require]
  split <;> exact holds

theorem maintains_reserve (extra : Nat) : Maintains invariant (reserve extra) := by
  intro stack holds
  rw [reserve]
  split <;> exact holds

theorem maintains_peek (depth : Nat) : Maintains invariant (peek depth) := by
  intro stack holds
  rw [peek]
  split <;> exact holds

theorem maintains_elementDepth : Maintains invariant StackOperation.elementDepth := by
  refine (maintains_peek 0).bind fun number => Maintains.get.bind fun stack => ?_
  dsimp only
  split
  · exact .throw _
  · split
    · exact .throw _
    · exact .pure _

end

section

variable {invariant : OperandStack → Prop} (maintained : Maintained invariant)

include maintained

theorem Maintained.compositional : Compositional (Maintains invariant) where
  pure := .pure
  divisionByZero := .throw _
  bind := .bind
  require := maintains_require
  pushAll := maintained.pushAll
  push := maintained.push
  pop := maintained.pop
  popTwo := maintained.popTwo
  peek := maintains_peek
  replaceTop := maintained.replaceTop
  removeAt := maintained.removeAt
  swap := maintained.swap
  elementDepth := maintains_elementDepth

theorem Maintained.depth : Maintains invariant StackOperation.depth.apply :=
  Maintains.get.bind fun _ => maintained.push _

theorem Maintained.stackCall (call : StackCall) : Maintains invariant call.perform := by
  have compositional := maintained.compositional
  have nothingAfter : ∀ {action : StackAction Unit}, Maintains invariant action →
      Maintains invariant (Reply.nothingAfter action) :=
    fun maintains => maintains.bind fun _ => .pure _
  cases call with
  | push value => exact nothingAfter (maintained.push value)
  | pushAll values => exact nothingAfter (maintained.pushAll values)
  | pop => exact maintained.pop.bind fun _ => .pure _
  | popTwo => exact maintained.popTwo.bind fun _ => .pure _
  | peek depth => exact (maintains_peek depth).bind fun _ => .pure _
  | replaceTop value => exact nothingAfter (maintained.replaceTop value)
  | removeAt depth => exact (maintained.removeAt depth).bind fun _ => .pure _
  | swap left right => exact nothingAfter (maintained.swap left right)
  | require needed => exact nothingAfter (maintains_require needed)
  | reserve extra => exact nothingAfter (maintains_reserve extra)
  | clear => exact nothingAfter maintained.clear
  | stackOperation operation =>
      exact nothingAfter (compositional.stackOperation operation (fun _ => maintained.clear)
        fun _ => maintained.depth)
  | unaryOperation operation => exact nothingAfter (compositional.unaryOperation operation)
  | binaryOperation operation => exact nothingAfter (compositional.binaryOperation operation)

end

theorem maintained_maxDepth (depth : Nat) :
    Maintained fun stack => stack.maxDepth = depth where
  push _ := (maintains_reserve _).bind fun _ => .modify fun _ same => same
  pushAll _ := (maintains_reserve _).bind fun _ => .modify fun _ same => same
  pop := by
    intro stack same
    rw [pop]
    split <;> exact same
  popTwo := by
    intro stack same
    rw [popTwo]
    split <;> exact same
  replaceTop value := by
    intro stack same
    rw [replaceTop]
    split <;> exact same
  removeAt depth := by
    intro stack same
    rw [removeAt]
    split <;> exact same
  swap left right := by
    intro stack same
    rw [swap]
    split <;> exact same
  clear := .modify fun _ same => same

end OperandStack

/-! ## Memory -/

/-- The invariant is kept by everything that is done to memory. -/
structure Memory.Maintained (invariant : Memory → Prop) : Prop where
  instruction : ∀ {instruction : Instruction} {action : MemoryAction Unit},
    instruction.memoryAction? = some action → Maintains invariant action
  stackCall : ∀ call : StackCall, Maintains invariant (onStack call.perform)
  writeStorage : ∀ location value, Maintains invariant (Memory.writeStorage location value)
  setControlValue : ∀ index value, Maintains invariant (Memory.setControlValue index value)

namespace Memory

theorem onStack_map (action : StackAction α) (change : α → β) :
    onStack (do return change (← action)) = (do return change (← onStack action)) := by
  funext memory
  rw [bind_apply]
  unfold onStack
  rw [bind_apply]
  cases action memory.stack with
  | ok result stack => rfl
  | error fault stack => rfl

/-! ### Instructions that control a run -/

namespace Maintained

variable {invariant : Memory → Prop} (maintained : Maintained invariant)

include maintained

theorem of_stackCall {action : StackAction α} {change : α → Reply} (call : StackCall)
    (performs : call.perform = (do return change (← action))) :
    Maintains invariant (onStack action) := by
  have performed := maintained.stackCall call
  rw [performs, onStack_map] at performed
  exact performed.of_map

theorem require (needed : Nat) : Maintains invariant (onStack (OperandStack.require needed)) :=
  maintained.of_stackCall (.require needed) rfl

theorem peek (depth : Nat) : Maintains invariant (onStack (OperandStack.peek depth)) :=
  maintained.of_stackCall (.peek depth) rfl

theorem pop : Maintains invariant (onStack OperandStack.pop) :=
  maintained.of_stackCall .pop rfl

theorem popTwo : Maintains invariant (onStack OperandStack.popTwo) := by
  have performs : StackCall.popTwo.perform = (do
      let values ← OperandStack.popTwo
      return .two values.1 values.2) := rfl
  exact maintained.of_stackCall .popTwo performs

end Maintained

/-! ### Reading -/

section

variable {invariant : Memory → Prop}

theorem maintains_readStorage (location : UInt64) : Maintains invariant (readStorage location) :=
  Maintains.get.bind fun _ => .ofExcept _

theorem maintains_getControlValue (index : UInt32) : Maintains invariant (getControlValue index) :=
  Maintains.get.bind fun _ => .ofExcept _

end

/-! ### Invariants of the stack -/

section

variable {invariant : OperandStack → Prop}

theorem maintains_onStack {action : StackAction α} (maintains : Maintains invariant action) :
    Maintains (fun memory => invariant memory.stack) (onStack action) := by
  intro memory holds
  have after := maintains memory.stack holds
  rw [onStack]
  cases ends : action memory.stack with
  | ok result stack =>
      rw [ends] at after
      exact after
  | error fault stack =>
      rw [ends] at after
      exact after

theorem maintains_writeStorage (location : UInt64) (value : Value) :
    Maintains (fun memory => invariant memory.stack) (writeStorage location value) :=
  .modify fun _ holds => holds

theorem maintains_setControlValue (index : UInt32) (value : Value) :
    Maintains (fun memory => invariant memory.stack) (setControlValue index value) :=
  Maintains.get.bind fun _ => (Maintains.ofExcept _).bind fun _ => .modify fun _ holds => holds

variable (maintained : OperandStack.Maintained invariant)

include maintained

theorem compositional_maintains :
    Compositional (Maintains invariant) (Maintains fun memory => invariant memory.stack) where
  stack := maintained.compositional
  lift := maintains_onStack
  pure := .pure
  toIndex _ _ := .ofExcept _
  toLocation _ := .ofExcept _
  bind := .bind
  readStorage := maintains_readStorage
  writeStorage := maintains_writeStorage
  getControlValue := maintains_getControlValue
  setControlValue := maintains_setControlValue

theorem maintained_stack : Maintained fun memory => invariant memory.stack where
  instruction acts :=
    (compositional_maintains maintained).memoryAction acts (fun _ => maintained.clear)
      fun _ => maintained.depth
  stackCall call := maintains_onStack (maintained.stackCall call)
  writeStorage location value := maintains_writeStorage location value
  setControlValue index value := maintains_setControlValue index value

end

end Memory

end Hinting
