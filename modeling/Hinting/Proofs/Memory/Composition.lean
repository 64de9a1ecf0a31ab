import Hinting.Proofs.Machine.Correspondence

/-!
From the small operations on a stack to instructions.

A property of actions that lasts when they are put together is known of every instruction that works
on memory, once it is known of the few actions that these instructions consist of.
-/

namespace Hinting

/-! ## Stacks -/

/-- The property lasts when actions are put together, and the small operations have it. -/
structure OperandStack.Compositional (property : ∀ {α : Type}, StackAction α → Prop) : Prop where
  pure : ∀ {α : Type} (result : α), property (pure result : StackAction α)
  divisionByZero : property (throw .divisionByZero : StackAction Unit)
  bind : ∀ {α β : Type} {action : StackAction α} {next : α → StackAction β},
    property action → (∀ result, property (next result)) → property (action >>= next)
  require : ∀ needed, property (require needed)
  pushAll : ∀ values, property (pushAll values)
  push : ∀ value, property (push value)
  pop : property pop
  popTwo : property popTwo
  peek : ∀ depth, property (peek depth)
  replaceTop : ∀ value, property (replaceTop value)
  removeAt : ∀ depth, property (removeAt depth)
  swap : ∀ left right, property (swap left right)
  elementDepth : property StackOperation.elementDepth

namespace OperandStack.Compositional

variable {property : ∀ {α : Type}, StackAction α → Prop} (compositional : Compositional property)

include compositional

/-- CLEAR and DEPTH are about the stack as a whole, and no small operations. -/
theorem stackOperation (operation : StackOperation)
    (clear : operation = .clear → property OperandStack.clear)
    (depth : operation = .depth → property StackOperation.depth.apply) :
    property operation.apply := by
  cases operation with
  | clear => exact clear rfl
  | depth => exact depth rfl
  | dup => exact compositional.bind (compositional.peek 0) compositional.push
  | pop => exact compositional.bind compositional.pop fun _ => compositional.pure _
  | swap => exact compositional.swap 0 1
  | cindex =>
      exact compositional.bind compositional.elementDepth fun depth =>
        compositional.bind compositional.pop fun _ =>
          compositional.bind (compositional.peek depth) compositional.push
  | mindex =>
      exact compositional.bind compositional.elementDepth fun depth =>
        compositional.bind compositional.pop fun _ =>
          compositional.bind (compositional.removeAt depth) compositional.push
  | roll => exact compositional.bind (compositional.removeAt 2) compositional.push

theorem unaryOperation (operation : UnaryOperation) : property operation.apply :=
  compositional.bind (compositional.peek 0) fun _ => compositional.replaceTop _

theorem binaryOperation (operation : BinaryOperation) : property operation.apply := by
  have calculated := compositional.bind compositional.popTwo fun operands =>
    compositional.push (operation.onValues operands.1 operands.2)
  refine compositional.bind (compositional.require 2) fun _ =>
    compositional.bind (compositional.peek 0) fun divisor => ?_
  split
  · exact compositional.bind compositional.divisionByZero fun _ => calculated
  · exact calculated

end OperandStack.Compositional

/-! ## Memory -/

/-- The property lasts when actions are put together, and the actions that instructions consist of
have it. Those on the stack have it if they have `onStack` there. -/
structure Memory.Compositional (onStack : ∀ {α : Type}, StackAction α → Prop)
    (property : ∀ {α : Type}, MemoryAction α → Prop) : Prop where
  stack : OperandStack.Compositional onStack
  lift : ∀ {α : Type} {action : StackAction α}, onStack action → property (Memory.onStack action)
  pure : ∀ {α : Type} (result : α), property (pure result : MemoryAction α)
  toIndex : ∀ (value : Value) (kind : IndexKind),
    property (MonadExcept.ofExcept (value.toIndex kind) : MemoryAction UInt32)
  toLocation : ∀ value : Value,
    property (MonadExcept.ofExcept value.toLocation : MemoryAction UInt64)
  bind : ∀ {α β : Type} {action : MemoryAction α} {next : α → MemoryAction β},
    property action → (∀ result, property (next result)) → property (action >>= next)
  readStorage : ∀ location, property (readStorage location)
  writeStorage : ∀ location value, property (writeStorage location value)
  getControlValue : ∀ index, property (getControlValue index)
  setControlValue : ∀ index value, property (setControlValue index value)

namespace Memory.Compositional

variable {onStack : ∀ {α : Type}, StackAction α → Prop}
  {property : ∀ {α : Type}, MemoryAction α → Prop} (compositional : Compositional onStack property)

include compositional

theorem require (needed : Nat) : property (Memory.onStack (OperandStack.require needed)) :=
  compositional.lift (compositional.stack.require needed)

theorem peek (depth : Nat) : property (Memory.onStack (OperandStack.peek depth)) :=
  compositional.lift (compositional.stack.peek depth)

theorem popTwo : property (Memory.onStack OperandStack.popTwo) :=
  compositional.lift compositional.stack.popTwo

theorem replaceTop (value : Value) : property (Memory.onStack (OperandStack.replaceTop value)) :=
  compositional.lift (compositional.stack.replaceTop value)

theorem writeControlValue (convert : Value → Value) :
    property (StorageOperation.writeControlValue convert) :=
  compositional.bind (compositional.require 2) fun _ =>
    compositional.bind (compositional.peek 0) fun _ =>
      compositional.bind (compositional.peek 1) fun _ =>
        compositional.bind (compositional.toIndex _ _) fun _ =>
          compositional.bind (compositional.setControlValue _ _) fun _ =>
            compositional.bind compositional.popTwo fun _ => compositional.pure _

theorem storageOperation (operation : StorageOperation) : property operation.apply := by
  cases operation with
  | ws =>
      exact compositional.bind (compositional.require 2) fun _ =>
        compositional.bind (compositional.peek 0) fun _ =>
          compositional.bind (compositional.peek 1) fun _ =>
            compositional.bind (compositional.toLocation _) fun _ =>
              compositional.bind compositional.popTwo fun _ => compositional.writeStorage _ _
  | rs =>
      exact compositional.bind (compositional.peek 0) fun _ =>
        compositional.bind (compositional.toLocation _) fun _ =>
          compositional.bind (compositional.readStorage _) fun _ => compositional.replaceTop _
  | wcvtp => exact compositional.writeControlValue id
  | wcvtf => exact compositional.writeControlValue _
  | rcvt =>
      exact compositional.bind (compositional.peek 0) fun _ =>
        compositional.bind (compositional.toIndex _ _) fun _ =>
          compositional.bind (compositional.getControlValue _) fun _ => compositional.replaceTop _

theorem memoryAction {instruction : Instruction} {action : MemoryAction Unit}
    (acts : instruction.memoryAction? = some action)
    (clear : instruction = .stack .clear → onStack OperandStack.clear)
    (depth : instruction = .stack .depth → onStack StackOperation.depth.apply) :
    property action := by
  cases instruction with
  | push constants =>
      cases acts
      exact compositional.lift (compositional.stack.pushAll _)
  | stack operation =>
      cases acts
      exact compositional.lift (compositional.stack.stackOperation operation
        (fun same => clear (congrArg _ same)) fun same => depth (congrArg _ same))
  | unary operation =>
      cases acts
      exact compositional.lift (compositional.stack.unaryOperation operation)
  | binary operation =>
      cases acts
      exact compositional.lift (compositional.stack.binaryOperation operation)
  | storage operation =>
      cases acts
      exact compositional.storageOperation operation
  | control operation => cases acts

end Memory.Compositional

end Hinting
