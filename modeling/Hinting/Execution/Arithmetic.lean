import Hinting.Fixed
import Hinting.Instruction
import Hinting.OperandStack

/-!
What arithmetic, comparison and logic do to values, and to the stack.

Whole-number results wrap around; fixed-point products and quotients stop at the
bounds.
-/

namespace Hinting

/-! ## One operand -/

namespace UnaryOperation

def onValue (operation : UnaryOperation) (value : Value) : Value :=
  match operation, value with
  | not, value => .ofBool (!value.isTrue)
  | abs, value => value.withRaw value.raw.abs
  | neg, value => value.withRaw (-value.raw)
  | floor, .fixed bits => .fixed (Fixed.floor bits)
  | ceiling, .fixed bits => .fixed (Fixed.ceiling bits)
  | floor, .int number | ceiling, .int number => .int number

def apply (operation : UnaryOperation) : StackAction Unit := do
  let value ← OperandStack.peek 0
  OperandStack.replaceTop (operation.onValue value)

end UnaryOperation

/-! ## Two operands -/

namespace BinaryOperation

/-- The result for `left`, which was pushed first, and `right`. The divisor of a
division is not zero. -/
def onValues (operation : BinaryOperation) (left right : Value) : Value :=
  let operands := Value.promote left right
  match operation with
  | lt => .ofBool (Value.compare left right).isLT
  | lteq => .ofBool (Value.compare left right).isLE
  | gt => .ofBool (Value.compare left right).isGT
  | gteq => .ofBool (Value.compare left right).isGE
  | eq => .ofBool (Value.compare left right).isEq
  | neq => .ofBool (Value.compare left right).isNe
  | and => .ofBool (left.isTrue && right.isTrue)
  | or => .ofBool (left.isTrue || right.isTrue)
  | add => operands.map fun left right => left + right
  | sub => operands.map fun left right => left - right
  | max => operands.map fun left right => if left ≤ right then right else left
  | min => operands.map fun left right => if left ≤ right then left else right
  | mul =>
      match operands with
      | .ints left right => .int (left * right)
      | .fixed left right => .fixed (Fixed.mul left right)
  | div =>
      match operands with
      | .ints left right => .int (left / right)
      | .fixed left right => .fixed (Fixed.div left right)

/-- A division by a stored zero is refused before its operands are taken. -/
def apply (operation : BinaryOperation) : StackAction Unit := do
  OperandStack.require 2
  if operation = div && !(← OperandStack.peek 0).isTrue then
    throw .divisionByZero
  let (left, right) ← OperandStack.popTwo
  OperandStack.push (operation.onValues left right)

example : apply sub ⟨[.fixed 32, .int 2], 8⟩ = .ok () ⟨[.fixed 96], 8⟩ := rfl
example : apply div ⟨[.int 0, .int 2], 8⟩ =
    .error .divisionByZero ⟨[.int 0, .int 2], 8⟩ := rfl

end BinaryOperation

end Hinting
