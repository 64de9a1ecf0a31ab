import Hinting.Instruction
import Hinting.OperandStack

/-!
What the stack operations do.
-/

namespace Hinting.StackOperation

/-- The depth that the element number on top of the stack will name once it is
popped. Numbers count from one and truncate toward zero. A number below one is
an invalid index; one beyond the values below it is an underflow. -/
def elementDepth : StackAction Nat := do
  let number := (← OperandStack.peek 0).integerPart
  let size := (← get).size
  if number < 1 then throw (.invalidIndex .stackDepth number)
  else if size - 1 < number.toInt.toNat then
    throw (.stackUnderflow (number.toInt.toNat + 1) size)
  else return number.toInt.toNat - 1

def apply : StackOperation → StackAction Unit
  | dup => do OperandStack.push (← OperandStack.peek 0)
  | pop => do let _ ← OperandStack.pop
  | clear => OperandStack.clear
  | swap => OperandStack.swap 0 1
  | depth => do OperandStack.push (.int (.ofNat (← get).size))
  | cindex => do
      let depth ← elementDepth
      let _ ← OperandStack.pop
      OperandStack.push (← OperandStack.peek depth)
  | mindex => do
      let depth ← elementDepth
      let _ ← OperandStack.pop
      OperandStack.push (← OperandStack.removeAt depth)
  | roll => do OperandStack.push (← OperandStack.removeAt 2)

/-- The second element counts from the top once the number is gone. -/
example : apply cindex ⟨[.int 2, .int 8, .int 9], 8⟩ =
    .ok () ⟨[.int 9, .int 8, .int 9], 8⟩ := rfl

example : apply mindex ⟨[.int 2, .int 8], 8⟩ =
    .error (.stackUnderflow 3 2) ⟨[.int 2, .int 8], 8⟩ := rfl

end Hinting.StackOperation
