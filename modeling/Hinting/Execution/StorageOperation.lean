import Hinting.Instruction
import Hinting.Memory

/-!
What the operations on the storage area and the control values do.

Locations and indices are checked before an operand is popped.
-/

namespace Hinting.StorageOperation

open Memory OperandStack

/-- Replace a control value by `convert` of the value on top of the stack. The
index lies below the value. -/
def writeControlValue (convert : Value → Value) : MemoryAction Unit := do
  onStack (require 2)
  let value ← onStack (peek 0)
  let index ← ofExcept ((← onStack (peek 1)).toIndex .controlValue)
  setControlValue index (convert value)
  let _ ← onStack popTwo

def apply : StorageOperation → MemoryAction Unit
  | ws => do
      onStack (require 2)
      let value ← onStack (peek 0)
      let location ← ofExcept (← onStack (peek 1)).toLocation
      let _ ← onStack popTwo
      writeStorage location value
  | rs => do
      let location ← ofExcept (← onStack (peek 0)).toLocation
      let value ← readStorage location
      onStack (replaceTop value)
  | wcvtp => writeControlValue id
  /- A value in font units is a whole number. -/
  | wcvtf => writeControlValue fun value => .int value.integerPart
  | rcvt => do
      let index ← ofExcept ((← onStack (peek 0)).toIndex .controlValue)
      let value ← getControlValue index
      onStack (replaceTop value)

end Hinting.StorageOperation
