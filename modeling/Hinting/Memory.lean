import Hinting.ControlValues
import Hinting.OperandStack
import Hinting.Storage

/-!
Everything that instructions without control flow can reach.
-/

namespace Hinting

structure Memory where
  stack : OperandStack
  storage : Storage := {}
  controlValues : ControlValues := {}
deriving DecidableEq

abbrev MemoryAction := EStateM Fault Memory

namespace Memory

def onStack (action : StackAction α) : MemoryAction α := fun memory =>
  match action memory.stack with
  | .ok result stack => .ok result { memory with stack }
  | .error fault stack => .error fault { memory with stack }

def writeStorage (location : UInt64) (value : Value) : MemoryAction Unit :=
  modify fun memory => { memory with storage := memory.storage.write location value }

def readStorage (location : UInt64) : MemoryAction Value := do
  ofExcept ((← get).storage.read location)

def getControlValue (index : UInt32) : MemoryAction Value := do
  ofExcept ((← get).controlValues.get index)

def setControlValue (index : UInt32) (value : Value) : MemoryAction Unit := do
  let controlValues ← ofExcept ((← get).controlValues.set index value)
  modify fun memory => { memory with controlValues }

end Memory

end Hinting
