import Hinting.Bytecode.Decode
import Hinting.Execution.Arithmetic
import Hinting.Execution.StackOperation
import Hinting.Execution.StorageOperation
import Hinting.Machine.Basic
import Hinting.Machine.Conditional

/-!
How a machine runs programs.

Programs nest: a call runs a function body, and a call of an unknown function
runs the font program first. Running is defined one level at a time over a way
to run the programs below, and the levels are then put on top of each other.
-/

namespace Hinting.Machine

/-! ## Recording -/

/-- End the open definition. An id that has a body keeps it. -/
def endFunction (capture : Capture) : MachineAction Unit := do
  let machine ← get
  if machine.functions.contains capture.id then
    set { machine with capture := none }
    emit (.alreadyDefined capture.id)
  else
    set { machine with
      capture := none
      functions := machine.functions.define capture.id capture.recorded.reverse }
    emit (.defined capture.id capture.recorded.length)

/-- Take an instruction into the open definition. Definitions do not nest. -/
def record (capture : Capture) (instruction : Instruction) : MachineAction Unit :=
  match instruction with
  | .control .endFunction => endFunction capture
  | .control .beginFunction =>
      fault (.illegalStateTransition .fdef (.capturing capture.id))
  | instruction =>
      modify fun machine =>
        { machine with
          capture := some { capture with recorded := instruction :: capture.recorded } }

/-! ## One instruction -/

def functionId : MachineAction UInt32 := do
  let top ← onStack (OperandStack.peek 0)
  onMemory (ofExcept (top.toIndex .function))

def skipBranch (stopAtElse : Bool) (rest : Program) : MachineAction Nat :=
  match distanceToMarker? stopAtElse 0 rest with
  | some distance => pure distance
  | none => fault .unbalancedConditional

/-- Carry out a control instruction that `rest` follows. The result is the number
of instructions of `rest` to pass over. -/
def control (call : UInt32 → Nat → MachineAction Unit) (rest : Program) :
    ControlOperation → MachineAction Nat
  | .beginFunction => do
      let id ← functionId
      let _ ← onStack OperandStack.pop
      modify fun machine => { machine with capture := some { id } }
      return 0
  | .endFunction => do fault (.illegalStateTransition .endf (← get).mode)
  | .call => do
      let id ← functionId
      let _ ← onStack OperandStack.pop
      call id 1
      return 0
  | .loopCall => do
      onStack (OperandStack.require 2)
      let id ← functionId
      let count := (← onStack (OperandStack.peek 1)).integerPart
      let _ ← onStack OperandStack.popTwo
      if 0 < count then call id count.toInt.toNat
      return 0
  | .beginIf => do
      let condition ← onStack OperandStack.pop
      if condition.isTrue then return 0 else skipBranch true rest
  /- An ELSE is only met at the end of a taken branch. -/
  | .beginElse => skipBranch false rest
  | .endIf => return 0

def execute (call : UInt32 → Nat → MachineAction Unit) (rest : Program) :
    Instruction → MachineAction Nat
  | .push push => do
      onStack (OperandStack.pushAll (push.literals.map Value.ofInt32))
      return 0
  | .stack operation => do onStack operation.apply; return 0
  | .unary operation => do onStack operation.apply; return 0
  | .binary operation => do onStack operation.apply; return 0
  | .storage operation => do onMemory operation.apply; return 0
  | .control operation => control call rest operation

/-! ## One program -/

/-- Fetch an instruction: record it during a definition and carry it out
otherwise. The result is the number of instructions of `rest` to pass over. -/
def step (call : UInt32 → Nat → MachineAction Unit) (index : Nat)
    (instruction : Instruction) (rest : Program) : MachineAction Nat := do
  tick
  let machine ← get
  match machine.capture with
  | some capture => do
      record capture instruction
      return 0
  | none => do
      emit (.executing index instruction machine.memory.stack.size)
      within (.instruction instruction.mnemonic index) (execute call rest instruction)

/-- Run a program from the instruction with number `index` after passing over
`pass` instructions. -/
def runFrom (call : UInt32 → Nat → MachineAction Unit) :
    (index pass : Nat) → Program → MachineAction Unit
  | _, _, [] => pure ()
  | index, pass + 1, _ :: rest => runFrom call (index + 1) pass rest
  | index, 0, instruction :: rest => do
      let pass ← step call index instruction rest
      runFrom call (index + 1) pass rest

/-! ## Programs below -/

/-- Run a program that must not end inside a definition. An open definition is
dropped, however the run ends. -/
def runWhole (run : Program → MachineAction Unit) (program : Program) :
    MachineAction Unit := fun machine =>
  match run program machine with
  | .ok _ machine =>
      match machine.capture with
      | some capture =>
          .error { cause := .unterminatedFunction capture.id } { machine with capture := none }
      | none => .ok () machine
  | .error failure machine => .error failure { machine with capture := none }

def decodeTable (context : Context) (bytes : List UInt8) : MachineAction Program :=
  match decode bytes with
  | .ok program => pure program
  | .error malformation => within context (fault (.malformedProgram malformation))

/-- The font program, if there is one. It is decoded once and then kept. -/
def decodeFontProgram : MachineAction (Option Program) := do
  let machine ← get
  match machine.decodedFontProgram with
  | some program => return some program
  | none =>
      match machine.font.bind FontTables.fontProgram with
      | none => return none
      | some bytes => do
          let program ← decodeTable .fontProgramDecoding bytes
          modify fun machine => { machine with decodedFontProgram := some program }
          return some program

/-- Run the font program, if there is one. All its definitions are kept. -/
def runFontProgram (run : Program → MachineAction Unit) : MachineAction Unit := do
  match ← decodeFontProgram with
  | none => pure ()
  | some program => do
      emit (.runningFontProgram program.length)
      modify fun machine => { machine with fontProgramLoaded := true, inFontProgram := true }
      within .fontProgram <|
        ensuring (runWhole run program) fun machine => { machine with inFontProgram := false }
      emit (.fontProgramDone (← get).functions.size)

/-- The body of a function. A function that is not defined may be defined by the
font program, unless it is the font program that asks. -/
def resolve (run : Program → MachineAction Unit) (id : UInt32) : MachineAction Program := do
  let machine ← get
  match machine.functions.get? id with
  | some body => return body
  | none => do
      unless machine.inFontProgram do
        emit (.resolving id)
        runFontProgram run
      match (← get).functions.get? id with
      | some body => return body
      | none => fault (.unresolvedFunction id)

/-- Enter a function body `count` times. Each entry is a step. -/
def repeatBody (run : Program → MachineAction Unit) (body : Program) :
    (count : Nat) → MachineAction Unit
  | 0 => pure ()
  | count + 1 => do
      tick
      run body
      repeatBody run body count

def callFunction (run : Program → MachineAction Unit) (id : UInt32) (count : Nat) :
    MachineAction Unit := do
  let body ← resolve run id
  let machine ← get
  if machine.limits.maxCallDepth ≤ machine.callDepth then
    fault (.callDepthExceeded machine.limits.maxCallDepth)
  set { machine with callDepth := machine.callDepth + 1 }
  within (.function id) <|
    ensuring (repeatBody run body count) fun machine =>
      { machine with callDepth := machine.callDepth - 1 }

/-! ## All levels -/

def runAbove (run : Program → MachineAction Unit) (program : Program) :
    MachineAction Unit :=
  runFrom (callFunction run) 0 0 program

/-- Run a program with room for `levels` nested programs. -/
def runNested : (levels : Nat) → Program → MachineAction Unit
  | 0, _ => do fault (.callDepthExceeded (← get).limits.maxCallDepth)
  | levels + 1, program => runAbove (runNested levels) program

/-- How many programs can be active at once: an outermost one, a font program
and as many function bodies as the call depth limit admits. -/
def nestingLevels (machine : Machine) : Nat :=
  machine.limits.maxCallDepth + 2

/-- Run a program on a machine at rest. -/
def run (program : Program) : MachineAction Unit := do
  runNested (← get).nestingLevels program

end Hinting.Machine
