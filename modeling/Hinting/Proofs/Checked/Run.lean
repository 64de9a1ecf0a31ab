import Hinting.Proofs.Checked.Bytecode
import Hinting.Proofs.Checked.Instructions
import Hinting.Proofs.Stepping.Progress

/-!
Runs with partial operations.

Steps are counted with 64 bits, the call depth is brought down when a function ends, and branches
are skipped in what a program has from a position on.
-/

namespace Hinting.Checked

def within (context : Context) (action : Checked Failure Machine α) : Checked Failure Machine α :=
  fun machine =>
    match action machine with
    | .ok result machine => .ok result machine
    | .error halt machine => .error (halt.map fun failure => failure.within context) machine

def ensuring (action : Checked ε σ α) (last : Checked ε σ Unit) : Checked ε σ α := fun state =>
  match action state with
  | .ok result after => (do last; return result) after
  | .error (.failure failure) after => (do last; throw (Halt.failure failure)) after
  | .error .undefined after => .error .undefined after

def increment? (number : Nat) : Option Nat :=
  if number + 1 < UInt64.size then some (number + 1) else none

def checkBudget : Checked Failure Machine Unit := do
  let machine ← get
  match machine.limits.maxSteps with
  | some limit =>
      if limit < machine.steps then total (Machine.fault (.stepLimitExceeded limit))
  | none => pure ()

def tick : Checked Failure Machine Unit := do
  let steps ← defined (increment? (← get).steps)
  modify fun machine => { machine with steps }
  checkBudget

/-! ## One instruction -/

section

variable (call : UInt32 → Nat → Checked Failure Machine Unit) (program : Program)

def control (next : Nat) : ControlOperation → Checked Failure Machine Nat
  | .beginFunction => do
      let id ← functionId
      let _ ← total (Machine.onStack OperandStack.pop)
      modify fun machine => { machine with capture := some { id } }
      return 0
  | .endFunction => do
      total (Machine.fault (.illegalStateTransition .endf (← get).mode))
  | .call => do
      let id ← functionId
      let _ ← total (Machine.onStack OperandStack.pop)
      call id 1
      return 0
  | .loopCall => do
      total (Machine.onStack (OperandStack.require 2))
      let id ← functionId
      let count := (← onMemory (onStack (peek 1))).integerPart
      let _ ← total (Machine.onStack OperandStack.popTwo)
      if 0 < count then call id count.toInt.toNat
      return 0
  | .beginIf => do
      let condition ← total (Machine.onStack OperandStack.pop)
      if condition.isTrue then return 0 else skipBranch true program next
  | .beginElse => skipBranch false program next
  | .endIf => return 0

def execute (next : Nat) : Instruction → Checked Failure Machine Nat
  | .push push => do
      total (Machine.onStack (OperandStack.pushAll (push.literals.map Value.ofInt32)))
      return 0
  | .stack operation => do onMemory (onStack (stackOperation operation)); return 0
  | .unary operation => do
      onMemory (onStack (ArithmeticOperation.unary operation).apply)
      return 0
  | .binary operation => do
      onMemory (onStack (ArithmeticOperation.binary operation).apply)
      return 0
  | .storage operation => do onMemory (storageOperation operation); return 0
  | .control operation => control call program next operation

/-! ## One program -/

/-- The program is at the next instruction already when one is carried out. -/
def step (index : Nat) (instruction : Instruction) : Checked Failure Machine Nat := do
  let next := index + 1
  tick
  let machine ← get
  match machine.capture with
  | some capture => do
      total (Machine.record capture instruction)
      return 0
  | none => do
      let place ← defined (subtract? next 1)
      total (Machine.emit (.executing place instruction machine.memory.stack.size))
      within (.instruction instruction.mnemonic place) (execute call program next instruction)

def runFrom : (index pass : Nat) → Program → Checked Failure Machine Unit
  | _, _, [] => pure ()
  | index, pass + 1, _ :: rest => runFrom (index + 1) pass rest
  | index, 0, instruction :: rest => do
      let pass ← step call program index instruction
      runFrom (index + 1) pass rest

end

/-! ## Programs below -/

def endProgram : Checked Failure Machine Unit := do
  let machine ← get
  match machine.capture with
  | some capture => do
      set { machine with capture := none }
      total (Machine.fault (.unterminatedFunction capture.id))
  | none => pure ()

def decodeTable (context : Context) (bytes : List UInt8) : Checked Failure Machine Program := do
  match ← defined (decode? bytes) with
  | .ok program => pure program
  | .error malformation => within context (total (Machine.fault (.malformedProgram malformation)))

def decodeFontProgram : Checked Failure Machine (Option Program) := do
  let machine ← get
  match machine.decodedFontProgram with
  | some program => return some program
  | none =>
      match machine.font.bind FontTables.fontProgram with
      | none => return none
      | some bytes => do
          let program ← decodeTable .fontProgramDecoding bytes
          modify fun machine => { machine with decodedFontProgram := some program }
          return some program

def leaveFunction : Checked Failure Machine Unit := do
  let callDepth ← defined (subtract? (← get).callDepth 1)
  modify fun machine => { machine with callDepth }

section

variable (run : Program → Checked Failure Machine Unit)

def runWhole (program : Program) : Checked Failure Machine Unit := fun machine =>
  match run program machine with
  | .ok _ machine => endProgram machine
  | .error (.failure failure) machine => .error (.failure failure) { machine with capture := none }
  | .error .undefined machine => .error .undefined machine

def runFontProgram : Checked Failure Machine Unit := do
  match ← decodeFontProgram with
  | none => pure ()
  | some program => do
      total (Machine.emit (.runningFontProgram program.length))
      modify fun machine => { machine with fontProgramLoaded := true, inFontProgram := true }
      within .fontProgram <|
        ensuring (runWhole run program) <|
          modify fun machine => { machine with inFontProgram := false }
      total (Machine.emit (.fontProgramDone (← get).functions.size))

def resolve (id : UInt32) : Checked Failure Machine Program := do
  let machine ← get
  match machine.functions.get? id with
  | some body => return body
  | none => do
      unless machine.inFontProgram do
        total (Machine.emit (.resolving id))
        runFontProgram run
      total (Machine.definedBody id)

def repeatBody (body : Program) : (count : Nat) → Checked Failure Machine Unit
  | 0 => pure ()
  | count + 1 => do
      tick
      run body
      repeatBody body count

def callFunction (id : UInt32) (count : Nat) : Checked Failure Machine Unit := do
  let body ← resolve run id
  let machine ← get
  if machine.limits.maxCallDepth ≤ machine.callDepth then
    total (Machine.fault (.callDepthExceeded machine.limits.maxCallDepth))
  set { machine with callDepth := machine.callDepth + 1 }
  within (.function id) (ensuring (repeatBody run body count) leaveFunction)

end

/-! ## All levels -/

def runNested : (levels : Nat) → Program → Checked Failure Machine Unit
  | 0, _ => do total (Machine.fault (.callDepthExceeded (← get).limits.maxCallDepth))
  | levels + 1, program => runFrom (callFunction (runNested levels)) program 0 0 program

def run (program : Program) : Checked Failure Machine Unit := do
  runNested (← get).nestingLevels program

/-! ## Requests -/

def executeProgram (program : Program) : Checked Failure Machine Unit := do
  total Machine.resetSteps
  runWhole run program

def executeBytes (bytes : List UInt8) : Checked Failure Machine Unit := do
  match ← defined (decode? bytes) with
  | .ok program => executeProgram program
  | .error malformation => total (Machine.fault (.malformedProgram malformation))

def prime : Checked Failure Machine Unit := do
  let machine ← get
  if machine.primed then return
  set { machine with primed := true }
  match machine.font with
  | none => pure ()
  | some font =>
      match font.controlValueProgram with
      | none => total (Machine.emit .noControlValueProgram)
      | some bytes => do
          let program ← decodeTable .controlValueProgramDecoding bytes
          total (Machine.emit (.runningControlValueProgram program.length))
          total Machine.resetSteps
          within .controlValueProgram (runWhole run program)

def loadFontProgram : Checked Failure Machine Unit := do
  if (← get).fontProgramLoaded then return
  total Machine.resetSteps
  runFontProgram run

def perform : Machine.Request → Checked Failure Machine Unit
  | .executeProgram program => executeProgram program
  | .executeBytes bytes => executeBytes bytes
  | .prime => prime
  | .loadFontProgram => loadFontProgram

end Hinting.Checked
