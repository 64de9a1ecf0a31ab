import Hinting.FontTables
import Hinting.FunctionTable
import Hinting.Limits
import Hinting.Machine.Event
import Hinting.Memory

/-!
The state of a hinting machine and the small steps that its runs are made of.

A machine serves one font for one session. Memory and functions are kept from
one run to the next.
-/

namespace Hinting

/-- A function definition that has begun and not ended. -/
structure Capture where
  id : UInt32
  /-- The instructions so far, the latest first. -/
  recorded : List Instruction := []
deriving DecidableEq

structure Machine where
  limits : Limits
  font : Option FontTables
  memory : Memory
  functions : FunctionTable := {}
  capture : Option Capture := none
  /-- The font program as it was decoded, kept for further runs. -/
  decodedFontProgram : Option Program := none
  /-- The font program has been started at least once. -/
  fontProgramLoaded : Bool := false
  inFontProgram : Bool := false
  /-- The control value program has been asked for. -/
  primed : Bool := false
  callDepth : Nat := 0
  /-- The steps of the latest run: instructions fetched and function bodies
  entered. -/
  steps : Nat := 0
  /-- What has been reported, the latest first. -/
  journal : List Event := []
deriving DecidableEq

/-- A computation on a machine. The machine that a failure leaves is part of the
result. -/
abbrev MachineAction := EStateM Failure Machine

namespace Machine

def new (limits : Limits) : Machine where
  limits
  font := none
  memory := { stack := .empty limits.maxStackDepth }

def withFont (limits : Limits) (font : FontTables) : Machine where
  limits
  font := some font
  memory :=
    { stack := .empty limits.maxStackDepth
      controlValues := .ofFontUnits font.controlValues }

def mode (machine : Machine) : Mode :=
  match machine.capture with
  | some capture => .capturing capture.id
  | none => .normal

def isCapturing (machine : Machine) : Bool := machine.capture.isSome

def events (machine : Machine) : List Event := machine.journal.reverse

/-! ## Failures -/

def fault (cause : Fault) : MachineAction α := throw { cause }

def within (context : Context) (action : MachineAction α) : MachineAction α :=
  fun machine =>
    match action machine with
    | .ok result machine => .ok result machine
    | .error failure machine => .error (failure.within context) machine

/-- Change the machine after an action, however the action ends. -/
def ensuring (action : MachineAction α) (restore : Machine → Machine) : MachineAction α :=
  fun machine =>
    match action machine with
    | .ok result machine => .ok result (restore machine)
    | .error failure machine => .error failure (restore machine)

/-! ## Small steps -/

def onMemory (action : MemoryAction α) : MachineAction α := fun machine =>
  match action machine.memory with
  | .ok result memory => .ok result { machine with memory }
  | .error cause memory => .error { cause } { machine with memory }

def onStack (action : StackAction α) : MachineAction α :=
  onMemory (Memory.onStack action)

def emit (event : Event) : MachineAction Unit :=
  modify fun machine => { machine with journal := event :: machine.journal }

/-- Count a step. A step beyond the budget is counted and fails. -/
def tick : MachineAction Unit := do
  modify fun machine => { machine with steps := machine.steps + 1 }
  let machine ← get
  match machine.limits.maxSteps with
  | some limit => if limit < machine.steps then fault (.stepLimitExceeded limit)
  | none => pure ()

end Machine

end Hinting
