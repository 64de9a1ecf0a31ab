import Hinting.Machine.Run

/-!
The runs that a session is made of.

Each of them starts at rest and comes back to rest: no definition is open, no
function body is active and the font program is not being run.
-/

namespace Hinting.Machine

def resetSteps : MachineAction Unit :=
  modify fun machine => { machine with steps := 0 }

def executeProgram (program : Program) : MachineAction Unit := do
  resetSteps
  runWhole run program

def executeBytes (bytes : List UInt8) : MachineAction Unit :=
  match decode bytes with
  | .ok program => executeProgram program
  | .error malformation => fault (.malformedProgram malformation)

/-- Run the control value program of the font. Only the first request counts,
whatever comes of it. -/
def prime : MachineAction Unit := do
  let machine ← get
  if machine.primed then return
  set { machine with primed := true }
  match machine.font with
  | none => pure ()
  | some font =>
      match font.controlValueProgram with
      | none => emit .noControlValueProgram
      | some bytes => do
          let program ← decodeTable .controlValueProgramDecoding bytes
          emit (.runningControlValueProgram program.length)
          resetSteps
          within .controlValueProgram (runWhole run program)

def loadFontProgram : MachineAction Unit := do
  if (← get).fontProgramLoaded then return
  resetSteps
  runFontProgram run

end Hinting.Machine
