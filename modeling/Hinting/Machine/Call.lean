import Hinting.Execution.StackCall
import Hinting.Machine.Session

/-!
What may be asked of a machine from outside: the runs of a session, and changes
to its memory between them.
-/

namespace Hinting.Machine

inductive Call
  | executeProgram (program : Program)
  | executeBytes (bytes : List UInt8)
  | prime
  | loadFontProgram
  | onStack (call : StackCall)
  | writeStorage (location : UInt64) (value : Value)
  | setControlValue (index : UInt32) (value : Value)
deriving DecidableEq

def Call.perform : Call → MachineAction Reply
  | executeProgram program => Reply.nothingAfter (Machine.executeProgram program)
  | executeBytes bytes => Reply.nothingAfter (Machine.executeBytes bytes)
  | prime => Reply.nothingAfter Machine.prime
  | loadFontProgram => Reply.nothingAfter Machine.loadFontProgram
  | onStack call => Machine.onStack call.perform
  | writeStorage location value =>
      Reply.nothingAfter (onMemory (Memory.writeStorage location value))
  | setControlValue index value =>
      Reply.nothingAfter (onMemory (Memory.setControlValue index value))

def afterCall (machine : Machine) (call : Call) : Machine :=
  match call.perform machine with
  | .ok _ machine => machine
  | .error _ machine => machine

def afterCalls (machine : Machine) (calls : List Call) : Machine :=
  calls.foldl afterCall machine

end Hinting.Machine
