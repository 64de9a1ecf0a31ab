import Hinting.Instruction

/-!
What a machine reports while it works.
-/

namespace Hinting

inductive Event
  | executing (index : Nat) (instruction : Instruction) (depth : Nat)
  /-- A call names a function that is not defined yet. -/
  | resolving (id : UInt32)
  | defined (id : UInt32) (instructions : Nat)
  /-- A definition was dropped because its id has one already. -/
  | alreadyDefined (id : UInt32)
  | runningFontProgram (instructions : Nat)
  | fontProgramDone (functions : Nat)
  | runningControlValueProgram (instructions : Nat)
  | noControlValueProgram
deriving DecidableEq

namespace Event

inductive Level
  | trace
  | debug
  | warn
deriving DecidableEq

inductive Topic
  | execution
  | functions
  | session
deriving DecidableEq

def level : Event → Level
  | executing .. => .trace
  | alreadyDefined _ => .warn
  | _ => .debug

def topic : Event → Topic
  | executing .. => .execution
  | resolving _ | defined .. | alreadyDefined _ => .functions
  | runningFontProgram _ | fontProgramDone _ | runningControlValueProgram _ |
    noControlValueProgram => .session

def message? : Event → Option String
  | executing .. => none
  | resolving _ => some "resolving function from font program"
  | defined .. => some "function defined"
  | alreadyDefined _ => some "function already defined; keeping first definition"
  | runningFontProgram _ => some "running font program"
  | fontProgramDone _ => some "font program done"
  | runningControlValueProgram _ => some "running prep"
  | noControlValueProgram => some "font has no prep program"

def numbers : Event → List (String × Nat)
  | executing index _ depth => [("pc", index), ("depth", depth)]
  | resolving id | alreadyDefined id => [("id", id.toNat)]
  | defined id instructions => [("id", id.toNat), ("instructions", instructions)]
  | runningFontProgram instructions | runningControlValueProgram instructions =>
      [("instructions", instructions)]
  | fontProgramDone functions => [("functions", functions)]
  | noControlValueProgram => []

def instruction? : Event → Option Instruction
  | executing _ instruction _ => some instruction
  | _ => none

end Event

end Hinting
