import Hinting.Proofs.Machine.Correspondence
import Hinting.Proofs.Stepping.Progress

/-!
From actions to instructions.

A property of actions that lasts when they are put together is known of every instruction once it is
known of the few actions that instructions consist of.
-/

namespace Hinting

/-- The actions on memory that instructions consist of. -/
inductive Instruction.MemoryPart : {α : Type} → MemoryAction α → Prop
  | require (needed : Nat) : MemoryPart (Memory.onStack (OperandStack.require needed))
  | peek (depth : Nat) : MemoryPart (Memory.onStack (OperandStack.peek depth))
  | pop : MemoryPart (Memory.onStack OperandStack.pop)
  | popTwo : MemoryPart (Memory.onStack OperandStack.popTwo)
  | toIndex (value : Value) (kind : IndexKind) : MemoryPart (ofExcept (value.toIndex kind))
  | data {instruction : Instruction} {action : MemoryAction Unit}
      (named : instruction.memoryAction? = some action) : MemoryPart action

namespace Machine

/-- The property lasts when actions are put together, and the parts of instructions have it. -/
structure Compositional (property : ∀ {α : Type}, MachineAction α → Prop) : Prop where
  /-- ENDF is only carried out where there is nothing to end. -/
  strayEnd : property (do fault (.illegalStateTransition .endf (← get).mode) : MachineAction Nat)
  pure : ∀ {α : Type} (result : α), property (pure result : MachineAction α)
  unbalanced : property (fault .unbalancedConditional : MachineAction Nat)
  bind : ∀ {α β : Type} {action : MachineAction α} {next : α → MachineAction β},
    property action → (∀ result, property (next result)) → property (action >>= next)
  onMemory : ∀ {α : Type} {action : MemoryAction α},
    Instruction.MemoryPart action → property (onMemory action)

namespace Compositional

variable {property : ∀ {α : Type}, MachineAction α → Prop}
  (compositional : Compositional property)

include compositional

theorem functionId : property functionId :=
  compositional.bind (compositional.onMemory (.peek 0)) fun _ =>
    compositional.onMemory (.toIndex _ _)

theorem skipBranch (stopAtElse : Bool) (rest : Program) :
    property (skipBranch stopAtElse rest) := by
  rw [Machine.skipBranch]
  split
  · exact compositional.pure _
  · exact compositional.unbalanced

theorem carryOut (rest : Program) (instruction : Instruction)
    (opens : instruction = .control .beginFunction → ∀ id : UInt32,
      property (modify fun machine => { machine with capture := some { id } })) :
    property (carryOut rest instruction) := by
  have popped := compositional.onMemory .pop
  have goesOn : ∀ action : MachineAction Nat, property action →
      property (do return .goOn (← action) : MachineAction Effect) :=
    fun _ holds => compositional.bind holds fun _ => compositional.pure _
  have data : ∀ action, instruction.memoryAction? = some action →
      property (do Machine.onMemory action; return 0 : MachineAction Nat) :=
    fun _ named => compositional.bind (compositional.onMemory (.data named)) fun _ =>
      compositional.pure 0
  cases instruction with
  | control operation =>
      cases operation with
      | beginFunction =>
          refine goesOn _ ?_
          exact compositional.bind compositional.functionId fun id =>
            compositional.bind popped fun _ =>
              compositional.bind (opens rfl id) fun _ => compositional.pure 0
      | endFunction => exact goesOn _ compositional.strayEnd
      | call =>
          exact compositional.bind compositional.functionId fun _ =>
            compositional.bind popped fun _ => compositional.pure _
      | loopCall =>
          exact compositional.bind (compositional.onMemory (.require 2)) fun _ =>
            compositional.bind compositional.functionId fun _ =>
              compositional.bind (compositional.onMemory (.peek 1)) fun _ =>
                compositional.bind (compositional.onMemory .popTwo) fun _ => compositional.pure _
      | beginIf =>
          refine goesOn _ (compositional.bind popped fun condition => ?_)
          split
          · exact compositional.pure 0
          · exact compositional.skipBranch true rest
      | beginElse => exact goesOn _ (compositional.skipBranch false rest)
      | endIf => exact goesOn _ (compositional.pure 0)
  | _ => exact goesOn _ (data _ rfl)

end Compositional

end Machine

end Hinting
