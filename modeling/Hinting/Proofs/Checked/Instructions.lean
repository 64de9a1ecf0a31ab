import Hinting.Execution.StorageOperation
import Hinting.Machine.Run
import Hinting.Proofs.Checked.Arithmetic

/-!
Instructions with partial operations.

What instructions do to memory is defined on every memory, and so is the look ahead for a marker in
what is left of a program.
-/

namespace Hinting.Checked

/-! ## Parts of a machine -/

def onStack (action : Checked Fault OperandStack α) : Checked Fault Memory α := fun memory =>
  match action memory.stack with
  | .ok result stack => .ok result { memory with stack }
  | .error halt stack => .error halt { memory with stack }

def onMemory (action : Checked Fault Memory α) : Checked Failure Machine α := fun machine =>
  match action machine.memory with
  | .ok result memory => .ok result { machine with memory }
  | .error halt memory => .error (halt.map fun cause => { cause }) { machine with memory }

@[simp] theorem onStack_total (action : StackAction α) :
    onStack (total action) = total (Memory.onStack action) := by
  funext memory
  rw [onStack, total, total, Memory.onStack]
  cases action memory.stack with
  | ok result stack => rfl
  | error fault stack => rfl

@[simp] theorem onMemory_total (action : MemoryAction α) :
    onMemory (total action) = total (Machine.onMemory action) := by
  funext machine
  rw [onMemory, total, total, Machine.onMemory]
  cases action machine.memory with
  | ok result memory => rfl
  | error cause memory => rfl

/-! ## Storage and control values -/

def writeControlValue (convert : Value → Value) : Checked Fault Memory Unit := do
  total (Memory.onStack (OperandStack.require 2))
  let value ← onStack (peek 0)
  let index ← total (ofExcept ((← onStack (peek 1)).toIndex .controlValue))
  total (Memory.setControlValue index (convert value))
  let _ ← total (Memory.onStack OperandStack.popTwo)

def storageOperation : StorageOperation → Checked Fault Memory Unit
  | .ws => do
      total (Memory.onStack (OperandStack.require 2))
      let value ← onStack (peek 0)
      let location ← total (ofExcept (← onStack (peek 1)).toLocation)
      let _ ← total (Memory.onStack OperandStack.popTwo)
      total (Memory.writeStorage location value)
  | .rs => do
      let location ← total (ofExcept (← onStack (peek 0)).toLocation)
      let value ← total (Memory.readStorage location)
      total (Memory.onStack (OperandStack.replaceTop value))
  | .wcvtp => writeControlValue id
  | .wcvtf => writeControlValue fun value => .int value.integerPart
  | .rcvt => do
      let index ← total (ofExcept ((← onStack (peek 0)).toIndex .controlValue))
      let value ← total (Memory.getControlValue index)
      total (Memory.onStack (OperandStack.replaceTop value))

theorem storageOperation_eq (operation : StorageOperation) :
    storageOperation operation = total operation.apply := by
  cases operation with
  | _ =>
      simp [storageOperation, writeControlValue, StorageOperation.apply,
        StorageOperation.writeControlValue, peek_eq]

/-! ## Operands of control instructions -/

def functionId : Checked Failure Machine UInt32 := do
  let top ← onMemory (onStack (peek 0))
  total (Machine.onMemory (ofExcept (top.toIndex .function)))

theorem functionId_eq : functionId = total Machine.functionId := by
  rw [functionId, Machine.functionId, total_bind, peek_eq, onStack_total, onMemory_total]
  rfl

/-! ## Conditionals -/

/-- The distance to the marker that ends a skipped branch, if there is one and if the count of
conditionals stays at zero or above. The conditional of the branch is counted as well. -/
def scan? (stopAtElse : Bool) : (nesting : Nat) → Program → Option (Option Nat)
  | _, [] => some none
  | nesting, .control .beginIf :: rest => do
      return (← scan? stopAtElse (nesting + 1) rest).map (· + 1)
  | nesting, .control .beginElse :: rest =>
      if nesting = 1 && stopAtElse then some (some 1)
      else do return (← scan? stopAtElse nesting rest).map (· + 1)
  | nesting, .control .endIf :: rest => do
      let others ← subtract? nesting 1
      if others = 0 then return some 1
      else return (← scan? stopAtElse others rest).map (· + 1)
  | nesting, _ :: rest => do return (← scan? stopAtElse nesting rest).map (· + 1)

theorem scan?_eq (stopAtElse : Bool) (nested : Nat) (program : Program) :
    scan? stopAtElse (nested + 1) program = some (distanceToMarker? stopAtElse nested program) := by
  have own_eq (nested : Nat) :
      (decide (nested + 1 = 1) && stopAtElse) = (stopAtElse && decide (nested = 0)) := by
    simp [Bool.and_comm]
  fun_induction distanceToMarker? stopAtElse nested program with
  | case1 => rfl
  | case2 nested rest induction =>
      rw [scan?, induction]
      rfl
  | case3 nested rest stops =>
      rw [scan?, own_eq, if_pos stops]
  | case4 nested rest passes induction =>
      rw [scan?, own_eq, if_neg passes, induction]
      rfl
  | case5 => rfl
  | case6 nested rest induction =>
      rw [scan?, subtract?_of_le (by omega), Option.bind_eq_bind, Option.bind_some,
        Nat.add_sub_cancel, if_neg (Nat.succ_ne_zero nested), induction]
      rfl
  | case7 nested instruction rest notIf notElse notEnd notInnerEnd induction =>
      have passed : instruction ≠ .control .endIf := by
        cases nested with
        | zero => exact notEnd rfl
        | succ nested => exact notInnerEnd nested rfl
      rw [scan?, induction]
      · rfl
      · exact notIf
      · exact notElse
      · exact passed

/-- The count would go below zero if the conditional of the branch were not counted. -/
example : scan? false 0 [.control .endIf] = none := rfl

def skipBranch (stopAtElse : Bool) (program : Program) (next : Nat) :
    Checked Failure Machine Nat := do
  let rest ← defined (slice? program next program.length)
  match ← defined (scan? stopAtElse 1 rest) with
  | some distance => return distance
  | none => total (Machine.fault .unbalancedConditional)

theorem skipBranch_eq (stopAtElse : Bool) {program : Program} {next : Nat}
    (inside : next ≤ program.length) :
    skipBranch stopAtElse program next =
      total (Machine.skipBranch stopAtElse (program.drop next)) := by
  rw [skipBranch, Machine.skipBranch, slice?_to_end inside, defined_some, pure_bind, scan?_eq,
    defined_some, pure_bind]
  cases distanceToMarker? stopAtElse 0 (program.drop next) with
  | some distance => rfl
  | none => rfl

end Hinting.Checked
