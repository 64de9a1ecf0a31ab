import Hinting.Proofs.Memory.Shape
import Mathlib.Algebra.Group.Int.Defs

/-!
Registers: the locations of storage and the control values.

A register holds what was written to it last. Operands name registers by their whole units, whatever
they are stored as, and no operation writes to more than one register.
-/

namespace Hinting

/-! ## Names -/

namespace Value

/-- Operands name cells by their whole units. Where there is no cell with this number, the operand
is an invalid index. -/
structure Names (cell? : Value → Except Fault α) (kind : IndexKind) (number : α → Nat) : Prop where
  of_eq : ∀ {operand : Value} {cell : α},
    operand.integerPart.toInt = number cell → cell? operand = .ok cell
  of_ne : ∀ {operand : Value}, (∀ cell, operand.integerPart.toInt ≠ number cell) →
    cell? operand = .error (.invalidIndex kind operand.integerPart)

theorem Names.eq_iff {cell? : Value → Except Fault α} {kind : IndexKind} {number : α → Nat}
    (names : Names cell? kind number) (left right : Value) :
    cell? left = cell? right ↔ left.integerPart = right.integerPart := by
  by_cases leftNamed : ∃ cell, left.integerPart.toInt = number cell
  · rcases leftNamed with ⟨cell, leftNamed⟩
    rw [names.of_eq leftNamed, ← Int64.toInt_inj, leftNamed]
    refine ⟨fun same => ?_, fun same => (names.of_eq same.symm).symm⟩
    by_cases rightNamed : ∃ other, right.integerPart.toInt = number other
    · rcases rightNamed with ⟨other, rightNamed⟩
      rw [names.of_eq rightNamed] at same
      cases same
      exact rightNamed.symm
    · rw [names.of_ne (not_exists.mp rightNamed)] at same
      cases same
  · rw [names.of_ne (not_exists.mp leftNamed)]
    by_cases rightNamed : ∃ other, right.integerPart.toInt = number other
    · rcases rightNamed with ⟨other, rightNamed⟩
      rw [names.of_eq rightNamed]
      refine ⟨fun same => (nomatch same), fun same => absurd ⟨other, ?_⟩ leftNamed⟩
      rw [same, rightNamed]
    · rw [names.of_ne (not_exists.mp rightNamed), Except.error.injEq, Fault.invalidIndex.injEq]
      exact and_iff_right rfl

theorem names_toLocation : Names toLocation .storageLocation UInt64.toNat where
  of_eq := by
    intro operand location named
    have nonneg : 0 ≤ operand.integerPart.toInt := by omega
    rw [toLocation, if_pos nonneg, named, Int.toNat_natCast, UInt64.ofNat_toNat]
  of_ne := by
    intro operand different
    refine if_neg fun nonneg => different (.ofNat operand.integerPart.toInt.toNat) ?_
    have bound := operand.integerPart.toInt_lt
    rw [UInt64.toNat_ofNat_of_lt' (by simp only [UInt64.size]; omega)]
    omega

theorem names_toIndex (kind : IndexKind) :
    Names (fun operand => operand.toIndex kind) kind UInt32.toNat where
  of_eq := by
    intro operand index named
    have bound : index.toNat < UInt32.size := index.toNat_lt
    have inside : 0 ≤ operand.integerPart.toInt ∧ operand.integerPart.toInt < UInt32.size := by
      omega
    rw [toIndex, if_pos inside, named, Int.toNat_natCast, UInt32.ofNat_toNat]
  of_ne := by
    intro operand different
    refine if_neg fun inside => different (.ofNat operand.integerPart.toInt.toNat) ?_
    rw [UInt32.toNat_ofNat_of_lt' (by omega)]
    omega

end Value

namespace ControlValues

variable {table : ControlValues} {index : UInt32}

theorem set_of_lt (inside : index.toNat < table.size) (value : Value) :
    table.set index value = .ok ⟨table.values.set index.toNat value⟩ :=
  if_pos inside

theorem set_of_le (outside : table.size ≤ index.toNat) (value : Value) :
    table.set index value = .error (outOfRange index) :=
  if_neg (Nat.not_lt.mpr outside)

theorem get_of_eq {value : Value} (held : table.values[index.toNat]? = some value) :
    table.get index = .ok value := by
  rw [get, held]

theorem get_of_le (outside : table.size ≤ index.toNat) :
    table.get index = .error (outOfRange index) := by
  rw [get, List.getElem?_eq_none outside]

/-- No control value of the table has the number that the operand names. -/
def Beyond (table : ControlValues) (operand : Value) : Prop :=
  ∀ index : UInt32, operand.integerPart.toInt = index.toNat → table.size ≤ index.toNat

theorem Beyond.refused {operand : Value} (beyond : table.Beyond operand) :
    operand.toIndex .controlValue =
        .error (.invalidIndex .controlValue operand.integerPart) ∨
      ∃ index : UInt32, operand.toIndex .controlValue = .ok index ∧ table.size ≤ index.toNat ∧
        outOfRange index = .invalidIndex .controlValue operand.integerPart := by
  by_cases named : ∃ index : UInt32, operand.integerPart.toInt = index.toNat
  · rcases named with ⟨index, named⟩
    refine .inr ⟨index, (Value.names_toIndex _).of_eq named, beyond index named, ?_⟩
    have bound := index.toNat_lt
    have same : Int64.ofNat index.toNat = operand.integerPart := by
      rw [← Int64.toInt_inj, named]
      exact Int64.toInt_ofNat_of_lt (by omega)
    rw [outOfRange, same]
  · exact .inl ((Value.names_toIndex _).of_ne (not_exists.mp named))

theorem beyond_of_outside {operand : Value}
    (outside : operand.integerPart.toInt < 0 ∨ 2 ^ 32 ≤ operand.integerPart.toInt ∨
      table.size ≤ operand.integerPart.toInt) : table.Beyond operand := by
  intro index named
  have bound := index.toNat_lt
  omega

end ControlValues

/-! ## Registers -/

/-- A location of storage, or a control value. -/
inductive Register
  | location (number : UInt64)
  | controlValue (index : UInt32)
deriving DecidableEq

namespace Memory

def register? (memory : Memory) : Register → Option Value
  | .location number => memory.storage.get? number
  | .controlValue index => memory.controlValues.values[index.toNat]?

/-- The register has got the value, and all others hold what they held. -/
structure Stored (before : Memory) (register : Register) (value : Value) (after : Memory) :
    Prop where
  same : after.register? register = some value
  other : ∀ other, other ≠ register → after.register? other = before.register? other

theorem stored_write (stack : OperandStack) (memory : Memory) (location : UInt64) (value : Value) :
    Stored memory (.location location) value
      { memory with stack, storage := memory.storage.write location value } where
  same := Storage.get?_write_same _ _ _
  other other different := by
    cases other with
    | location number =>
        exact Storage.get?_write_other _ value fun same => different (same ▸ rfl)
    | controlValue index => rfl

theorem stored_set (stack : OperandStack) (memory : Memory) {index : UInt32}
    (inside : index.toNat < memory.controlValues.size) (value : Value) :
    Stored memory (.controlValue index) value
      { memory with
        stack, controlValues := ⟨memory.controlValues.values.set index.toNat value⟩ } where
  same := List.getElem?_set_self inside
  other other different := by
    cases other with
    | location number => rfl
    | controlValue number =>
        refine List.getElem?_set_ne fun same => different ?_
        rw [UInt32.toNat_inj.mp same]

def withValues (memory : Memory) (values : List Value) : Memory :=
  { memory with stack := { memory.stack with values } }

/-- The instruction turns the first stack into the second one and does nothing else. -/
def Turns (memory : Memory) (operation : StorageOperation) (before after : List Value) : Prop :=
  operation.apply (memory.withValues before) = .ok () (memory.withValues after)

def Rejects (memory : Memory) (operation : StorageOperation) (values : List Value)
    (failure : Fault) : Prop :=
  operation.apply (memory.withValues values) = .error failure (memory.withValues values)

/-! ### Operands -/

section

variable {memory : Memory} {value operand : Value} {below : List Value}

def withOperands (next : Value → Value → MemoryAction Unit) : MemoryAction Unit := do
  onStack (OperandStack.require 2)
  let value ← onStack (OperandStack.peek 0)
  let operand ← onStack (OperandStack.peek 1)
  next value operand

theorem withOperands_apply (held : memory.stack.values = value :: operand :: below)
    (next : Value → Value → MemoryAction Unit) :
    withOperands next memory = next value operand memory := by
  have enough : 2 ≤ memory.stack.size := by
    rw [OperandStack.size, held]
    exact Nat.le_add_left 2 below.length
  have present : onStack (OperandStack.require 2) memory = .ok () memory := by
    rw [onStack, OperandStack.require, if_pos enough]
  have second : onStack (OperandStack.peek 1) memory = .ok operand memory := by
    rw [onStack, OperandStack.peek, held]
    rfl
  rw [withOperands, bind_apply_of_ok present, bind_apply_of_ok (peek_top held),
    bind_apply_of_ok second]

theorem withOperands_cases (next : Value → Value → MemoryAction Unit) (memory : Memory) :
    (∃ failure, withOperands next memory = .error failure memory) ∨
      ∃ value operand below, memory.stack.values = value :: operand :: below := by
  by_cases few : memory.stack.size < 2
  · have missing : onStack (OperandStack.require 2) memory =
        .error (.stackUnderflow 2 memory.stack.size) memory := by
      rw [onStack, OperandStack.require, if_neg (Nat.not_le.mpr few)]
    exact .inl ⟨_, bind_apply_of_error missing⟩
  · right
    rcases held : memory.stack.values with _ | ⟨value, _ | ⟨operand, below⟩⟩
    · simp [OperandStack.size, held] at few
    · simp [OperandStack.size, held] at few
    · exact ⟨value, operand, below, rfl⟩

theorem popTwo_apply (held : memory.stack.values = value :: operand :: below) :
    onStack OperandStack.popTwo memory = .ok (operand, value) (memory.withValues below) := by
  rw [onStack, OperandStack.popTwo, held]
  rfl

end

theorem setControlValue_apply (index : UInt32) (value : Value) (memory : Memory) :
    setControlValue index value memory =
      match memory.controlValues.set index value with
      | .ok controlValues => .ok () { memory with controlValues }
      | .error failure => .error failure memory := by
  rw [setControlValue, get_bind_apply]
  cases memory.controlValues.set index value with
  | ok controlValues => rfl
  | error failure => rfl

theorem setControlValue_of_le {index : UInt32} {memory : Memory}
    (outside : memory.controlValues.size ≤ index.toNat) (value : Value) :
    setControlValue index value memory =
      .error (.invalidIndex .controlValue (.ofNat index.toNat)) memory := by
  rw [setControlValue_apply, ControlValues.set_of_le outside]
  rfl

end Memory

open Memory

namespace StorageOperation

section

variable {memory : Memory} {value operand : Value} {below : List Value}

/-! ### Writing -/

theorem ws_eq : ws.apply = withOperands (fun value operand => do
    let location ← ofExcept operand.toLocation
    let _ ← onStack OperandStack.popTwo
    writeStorage location value) := rfl

theorem writeControlValue_eq (convert : Value → Value) :
    writeControlValue convert = withOperands (fun value operand => do
      let index ← ofExcept (operand.toIndex .controlValue)
      Memory.setControlValue index (convert value)
      let _ ← onStack OperandStack.popTwo) := rfl

theorem ws_apply (held : memory.stack.values = value :: operand :: below) :
    ws.apply memory =
      match operand.toLocation with
      | .ok location =>
          .ok ()
            { memory.withValues below with storage := memory.storage.write location value }
      | .error failure => .error failure memory := by
  rw [ws_eq, withOperands_apply held]
  cases operand.toLocation with
  | error failure => rfl
  | ok location => exact bind_apply_of_ok (popTwo_apply held)

theorem writeControlValue_apply (convert : Value → Value)
    (held : memory.stack.values = value :: operand :: below) :
    writeControlValue convert memory =
      match operand.toIndex .controlValue with
      | .ok index =>
          match memory.controlValues.set index (convert value) with
          | .ok controlValues => .ok () { memory.withValues below with controlValues }
          | .error failure => .error failure memory
      | .error failure => .error failure memory := by
  rw [writeControlValue_eq, withOperands_apply held]
  cases operand.toIndex .controlValue with
  | error failure => rfl
  | ok index =>
      have stored := setControlValue_apply index (convert value) memory
      change (Memory.setControlValue index (convert value) >>= fun _ => do
        let _ ← onStack OperandStack.popTwo) memory = _
      dsimp only
      cases set : memory.controlValues.set index (convert value) with
      | error failure =>
          rw [set] at stored
          exact bind_apply_of_error stored
      | ok controlValues =>
          rw [set] at stored
          have popped : onStack OperandStack.popTwo { memory with controlValues } =
              .ok (operand, value) { memory.withValues below with controlValues } :=
            popTwo_apply held
          exact (bind_apply_of_ok stored).trans (bind_apply_of_ok popped)

theorem ws_of_location (held : memory.stack.values = value :: operand :: below)
    {location : UInt64} (named : operand.integerPart.toInt = location.toNat) :
    ws.apply memory =
      .ok () { memory.withValues below with storage := memory.storage.write location value } := by
  rw [ws_apply held, Value.names_toLocation.of_eq named]

theorem ws_of_unnamed (held : memory.stack.values = value :: operand :: below)
    (unnamed : ∀ location : UInt64, operand.integerPart.toInt ≠ location.toNat) :
    ws.apply memory = .error (.invalidIndex .storageLocation operand.integerPart) memory := by
  rw [ws_apply held, Value.names_toLocation.of_ne unnamed]

theorem ws_cases (memory : Memory) :
    (∃ failure, ws.apply memory = .error failure memory) ∨
      ∃ value operand below, ∃ location : UInt64,
        memory.stack.values = value :: operand :: below ∧
          operand.integerPart.toInt = location.toNat := by
  rcases withOperands_cases _ memory with few | ⟨value, operand, below, held⟩
  · exact .inl few
  · by_cases named : ∃ location : UInt64, operand.integerPart.toInt = location.toNat
    · rcases named with ⟨location, named⟩
      exact .inr ⟨value, operand, below, location, held, named⟩
    · exact .inl ⟨_, ws_of_unnamed held (not_exists.mp named)⟩

theorem writeControlValue_of_index (convert : Value → Value)
    (held : memory.stack.values = value :: operand :: below) {index : UInt32}
    (named : operand.integerPart.toInt = index.toNat)
    (inside : index.toNat < memory.controlValues.size) :
    writeControlValue convert memory =
      .ok ()
        { memory.withValues below with
          controlValues := ⟨memory.controlValues.values.set index.toNat (convert value)⟩ } := by
  rw [writeControlValue_apply convert held, (Value.names_toIndex .controlValue).of_eq named]
  dsimp only
  rw [ControlValues.set_of_lt inside]

theorem writeControlValue_of_beyond (convert : Value → Value)
    (held : memory.stack.values = value :: operand :: below)
    (beyond : memory.controlValues.Beyond operand) :
    writeControlValue convert memory =
      .error (.invalidIndex .controlValue operand.integerPart) memory := by
  rw [writeControlValue_apply convert held]
  rcases beyond.refused with refused | ⟨index, named, outside, failure⟩
  · rw [refused]
  · rw [named]
    dsimp only
    rw [ControlValues.set_of_le outside, failure]

theorem writeControlValue_cases (convert : Value → Value) (memory : Memory) :
    (∃ failure, writeControlValue convert memory = .error failure memory) ∨
      ∃ value operand below, ∃ index : UInt32,
        memory.stack.values = value :: operand :: below ∧
          operand.integerPart.toInt = index.toNat ∧
          index.toNat < memory.controlValues.size := by
  rcases withOperands_cases _ memory with few | ⟨value, operand, below, held⟩
  · exact .inl few
  · by_cases inside : ∃ index : UInt32, operand.integerPart.toInt = index.toNat ∧
        index.toNat < memory.controlValues.size
    · rcases inside with ⟨index, named, inside⟩
      exact .inr ⟨value, operand, below, index, held, named, inside⟩
    · have beyond : memory.controlValues.Beyond operand :=
        fun index named => Nat.le_of_not_lt fun lower => inside ⟨index, named, lower⟩
      exact .inl ⟨_, writeControlValue_of_beyond convert held beyond⟩

end

/-! ### Reading -/

section

variable {memory : Memory} {value operand : Value}

theorem turns_rs {location : UInt64} (named : operand.integerPart.toInt = location.toNat)
    (holds : memory.register? (.location location) = some value) (below : List Value) :
    memory.Turns rs (operand :: below) (value :: below) := by
  have found : (memory.withValues (operand :: below)).storage.get? location = some value := holds
  rw [Turns, rs_apply rfl (Value.names_toLocation.of_eq named), found]
  rfl

theorem rejects_rs_of_none {location : UInt64}
    (named : operand.integerPart.toInt = location.toNat)
    (empty : memory.register? (.location location) = none) (below : List Value) :
    memory.Rejects rs (operand :: below) (.uninitializedStorage location) := by
  have missing : (memory.withValues (operand :: below)).storage.get? location = none := empty
  rw [Rejects, rs_apply rfl (Value.names_toLocation.of_eq named), missing]

theorem rejects_rs_of_unnamed
    (unnamed : ∀ location : UInt64, operand.integerPart.toInt ≠ location.toNat)
    (below : List Value) :
    memory.Rejects rs (operand :: below)
      (.invalidIndex .storageLocation operand.integerPart) := by
  have top : onStack (OperandStack.peek 0) (memory.withValues (operand :: below)) =
      .ok operand (memory.withValues (operand :: below)) := peek_top rfl
  rw [Rejects, apply, bind_apply_of_ok top, Value.names_toLocation.of_ne unnamed]
  rfl

theorem rcvt_apply (memory : Memory) (operand : Value) (below : List Value) :
    rcvt.apply (memory.withValues (operand :: below)) =
      match operand.toIndex .controlValue with
      | .ok index =>
          match memory.controlValues.get index with
          | .ok value => .ok () (memory.withValues (value :: below))
          | .error failure => .error failure (memory.withValues (operand :: below))
      | .error failure => .error failure (memory.withValues (operand :: below)) := by
  have top : onStack (OperandStack.peek 0) (memory.withValues (operand :: below)) =
      .ok operand (memory.withValues (operand :: below)) := peek_top rfl
  rw [apply, bind_apply_of_ok top]
  cases operand.toIndex .controlValue with
  | error failure => rfl
  | ok index =>
      change (getControlValue index >>= fun value => onStack (OperandStack.replaceTop value))
        (memory.withValues (operand :: below)) = _
      rw [getControlValue, bind_assoc, get_bind_apply]
      dsimp only
      change (ofExcept (memory.controlValues.get index) >>= fun value =>
        onStack (OperandStack.replaceTop value)) (memory.withValues (operand :: below)) = _
      cases memory.controlValues.get index with
      | error failure => rfl
      | ok value => rfl

theorem turns_rcvt {index : UInt32} (named : operand.integerPart.toInt = index.toNat)
    (holds : memory.register? (.controlValue index) = some value) (below : List Value) :
    memory.Turns rcvt (operand :: below) (value :: below) := by
  rw [Turns, rcvt_apply, (Value.names_toIndex .controlValue).of_eq named]
  dsimp only
  rw [ControlValues.get_of_eq holds]

theorem rejects_rcvt (beyond : memory.controlValues.Beyond operand) (below : List Value) :
    memory.Rejects rcvt (operand :: below)
      (.invalidIndex .controlValue operand.integerPart) := by
  rw [Rejects, rcvt_apply]
  rcases beyond.refused with refused | ⟨index, named, outside, failure⟩
  · rw [refused]
  · rw [named]
    dsimp only
    rw [ControlValues.get_of_le outside, failure]

end

end StorageOperation

end Hinting
