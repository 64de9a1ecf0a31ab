import Hinting.Fault

/-!
Which opcode bytes there are and what each of them begins.
-/

namespace Hinting

inductive OpcodeClass
  | bare (instruction : Instruction)
  /-- A push whose literal count is the next byte. -/
  | countedPush (width : PushWidth)
  | inlinePush (width : PushWidth) (count : Nat)
deriving DecidableEq

namespace Push

def countedOpcode : PushWidth → UInt8
  | .bytes => 0x40
  | .words => 0x41

/-- The opcode of an inline push with one literal. Each further literal adds one
to it. -/
def inlineOpcode : PushWidth → UInt8
  | .bytes => 0xB0
  | .words => 0xB8

/-- The opcode byte, if the form can carry the literals. A count that it cannot
carry is reported at offset zero, wherever the push stands. -/
def opcode (push : Push) : Except Malformation UInt8 :=
  let count := push.literals.length
  match push.form with
  | .counted =>
      if count ≤ 255 then .ok (countedOpcode push.width)
      else .error ⟨0, .unsupportedCount push.mnemonic count⟩
  | .inline =>
      if 1 ≤ count ∧ count ≤ maxInlineCount then
        .ok (inlineOpcode push.width + .ofNat (count - 1))
      else .error ⟨0, .unsupportedCount push.mnemonic count⟩

example : (ofWords [1, 2, 3]).opcode = .ok 0xBA := rfl

end Push

namespace OpcodeClass

def table : List (UInt8 × OpcodeClass) :=
  StackOperation.all.map (fun operation => (operation.opcode, bare (.stack operation))) ++
  UnaryOperation.all.map (fun operation => (operation.opcode, bare (.unary operation))) ++
  BinaryOperation.all.map (fun operation => (operation.opcode, bare (.binary operation))) ++
  StorageOperation.all.map (fun operation => (operation.opcode, bare (.storage operation))) ++
  ControlOperation.all.map (fun operation => (operation.opcode, bare (.control operation))) ++
  [.bytes, .words].map (fun width => (Push.countedOpcode width, countedPush width)) ++
  [.bytes, .words].flatMap fun width =>
    (List.range Push.maxInlineCount).map fun more =>
      (Push.inlineOpcode width + .ofNat more, inlinePush width (more + 1))

def ofByte? (byte : UInt8) : Option OpcodeClass :=
  table.lookup byte

example : ofByte? 0x8A = some (bare (.stack .roll)) := by decide
example : ofByte? 0xBF = some (inlinePush .words 8) := by decide

def supportedCount : Nat := table.length

example : supportedCount = 57 := by decide

theorem table_opcodes_nodup : (table.map Prod.fst).Nodup := by decide

end OpcodeClass

end Hinting
