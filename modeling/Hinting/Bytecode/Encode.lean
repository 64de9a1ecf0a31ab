import Hinting.Bytecode.OpcodeClass

/-!
Writing bytecode.

A literal that does not fit its width is refused and never cut off. The literal
count is looked at before the literals.
-/

namespace Hinting

def PushWidth.encodeLiteral? (width : PushWidth) (literal : Int32) : Option (List UInt8) :=
  let number := literal.toInt
  match width with
  | bytes => if 0 ≤ number ∧ number < 256 then some [.ofNat number.toNat] else none
  | words =>
      if -32768 ≤ number ∧ number < 32768 then
        let word := (number % 65536).toNat
        some [.ofNat (word / 256), .ofNat (word % 256)]
      else none

example : PushWidth.words.encodeLiteral? (-2) = some [0xFF, 0xFE] := by decide

namespace Push

def countBytes (push : Push) : List UInt8 :=
  match push.form with
  | .counted => [.ofNat push.literals.length]
  | .inline => []

def encode (offset : Nat) (push : Push) : Except Malformation (List UInt8) := do
  let opcode ← push.opcode
  let literals ← push.literals.mapM fun literal =>
    match push.width.encodeLiteral? literal with
    | some bytes => .ok bytes
    | none => .error ⟨offset, .oversizedLiteral literal push.mnemonic⟩
  return opcode :: push.countBytes ++ literals.flatten

end Push

def Instruction.encode (offset : Nat) : Instruction → Except Malformation (List UInt8)
  | push literals => literals.encode offset
  | stack operation => .ok [operation.opcode]
  | unary operation => .ok [operation.opcode]
  | binary operation => .ok [operation.opcode]
  | storage operation => .ok [operation.opcode]
  | control operation => .ok [operation.opcode]

/-- The bytes of a program that begins at `offset`. -/
def encodeFrom (offset : Nat) : Program → Except Malformation (List UInt8)
  | [] => .ok []
  | instruction :: rest => do
      let bytes ← instruction.encode offset
      return bytes ++ (← encodeFrom (offset + bytes.length) rest)

def encode (program : Program) : Except Malformation (List UInt8) :=
  encodeFrom 0 program

example : encode [.stack .dup, .push (.ofWords [-2])] = .ok [0x20, 0xB8, 0xFF, 0xFE] := rfl

example : encode [.stack .dup, .push ⟨.bytes, .inline, [300, -1]⟩] =
    .error ⟨1, .oversizedLiteral 300 "PUSHB"⟩ := rfl

end Hinting
