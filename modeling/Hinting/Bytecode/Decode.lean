import Hinting.Bytecode.OpcodeClass

/-!
Reading bytecode.

A cursor moves over a byte sequence one instruction at a time. A failing read
leaves it behind the bytes that were read before the failure was seen, so that
reading may go on from there. A whole program is read without a partial result.
-/

namespace Hinting

/-! ## Cursors -/

/-- A place in a byte sequence: the number of bytes passed and those to come. -/
structure Cursor where
  position : Nat
  remaining : List UInt8
deriving DecidableEq

/-- A computation that moves a cursor, also when it fails. -/
abbrev Reader := EStateM Malformation Cursor

namespace PushWidth

def wordLiteral (high low : UInt8) : Int32 :=
  (Int16.ofNat (high.toNat * 256 + low.toNat)).toInt32

def literalsOf : PushWidth → List UInt8 → List Int32
  | bytes, raw => raw.map fun byte => .ofNat byte.toNat
  | words, high :: low :: raw => wordLiteral high low :: literalsOf words raw
  | words, _ => []

example : literalsOf words [0xFF, 0xFE, 0x01, 0x00] = [-2, 256] := by decide

end PushWidth

namespace Cursor

def start (bytes : List UInt8) : Cursor := ⟨0, bytes⟩

def nextByte? : Reader (Option UInt8) := fun cursor =>
  match cursor.remaining with
  | byte :: remaining => .ok (some byte) ⟨cursor.position + 1, remaining⟩
  | [] => .ok none cursor

/-- Read all literals of a push that begins at `offset`, or none. -/
def literals (offset : Nat) (width : PushWidth) (count : Nat) : Reader (List Int32) :=
  fun cursor =>
    let size := count * width.size
    let raw := cursor.remaining.take size
    if raw.length = size then
      .ok (width.literalsOf raw) ⟨cursor.position + size, cursor.remaining.drop size⟩
    else .error ⟨offset, .truncatedPush count size cursor.remaining.length⟩ cursor

def nextInstruction? : Reader (Option Instruction) := do
  let offset := (← get).position
  let some opcode ← nextByte? | return none
  match OpcodeClass.ofByte? opcode with
  | some (.bare instruction) => return some instruction
  | some (.countedPush width) => do
      let some count ← nextByte? | throw ⟨offset, .missingCount⟩
      return some (.push ⟨width, .counted, ← literals offset width count.toNat⟩)
  | some (.inlinePush width count) =>
      return some (.push ⟨width, .inline, ← literals offset width count⟩)
  | none => throw ⟨offset, .unrecognizedOpcode opcode⟩

def listing : (limit : Nat) → Reader (List (Nat × Instruction))
  | 0 => return []
  | limit + 1 => do
      let offset := (← get).position
      let some instruction ← nextInstruction? | return []
      return (offset, instruction) :: (← listing limit)

end Cursor

/-! ## Whole programs -/

/-- All instructions with their offsets. No instruction is shorter than a byte,
so there are no more of them than bytes. -/
def listing (bytes : List UInt8) : Except Malformation (List (Nat × Instruction)) :=
  match Cursor.listing bytes.length (.start bytes) with
  | .ok instructions _ => .ok instructions
  | .error malformation _ => .error malformation

def decode (bytes : List UInt8) : Except Malformation Program :=
  (listing bytes).map (·.map Prod.snd)

example : decode [0xB1, 0x01, 0x05, 0x2B] =
    .ok [.push (.ofBytes [1, 5]), .control .call] := rfl

example : decode [0x20, 0x40, 0x03, 0x01] = .error ⟨1, .truncatedPush 3 3 1⟩ := rfl

/-! ## Disassembly -/

def offsetText (offset : Nat) : String :=
  let digits := Nat.toDigits 10 offset
  String.ofList (List.replicate (4 - digits.length) '0' ++ digits)

def disassemblyLine (offset : Nat) (instruction : Instruction) : String :=
  s!"{offsetText offset}: {instruction.display}\n"

/-- One instruction a line behind its offset. -/
def disassemble (bytes : List UInt8) : Except Malformation String := do
  let instructions ← listing bytes
  return String.join (instructions.map fun (offset, instruction) =>
    disassemblyLine offset instruction)

example : (disassemble [0xB1, 0x01, 0x05, 0x2B]).toOption =
    some "0000: PUSHB[2] 1 5\n0003: CALL\n" := by decide +kernel

end Hinting
