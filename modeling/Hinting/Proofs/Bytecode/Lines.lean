import Hinting.Proofs.Bytecode.Disassembly
import Hinting.Proofs.Checked.Bytecode

/-!
The lines of disassembled bytecode.

An instruction is listed at the place that the cursor has reached in front of it. This is the length
of what the instructions before it are written as, so the lines can be told from the decoded program
alone.
-/

namespace Hinting

/-! ## Places -/

/-- Every entry stands behind the bytes of the entries in front of it, the first one at `place`. -/
inductive Placed : Nat → List (Nat × Instruction) → Prop
  | nil {place : Nat} : Placed place []
  | cons {place : Nat} {instruction : Instruction} {bytes : List UInt8}
      {listed : List (Nat × Instruction)}
      (written : ∀ offset, instruction.encode offset = .ok bytes)
      (behind : Placed (place + bytes.length) listed) :
      Placed place ((place, instruction) :: listed)

theorem Placed.front {place : Nat} {listed : List (Nat × Instruction)}
    (placed : Placed place listed) {index : Nat} (inside : index < listed.length) :
    ∃ front, (∀ offset, encodeFrom offset ((listed.map Prod.snd).take index) = .ok front) ∧
      listed[index].1 = place + front.length := by
  induction placed generalizing index with
  | nil => exact nomatch inside
  | @cons place instruction bytes listed written behind induction =>
      cases index with
      | zero => exact ⟨[], fun _ => rfl, rfl⟩
      | succ index =>
          rcases induction (Nat.lt_of_succ_lt_succ inside) with ⟨front, encoded, reached⟩
          refine ⟨bytes ++ front, fun offset => ?_, ?_⟩
          · exact encodeFrom_cons_eq_ok.mpr ⟨bytes, front, written offset, encoded _, rfl⟩
          · rw [List.getElem_cons_succ, reached, List.length_append, Nat.add_assoc]

theorem Cursor.placed_of_listing {limit : Nat} {cursor after : Cursor}
    {listed : List (Nat × Instruction)} (read : listing limit cursor = .ok listed after) :
    Placed cursor.position listed := by
  induction limit generalizing cursor listed with
  | zero =>
      cases read
      exact .nil
  | succ limit induction =>
      -- The entry has the position from before the instruction is read, and the rest goes on from
      -- where the cursor is then.
      rw [listing, get_bind_apply] at read
      rcases bind_eq_ok.mp read with ⟨found, between, next, read⟩
      rcases nextInstruction?_eq_ok next with
        ⟨rfl, _, _⟩ | ⟨instruction, opcode, operands, rfl, passes, encoded⟩
      · cases read
        exact .nil
      · rcases bind_eq_ok.mp read with ⟨rest, last, listedRest, read⟩
        cases read
        have behind := induction listedRest
        rw [passes.position] at behind
        exact .cons encoded behind

/-! ## Lines -/

theorem offsetText_eq_leftpad (offset : Nat) :
    offsetText offset = String.ofList ((toString offset).toList.leftpad 4 '0') := by
  rw [offsetText, Nat.toString_eq_ofList_toDigits, String.toList_ofList]
  rfl

/-! ## Programs -/

theorem disassemble_eq_error_iff {bytes : List UInt8} {malformation : Malformation} :
    disassemble bytes = .error malformation ↔ decode bytes = .error malformation := by
  have disassembled : disassemble bytes = (listing bytes).map listingText := rfl
  rw [disassembled, decode]
  cases listing bytes with
  | error other => simp [Except.map]
  | ok listed => simp [Except.map]

theorem exists_listed_of_decode {bytes : List UInt8} {program : Program}
    (decoded : decode bytes = .ok program) :
    ∃ listed, program = listed.map Prod.snd ∧ Placed 0 listed ∧
      disassemble bytes = .ok (listingText listed) := by
  rcases decode_eq_ok decoded with ⟨listed, after, read, rfl⟩
  refine ⟨listed, rfl, Cursor.placed_of_listing read, ?_⟩
  rw [disassemble, listing, read]
  rfl

/-- Decoding goes from position to position and keeps none of them. Bytecode is disassembled if and
only if it is decoded, with the same defect otherwise. The text has a line for each instruction of
the program: the length of what stands in front of it, with zeros up to four digits, and how it is
displayed. -/
theorem disassemble_lines (bytes : List UInt8) :
    Checked.decode? bytes = some (decode bytes) ∧
    (∀ malformation,
      disassemble bytes = .error malformation ↔ decode bytes = .error malformation) ∧
    ∀ program, decode bytes = .ok program →
      ∃ lines, disassemble bytes = .ok (String.join lines) ∧ lines.length = program.length ∧
        ∀ (index : Nat) (inside : index < program.length), ∃ front,
          encode (program.take index) = .ok front ∧
            lines[index]? = some
              (String.ofList ((toString front.length).toList.leftpad 4 '0') ++ ": " ++
                program[index].display ++ "\n") := by
  refine ⟨Checked.decode?_eq bytes, fun _ => disassemble_eq_error_iff, fun program decoded => ?_⟩
  rcases exists_listed_of_decode decoded with ⟨listed, rfl, placed, disassembled⟩
  refine ⟨_, disassembled, by simp, fun index inside => ?_⟩
  rw [List.length_map] at inside
  rcases placed.front inside with ⟨front, encoded, reached⟩
  rw [Nat.zero_add] at reached
  refine ⟨front, encoded 0, ?_⟩
  rw [List.getElem?_map, List.getElem?_eq_getElem inside, List.getElem_map,
    ← offsetText_eq_leftpad, ← reached]
  rfl

/-- A call behind a push of two bytes. -/
theorem disassemble_lines_call :
    decode [0xB1, 0x01, 0x05, 0x2B] = .ok [.push (.ofBytes [1, 5]), .control .call] ∧
      ∃ lines, disassemble [0xB1, 0x01, 0x05, 0x2B] = .ok (String.join lines) ∧
        lines[1]? = some "0003: CALL\n" := by
  have decoded : decode [0xB1, 0x01, 0x05, 0x2B] =
      .ok [.push (.ofBytes [1, 5]), .control .call] := rfl
  rcases (disassemble_lines _).2.2 _ decoded with ⟨lines, disassembled, _, line⟩
  rcases line 1 (by decide) with ⟨front, encoded, shown⟩
  cases encoded
  exact ⟨decoded, lines, disassembled, shown⟩

end Hinting
