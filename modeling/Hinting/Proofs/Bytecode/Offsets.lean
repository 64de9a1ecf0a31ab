import Hinting.Proofs.Bytecode.Concatenation

/-!
Where malformations are reported.

Reading fails at the opcode of an instruction that is not all there. What stands in front of it
decodes, and no more than that does. Writing fails at the first push that has no bytecode. One of
its literals is reported where the push would begin, and a wrong number of them at the beginning of
everything.
-/

namespace Hinting

/-! ## Reading -/

namespace Cursor

variable {cursor after : Cursor} {malformation : Malformation}

theorem nextByte?_ne_error : nextByte? cursor ≠ .error malformation after := by
  intro fails
  rw [nextByte?] at fails
  split at fails
  · cases fails
  · cases fails

theorem offset_of_literals {offset count : Nat} {width : PushWidth}
    (read : literals offset width count cursor = .error malformation after) :
    malformation.offset = offset := by
  unfold literals at read
  dsimp only at read
  split at read
  · cases read
  · cases read
    rfl

theorem nextInstruction?_eq_error (read : nextInstruction? cursor = .error malformation after) :
    malformation.offset = cursor.position ∧ cursor.remaining ≠ [] := by
  rw [nextInstruction?, get_bind_apply] at read
  rcases bind_eq_error.mp read with impossible | ⟨byte?, begun, opened, read⟩
  · exact absurd impossible nextByte?_ne_error
  · cases byte? with
    | none => cases read
    | some opcode =>
        have present : cursor.remaining ≠ [] := by
          rw [(nextByte?_eq_some opened).remaining]
          exact List.cons_ne_nil _ _
        refine ⟨?_, present⟩
        dsimp only at read
        cases classified : OpcodeClass.ofByte? opcode with
        | none =>
            rw [classified] at read
            cases read
            rfl
        | some opcodeClass =>
            rw [classified] at read
            cases opcodeClass with
            | bare instruction => cases read
            | countedPush width =>
                rcases bind_eq_error.mp read with impossible | ⟨count?, behind, _, read⟩
                · exact absurd impossible nextByte?_ne_error
                · cases count? with
                  | none =>
                      cases read
                      rfl
                  | some count =>
                      rcases bind_eq_error.mp read with failed | ⟨_, _, _, impossible⟩
                      · exact offset_of_literals failed
                      · cases impossible
            | inlinePush width count =>
                rcases bind_eq_error.mp read with failed | ⟨_, _, _, impossible⟩
                · exact offset_of_literals failed
                · cases impossible

theorem listing_eq_error {limit : Nat} (read : listing limit cursor = .error malformation after) :
    ∃ passed program between, Passes cursor passed between ∧
      encodeFrom cursor.position program = .ok passed ∧
        nextInstruction? between = .error malformation after := by
  induction limit generalizing cursor with
  | zero => cases read
  | succ limit induction =>
      rw [listing, get_bind_apply] at read
      rcases bind_eq_error.mp read with failed | ⟨found, between, next, read⟩
      · exact ⟨[], [], cursor, .refl cursor, rfl, failed⟩
      · rcases nextInstruction?_eq_ok next with
          ⟨rfl, _, _⟩ | ⟨instruction, opcode, operands, rfl, passes, encoded⟩
        · cases read
        · rcases bind_eq_error.mp read with failed | ⟨_, _, _, impossible⟩
          · rcases induction failed with ⟨passed, program, last, passesRest, encodedRest, fails⟩
            refine ⟨_, instruction :: program, last, passes.trans passesRest, ?_, fails⟩
            rw [passes.position] at encodedRest
            exact encodeFrom_cons_eq_ok.mpr ⟨_, _, encoded _, encodedRest, rfl⟩
          · cases impossible

theorem exists_nextInstruction?_of_decode {bytes : List UInt8} {program : Program}
    (decoded : decode bytes = .ok program) (present : bytes ≠ []) (position : Nat)
    (rest : List UInt8) :
    ∃ instruction after, nextInstruction? ⟨position, bytes ++ rest⟩ =
      .ok (some instruction) after := by
  have encoded := encodeFrom_of_decode decoded 0
  cases program with
  | nil =>
      cases encoded
      exact absurd rfl present
  | cons instruction program =>
      rcases encodeFrom_cons_eq_ok.mp encoded with ⟨first, others, begins, _, rfl⟩
      rw [List.append_assoc]
      exact ⟨instruction, _, nextInstruction?_encode begins⟩

end Cursor

/-- Bytes that do not decode are a program that does and then an instruction that cannot be
read. -/
theorem decode_eq_error {bytes : List UInt8} {malformation : Malformation}
    (refused : decode bytes = .error malformation) :
    ∃ front program back after, bytes = front ++ back ∧ decode front = .ok program ∧
      Cursor.nextInstruction? ⟨front.length, back⟩ = .error malformation after := by
  rw [decode, listing] at refused
  cases read : Cursor.listing bytes.length (.start bytes) with
  | ok listed after =>
      rw [read] at refused
      cases refused
  | error other after =>
      rw [read] at refused
      cases refused
      rcases Cursor.listing_eq_error read with
        ⟨front, program, ⟨position, back⟩, passes, encoded, fails⟩
      have moved : position = front.length := passes.position.trans (Nat.zero_add _)
      rw [moved] at fails
      exact ⟨front, program, back, after, passes.remaining, decode_of_encodeFrom encoded, fails⟩

/-- A malformation is reported behind all that decodes: the bytes in front of its offset do, and
nothing that goes beyond it. -/
theorem decode_longest {bytes : List UInt8} {malformation : Malformation}
    (refused : decode bytes = .error malformation) :
    malformation.offset < bytes.length ∧
      (∃ program, decode (bytes.take malformation.offset) = .ok program) ∧
      ∀ longer, longer <+: bytes → malformation.offset < longer.length →
        ∃ other, decode longer = .error other := by
  rcases decode_eq_error refused with ⟨front, program, back, after, rfl, decoded, fails⟩
  rcases Cursor.nextInstruction?_eq_error fails with ⟨offset, present⟩
  have more : 0 < back.length := List.length_pos_iff.mpr present
  rw [offset]
  refine ⟨?_, ⟨program, ?_⟩, ?_⟩
  · rw [List.length_append]
    exact Nat.lt_add_of_pos_right more
  · rw [List.take_left]
    exact decoded
  · intro longer begins beyond
    rcases List.prefix_of_prefix_length_le (List.prefix_append front back) begins
      (Nat.le_of_lt beyond) with ⟨further, rfl⟩
    rcases (List.prefix_append_right_inj front).mp begins with ⟨rest, rfl⟩
    have present : further ≠ [] := by
      rintro rfl
      rw [List.append_nil] at beyond
      exact Nat.lt_irrefl _ beyond
    rw [decode_behind decoded]
    cases ends : decode further with
    | error other => exact ⟨_, rfl⟩
    | ok others =>
        rcases Cursor.exists_nextInstruction?_of_decode ends present front.length rest with
          ⟨instruction, next, reads⟩
        cases fails.symm.trans reads

/-- Three literals are announced and two are there. The push begins behind another instruction. -/
theorem decode_longest_truncated :
    decode [0x20, 0x40, 0x03, 0x01, 0x02] = .error ⟨1, .truncatedPush 3 3 2⟩ ∧
      (∃ program, decode [0x20] = .ok program) ∧
      ∃ other, decode [0x20, 0x40, 0x03] = .error other := by
  have refused : decode [0x20, 0x40, 0x03, 0x01, 0x02] = .error ⟨1, .truncatedPush 3 3 2⟩ := rfl
  rcases decode_longest refused with ⟨_, decodes, longer⟩
  exact ⟨refused, decodes, longer [0x20, 0x40, 0x03] ⟨[0x01, 0x02], rfl⟩ (by decide)⟩

/-! ## Writing -/

namespace Push

def CountFits (push : Push) : Prop :=
  match push.form with
  | .inline => 1 ≤ push.literals.length ∧ push.literals.length ≤ maxInlineCount
  | .counted => push.literals.length ≤ 255

/-- The literal is the first one that the width cannot hold. -/
structure Exceeds (push : Push) (literal : Int32) : Prop where
  fails : ¬ push.width.Fits literal
  first : ∃ fitting others, push.literals = fitting ++ literal :: others ∧
    ∀ other ∈ fitting, push.width.Fits other

/-- What is wrong with a push, and where this is reported if the push stands at `offset`. -/
inductive Refused (push : Push) (offset : Nat) : Malformation → Prop
  | literal {literal : Int32} (carried : push.CountFits) (exceeds : push.Exceeds literal) :
      Refused push offset ⟨offset, .oversizedLiteral literal push.mnemonic⟩
  | count (beyond : ¬ push.CountFits) :
      Refused push offset ⟨0, .unsupportedCount push.mnemonic push.literals.length⟩

variable {push : Push} {malformation : Malformation}

theorem countFits_of_opcode {opcode : UInt8} (opened : push.opcode = .ok opcode) :
    push.CountFits := by
  rcases opcode_eq_ok_iff.mp opened with ⟨inline, carried, _⟩ | ⟨counted, small, _⟩
  · rw [CountFits, inline]
    exact carried
  · rw [CountFits, counted]
    exact small

theorem opcode_eq_error (refused : push.opcode = .error malformation) :
    ¬ push.CountFits ∧
      malformation = ⟨0, .unsupportedCount push.mnemonic push.literals.length⟩ := by
  rw [opcode] at refused
  rw [CountFits]
  cases form : push.form with
  | counted =>
      rw [form] at refused
      dsimp only at refused
      split at refused
      · cases refused
      · next large =>
          cases refused
          exact ⟨large, rfl⟩
  | inline =>
      rw [form] at refused
      dsimp only at refused
      split at refused
      · cases refused
      · next beyond =>
          cases refused
          exact ⟨beyond, rfl⟩

theorem mapM_eq_error {encode? : Int32 → Option (List UInt8)} {refuse : Int32 → Malformation}
    {literals : List Int32}
    (refused : literals.mapM (fun literal =>
      match encode? literal with
      | some bytes => Except.ok bytes
      | none => .error (refuse literal)) = .error malformation) :
    ∃ fitting literal others, literals = fitting ++ literal :: others ∧
      (∀ other ∈ fitting, ∃ chunk, encode? other = some chunk) ∧ encode? literal = none ∧
        malformation = refuse literal := by
  induction literals with
  | nil => cases refused
  | cons literal literals induction =>
      rw [List.mapM_cons] at refused
      cases known : encode? literal with
      | none =>
          rw [known] at refused
          cases refused
          exact ⟨[], literal, literals, rfl, List.forall_mem_nil _, known, rfl⟩
      | some chunk =>
          rw [known] at refused
          rcases except_bind_eq_error.mp refused with impossible | ⟨_, _, refused⟩
          · cases impossible
          · rcases except_bind_eq_error.mp refused with failed | ⟨_, _, impossible⟩
            · rcases induction failed with ⟨fitting, other, others, rfl, fits, fails, same⟩
              exact ⟨literal :: fitting, other, others, rfl,
                List.forall_mem_cons.mpr ⟨⟨chunk, known⟩, fits⟩, fails, same⟩
            · cases impossible

theorem encode_eq_error {offset : Nat} (refused : push.encode offset = .error malformation) :
    push.Refused offset malformation := by
  rw [encode] at refused
  rcases except_bind_eq_error.mp refused with failed | ⟨opcode, opened, refused⟩
  · rcases opcode_eq_error failed with ⟨beyond, rfl⟩
    exact .count beyond
  · rcases except_bind_eq_error.mp refused with failed | ⟨_, _, impossible⟩
    · rcases mapM_eq_error failed with ⟨fitting, literal, others, split, fits, fails, rfl⟩
      have exceeds : push.Exceeds literal :=
        { fails := by
            rw [← PushWidth.exists_encodeLiteral?_iff, fails]
            rintro ⟨_, impossible⟩
            cases impossible
          first := ⟨fitting, others, split, fun other member =>
            PushWidth.exists_encodeLiteral?_iff.mp (fits other member)⟩ }
      exact .literal (countFits_of_opcode opened) exceeds
    · cases impossible

theorem Refused.not_representable {offset : Nat} (refused : push.Refused offset malformation) :
    ¬ push.Representable := by
  intro representable
  cases refused with
  | literal carried exceeds =>
      rcases exceeds.first with ⟨fitting, others, split, _⟩
      refine exceeds.fails (representable.literals _ ?_)
      rw [split]
      exact List.mem_append_right _ List.mem_cons_self
  | count beyond =>
      apply beyond
      rw [CountFits]
      cases form : push.form with
      | inline => exact representable.inline form
      | counted => exact representable.counted form

end Push

theorem Instruction.encode_eq_error {instruction : Instruction} {offset : Nat}
    {malformation : Malformation} (refused : instruction.encode offset = .error malformation) :
    ∃ push, instruction = .push push ∧ push.Refused offset malformation := by
  cases instruction with
  | push literals => exact ⟨literals, rfl, Push.encode_eq_error refused⟩
  | _ => cases refused

theorem encodeFrom_eq_error {program : Program} {offset : Nat} {malformation : Malformation}
    (refused : encodeFrom offset program = .error malformation) :
    ∃ before push behind front, program = before ++ .push push :: behind ∧
      encodeFrom offset before = .ok front ∧
        push.Refused (offset + front.length) malformation := by
  induction program generalizing offset with
  | nil => cases refused
  | cons instruction program induction =>
      rw [encodeFrom] at refused
      rcases except_bind_eq_error.mp refused with failed | ⟨bytes, encoded, refused⟩
      · rcases Instruction.encode_eq_error failed with ⟨push, rfl, here⟩
        exact ⟨[], push, program, [], rfl, rfl, here⟩
      · rcases except_bind_eq_error.mp refused with failed | ⟨_, _, impossible⟩
        · rcases induction failed with ⟨before, push, behind, front, rfl, written, refused⟩
          rw [Nat.add_assoc, ← List.length_append] at refused
          exact ⟨instruction :: before, push, behind, bytes ++ front, rfl,
            encodeFrom_cons_eq_ok.mpr ⟨bytes, front, encoded, written, rfl⟩, refused⟩
        · cases impossible

/-- A program that is refused has a first push without bytecode. If the push can carry the number of
its literals then the first one that does not fit is reported, behind the bytes of all instructions
in front of the push. A number that it cannot carry is reported at offset zero, wherever the push
stands. -/
theorem encode_refused {program : Program} {malformation : Malformation}
    (refused : encode program = .error malformation) :
    ∃ before push behind front, program = before ++ .push push :: behind ∧
      encode before = .ok front ∧ ¬ push.Representable ∧
        (push.CountFits → ∃ literal, push.Exceeds literal ∧
          malformation = ⟨front.length, .oversizedLiteral literal push.mnemonic⟩) ∧
        (¬ push.CountFits →
          malformation = ⟨0, .unsupportedCount push.mnemonic push.literals.length⟩) := by
  rcases encodeFrom_eq_error refused with ⟨before, push, behind, front, split, written, refused⟩
  rw [Nat.zero_add] at refused
  refine ⟨before, push, behind, front, split, written, refused.not_representable, ?_⟩
  cases refused with
  | literal carried exceeds =>
      exact ⟨fun _ => ⟨_, exceeds, rfl⟩, fun beyond => absurd carried beyond⟩
  | count beyond => exact ⟨fun carried => absurd carried beyond, fun _ => rfl⟩

/-- Behind a push and a call there is a push whose second literal is too large. -/
theorem encode_refused_literal :
    let pushes : Program :=
      [.push (.ofBytes [5]), .control .call, .push ⟨.bytes, .inline, [7, 300]⟩]
    encode pushes = .error ⟨3, .oversizedLiteral 300 "PUSHB"⟩ ∧
      ∃ before push behind front, pushes = before ++ .push push :: behind ∧
        encode before = .ok front ∧ ¬ push.Representable ∧ front.length = 3 := by
  intro pushes
  have refused : encode pushes = .error ⟨3, .oversizedLiteral 300 "PUSHB"⟩ := rfl
  rcases encode_refused refused with
    ⟨before, push, behind, front, split, written, unwritable, carried, beyond⟩
  refine ⟨refused, before, push, behind, front, split, written, unwritable, ?_⟩
  by_cases fits : push.CountFits
  · rcases carried fits with ⟨literal, _, same⟩
    exact (congrArg Malformation.offset same).symm
  · cases beyond fits

/-- The push stands behind one byte, and the number of its literals is reported at offset zero. -/
theorem encode_refused_count :
    let empty : Push := ⟨.bytes, .inline, []⟩
    encode [.stack .dup] = .ok [0x20] ∧ ¬ empty.Representable ∧
      encode [.stack .dup, .push empty] = .error ⟨0, .unsupportedCount "PUSHB" 0⟩ := by
  intro empty
  refine ⟨rfl, fun representable => ?_, rfl⟩
  have carried : 1 ≤ empty.literals.length := (representable.inline rfl).1
  exact absurd carried (by decide)

end Hinting
