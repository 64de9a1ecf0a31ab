import Hinting.Proofs.Bytecode.Encoding
import Hinting.Proofs.Stateful

/-!
The bytes that are read as an instruction are the bytes that it is written as.
-/

namespace Hinting

namespace Cursor

structure Passes (before : Cursor) (passed : List UInt8) (after : Cursor) : Prop where
  remaining : before.remaining = passed ++ after.remaining
  position : after.position = before.position + passed.length

namespace Passes

variable {before between after : Cursor} {first second : List UInt8}

theorem refl (cursor : Cursor) : Passes cursor [] cursor := ⟨rfl, rfl⟩

theorem trans (passes : Passes before first between) (then_ : Passes between second after) :
    Passes before (first ++ second) after where
  remaining := by rw [passes.remaining, then_.remaining, List.append_assoc]
  position := by rw [then_.position, passes.position, List.length_append, Nat.add_assoc]

end Passes

variable {cursor after : Cursor}

/-! ## Parts of instructions -/

theorem nextByte?_eq_some {byte : UInt8} (read : nextByte? cursor = .ok (some byte) after) :
    Passes cursor [byte] after := by
  rw [nextByte?] at read
  split at read
  · cases read
    rename_i held
    exact ⟨held, rfl⟩
  · exact nomatch read

theorem nextByte?_eq_none (read : nextByte? cursor = .ok none after) :
    cursor.remaining = [] ∧ after = cursor := by
  rw [nextByte?] at read
  split at read
  · exact nomatch read
  · cases read
    rename_i held
    exact ⟨held, rfl⟩

theorem literals_eq_ok {offset count : Nat} {width : PushWidth} {values : List Int32}
    (read : literals offset width count cursor = .ok values after) :
    ∃ raw, Passes cursor raw after ∧ raw.length = count * width.size ∧
      values = width.literalsOf raw := by
  unfold literals at read
  dsimp only at read
  split at read
  · rename_i length
    cases read
    exact ⟨_, ⟨(List.take_append_drop _ _).symm, by rw [length]⟩, length, rfl⟩
  · exact nomatch read

/-! ## Instructions -/

/-- A read ends at the end of the bytes, or else with an instruction that is written as
the bytes that it has been read from. -/
theorem nextInstruction?_eq_ok {found : Option Instruction}
    (read : nextInstruction? cursor = .ok found after) :
    found = none ∧ cursor.remaining = [] ∧ after = cursor ∨
      ∃ instruction opcode operands, found = some instruction ∧
        Passes cursor (opcode :: operands) after ∧
          ∀ offset, instruction.encode offset = .ok (opcode :: operands) := by
  rw [nextInstruction?, get_bind_apply] at read
  rcases bind_eq_ok.mp read with ⟨byte?, begun, opened, read⟩
  cases byte? with
  | none =>
      cases read
      exact .inl ⟨rfl, nextByte?_eq_none opened⟩
  | some opcode =>
      right
      have passedOpcode := nextByte?_eq_some opened
      dsimp only at read
      cases classified : OpcodeClass.ofByte? opcode with
      | none =>
          rw [classified] at read
          exact nomatch read
      | some opcodeClass =>
          have hasOpcode := OpcodeClass.hasOpcode_of_ofByte? classified
          rw [classified] at read
          cases opcodeClass with
          | bare instruction =>
              cases read
              exact ⟨instruction, opcode, [], rfl, passedOpcode, hasOpcode⟩
          | countedPush width =>
              rcases bind_eq_ok.mp read with ⟨count?, behind, counted, read⟩
              cases count? with
              | none => exact nomatch read
              | some count =>
                  rcases bind_eq_ok.mp read with ⟨values, last, taken, read⟩
                  cases read
                  rcases literals_eq_ok taken with ⟨raw, passedRaw, length, rfl⟩
                  have passed := (passedOpcode.trans (nextByte?_eq_some counted)).trans passedRaw
                  refine ⟨_, opcode, count :: raw, rfl, passed, ?_⟩
                  rw [show opcode = Push.countedOpcode width from hasOpcode]
                  exact Push.encode_counted width count length
          | inlinePush width count =>
              rcases bind_eq_ok.mp read with ⟨values, last, taken, read⟩
              cases read
              rcases literals_eq_ok taken with ⟨raw, passedRaw, length, rfl⟩
              rcases hasOpcode with ⟨positive, small, rfl⟩
              exact ⟨_, _, raw, rfl, passedOpcode.trans passedRaw,
                Push.encode_inline width positive small length⟩

/-! ## Programs -/

/-- The instructions that are listed are written as the bytes that have been passed. With
enough instructions these are all bytes, as every instruction has at least one. -/
theorem listing_eq_ok {limit : Nat} {listed : List (Nat × Instruction)}
    (read : listing limit cursor = .ok listed after) :
    (∃ passed, Passes cursor passed after ∧
      ∀ offset, encodeFrom offset (listed.map Prod.snd) = .ok passed) ∧
    (cursor.remaining.length ≤ limit → after.remaining = []) := by
  induction limit generalizing cursor listed with
  | zero =>
      cases read
      exact ⟨⟨[], .refl _, fun _ => rfl⟩,
        fun enough => List.eq_nil_of_length_eq_zero (Nat.le_zero.mp enough)⟩
  | succ limit induction =>
      rw [listing, get_bind_apply] at read
      rcases bind_eq_ok.mp read with ⟨found, between, next, read⟩
      rcases nextInstruction?_eq_ok next with
        ⟨rfl, ended, rfl⟩ | ⟨instruction, opcode, operands, rfl, passes, encoded⟩
      · cases read
        exact ⟨⟨[], .refl _, fun _ => rfl⟩, fun _ => ended⟩
      · rcases bind_eq_ok.mp read with ⟨rest, last, listedRest, read⟩
        cases read
        rcases induction listedRest with ⟨⟨passed, passesRest, encodedRest⟩, ends⟩
        refine ⟨⟨opcode :: operands ++ passed, passes.trans passesRest, ?_⟩, ?_⟩
        · intro offset
          rw [List.map_cons, encodeFrom, encoded]
          exact congrArg (· >>= fun bytes => pure (opcode :: operands ++ bytes))
            (encodedRest (offset + (opcode :: operands).length))
        · intro enough
          apply ends
          rw [passes.remaining, List.length_append, List.length_cons] at enough
          omega

end Cursor

theorem decode_eq_ok {bytes : List UInt8} {program : Program}
    (decoded : decode bytes = .ok program) :
    ∃ listed after, Cursor.listing bytes.length (.start bytes) = .ok listed after ∧
      program = listed.map Prod.snd := by
  unfold decode listing at decoded
  split at decoded
  · rename_i listed after read
    cases decoded
    exact ⟨listed, after, read, rfl⟩
  · exact nomatch decoded

/-- A program that has been decoded is encoded as the bytes that it came from. -/
theorem encode_of_decode {bytes : List UInt8} {program : Program}
    (decoded : decode bytes = .ok program) : encode program = .ok bytes := by
  rcases decode_eq_ok decoded with ⟨listed, after, read, rfl⟩
  rcases Cursor.listing_eq_ok read with ⟨⟨passed, passes, encoded⟩, ends⟩
  have all : bytes = passed := by
    have split := passes.remaining
    rwa [ends (Nat.le_refl _), List.append_nil] at split
  rw [encode, encoded, all]

/-- Pushes of all forms, one of them without literals, and a call. -/
theorem encode_of_decode_pushes :
    encode [.push ⟨.bytes, .inline, [1, 255]⟩, .push ⟨.words, .inline, [-2]⟩,
        .push ⟨.bytes, .counted, []⟩, .push ⟨.words, .counted, [256]⟩, .control .call] =
      .ok [0xB1, 0x01, 0xFF, 0xB8, 0xFF, 0xFE, 0x40, 0x00, 0x41, 0x01, 0x01, 0x00, 0x2B] :=
  encode_of_decode rfl

end Hinting
