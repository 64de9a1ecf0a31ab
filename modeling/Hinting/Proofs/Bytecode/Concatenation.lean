import Hinting.Proofs.Bytecode.Reading
import Hinting.Proofs.Bytecode.Writing

/-!
Bytecode behind bytecode.

Of the position of a cursor nothing shows but the offsets of malformations. What follows a whole
program is therefore read as it is read alone.
-/

namespace Hinting

/-! ## Further positions -/

def Malformation.behind (distance : Nat) (malformation : Malformation) : Malformation :=
  { malformation with offset := distance + malformation.offset }

namespace Cursor

def behind (distance : Nat) (cursor : Cursor) : Cursor :=
  { cursor with position := distance + cursor.position }

def outcomeBehind (distance : Nat) :
    EStateM.Result Malformation Cursor α → EStateM.Result Malformation Cursor α
  | .ok result after => .ok result (after.behind distance)
  | .error malformation after => .error (malformation.behind distance) (after.behind distance)

/-- Reading with `distance` more bytes in front differs in positions only. -/
def Moves (distance : Nat) (moved reader : Reader α) : Prop :=
  ∀ cursor, moved (cursor.behind distance) = outcomeBehind distance (reader cursor)

namespace Moves

variable {distance : Nat}

theorem pure (result : α) : Moves distance (pure result : Reader α) (pure result) :=
  fun _ => rfl

theorem throw (malformation : Malformation) :
    Moves distance (throw (malformation.behind distance) : Reader α) (throw malformation) :=
  fun _ => rfl

theorem bind {moved reader : Reader α} {nextMoved next : α → Reader β}
    (first : Moves distance moved reader)
    (rest : ∀ result, Moves distance (nextMoved result) (next result)) :
    Moves distance (moved >>= nextMoved) (reader >>= next) := by
  intro cursor
  rw [bind_apply, bind_apply, first cursor]
  cases reader cursor with
  | ok result after => exact rest result after
  | error malformation after => rfl

theorem get_bind {nextMoved next : Cursor → Reader α}
    (rest : ∀ cursor, Moves distance (nextMoved (cursor.behind distance)) (next cursor)) :
    Moves distance (get >>= nextMoved) (get >>= next) :=
  fun cursor => rest cursor cursor

theorem nextByte? : Moves distance nextByte? nextByte? := by
  rintro ⟨position, remaining⟩
  cases remaining with
  | nil => rfl
  | cons byte remaining => rfl

theorem literals (offset : Nat) (width : PushWidth) (count : Nat) :
    Moves distance (literals (distance + offset) width count) (literals offset width count) := by
  rintro ⟨position, remaining⟩
  unfold Cursor.literals
  dsimp only [behind]
  split
  · rw [Nat.add_assoc]
    rfl
  · rfl

theorem nextInstruction? : Moves distance nextInstruction? nextInstruction? := by
  rw [Cursor.nextInstruction?]
  refine get_bind fun cursor => ?_
  refine bind nextByte? fun first => ?_
  cases first with
  | none => exact pure none
  | some opcode =>
      dsimp only
      cases OpcodeClass.ofByte? opcode with
      | none => exact throw ⟨cursor.position, .unrecognizedOpcode opcode⟩
      | some opcodeClass =>
          cases opcodeClass with
          | bare instruction => exact pure (some instruction)
          | inlinePush width count =>
              exact bind (literals cursor.position width count) fun _ => pure _
          | countedPush width =>
              refine bind nextByte? fun second => ?_
              cases second with
              | none => exact throw ⟨cursor.position, .missingCount⟩
              | some count =>
                  exact bind (literals cursor.position width count.toNat) fun _ => pure _

end Moves

/-! ## Reading to the end -/

variable {cursor : Cursor}

theorem listing_at_end (limit : Nat) (ended : cursor.remaining = []) :
    listing limit cursor = .ok [] cursor := by
  rcases cursor with ⟨position, remaining⟩
  cases ended
  cases limit with
  | zero => rfl
  | succ limit => rfl

theorem listing_eq_of_le {limit other : Nat} (enough : cursor.remaining.length ≤ limit)
    (otherEnough : cursor.remaining.length ≤ other) :
    listing limit cursor = listing other cursor := by
  induction limit generalizing other cursor with
  | zero =>
      have ended := List.eq_nil_of_length_eq_zero (Nat.le_zero.mp enough)
      rw [listing_at_end _ ended, listing_at_end _ ended]
  | succ limit induction =>
      cases other with
      | zero =>
          have ended := List.eq_nil_of_length_eq_zero (Nat.le_zero.mp otherEnough)
          rw [listing_at_end _ ended, listing_at_end _ ended]
      | succ other =>
          rw [listing, listing, get_bind_apply, get_bind_apply, bind_apply, bind_apply]
          cases next : nextInstruction? cursor with
          | error malformation after => rfl
          | ok found after =>
              rcases nextInstruction?_eq_ok next with
                ⟨rfl, _, _⟩ | ⟨instruction, opcode, operands, rfl, passes, _⟩
              · rfl
              · rw [passes.remaining, List.length_append, List.length_cons] at enough otherEnough
                have same : listing limit after = listing other after :=
                  induction (by omega) (by omega)
                dsimp only
                rw [bind_apply, bind_apply, same]

def instructions (limit : Nat) : Reader Program := do
  return (← listing limit).map Prod.snd

theorem instructions_eq_of_le {limit other : Nat} (enough : cursor.remaining.length ≤ limit)
    (otherEnough : cursor.remaining.length ≤ other) :
    instructions limit cursor = instructions other cursor := by
  rw [instructions, instructions, bind_apply, bind_apply, listing_eq_of_le enough otherEnough]

theorem instructions_succ {limit : Nat} {instruction : Instruction} {after : Cursor}
    (read : nextInstruction? cursor = .ok (some instruction) after) :
    instructions (limit + 1) cursor =
      (do return instruction :: (← instructions limit) : Reader Program) after := by
  rw [instructions, listing, bind_assoc, get_bind_apply]
  dsimp only
  rw [bind_assoc, bind_apply_of_ok read]
  simp only [instructions, bind_assoc, pure_bind, List.map_cons]

theorem instructions_append {program : Program} {offset limit position : Nat}
    {bytes rest : List UInt8} (encoded : encodeFrom offset program = .ok bytes)
    (enough : bytes.length + rest.length ≤ limit) :
    instructions limit ⟨position, bytes ++ rest⟩ =
      (do return program ++ (← instructions rest.length) : Reader Program)
        ⟨position + bytes.length, rest⟩ := by
  induction program generalizing offset limit position bytes with
  | nil =>
      cases encoded
      have same : instructions limit ⟨position, rest⟩ = instructions rest.length ⟨position, rest⟩ :=
        instructions_eq_of_le (by simpa using enough) (Nat.le_refl _)
      simpa using same
  | cons instruction program induction =>
      rcases encodeFrom_cons_eq_ok.mp encoded with ⟨first, others, begins, continues, rfl⟩
      have progress := Instruction.length_pos_of_encode begins
      rw [List.length_append] at enough
      cases limit with
      | zero => omega
      | succ limit =>
          have read : nextInstruction? ⟨position, first ++ (others ++ rest)⟩ =
              .ok (some instruction) ⟨position + first.length, others ++ rest⟩ :=
            nextInstruction?_encode begins
          rw [List.append_assoc, instructions_succ read, bind_apply,
            induction continues (by omega), bind_apply, bind_apply, List.length_append,
            ← Nat.add_assoc]
          cases instructions rest.length ⟨position + first.length + others.length, rest⟩ with
          | ok others after => rfl
          | error malformation after => rfl

theorem Moves.instructions {distance : Nat} (limit : Nat) :
    Moves distance (instructions limit) (instructions limit) := by
  induction limit with
  | zero => exact pure []
  | succ limit induction =>
      rw [Cursor.instructions, listing]
      simp only [bind_assoc]
      refine get_bind fun cursor => ?_
      refine bind nextInstruction? fun first => ?_
      cases first with
      | none => exact pure []
      | some instruction =>
          have more := induction.bind fun program => pure (instruction :: program)
          simpa only [Cursor.instructions, bind_assoc, pure_bind, List.map_cons] using more

end Cursor

/-! ## Whole programs -/

def readingResult : EStateM.Result Malformation Cursor α → Except Malformation α
  | .ok result _ => .ok result
  | .error malformation _ => .error malformation

theorem decode_eq (bytes : List UInt8) :
    decode bytes = readingResult (Cursor.instructions bytes.length (.start bytes)) := by
  rw [decode, listing, Cursor.instructions, bind_apply]
  cases Cursor.listing bytes.length (.start bytes) with
  | ok listed after => rfl
  | error malformation after => rfl

theorem encodeFrom_of_decode {bytes : List UInt8} {program : Program}
    (decoded : decode bytes = .ok program) (offset : Nat) :
    encodeFrom offset program = .ok bytes := by
  rcases decode_eq_ok decoded with ⟨listed, after, read, rfl⟩
  rcases Cursor.listing_eq_ok read with ⟨⟨passed, passes, encoded⟩, ends⟩
  have all : bytes = passed := by
    have split := passes.remaining
    rwa [ends (Nat.le_refl _), List.append_nil] at split
  rw [encoded, all]

/-- Bytes behind a program are decoded as they are alone, up to the offset of a malformation. -/
theorem decode_behind {front : List UInt8} {program : Program}
    (decoded : decode front = .ok program) (back : List UInt8) :
    decode (front ++ back) =
      ((decode back).map (program ++ ·)).mapError (Malformation.behind front.length) := by
  have passed : Cursor.instructions (front.length + back.length) ⟨0, front ++ back⟩ =
      (do return program ++ (← Cursor.instructions back.length) : Reader Program)
        ⟨0 + front.length, back⟩ :=
    Cursor.instructions_append (encodeFrom_of_decode decoded 0) (Nat.le_refl _)
  have moved : Cursor.Moves front.length _ _ := .instructions back.length
  have further : (⟨0 + front.length, back⟩ : Cursor) = (Cursor.start back).behind front.length := by
    rw [Cursor.behind, Cursor.start, Nat.add_comm]
  rw [decode_eq, decode_eq, Cursor.start, List.length_append, passed, bind_apply, further, moved]
  cases Cursor.instructions back.length (.start back) with
  | ok rest after => rfl
  | error malformation after => rfl

/-- Decoding goes on behind a program as if the rest stood alone: with the instructions of the rest,
or with its defect, which is reported behind all bytes of the program. -/
theorem decode_append {front back : List UInt8} {program : Program}
    (decoded : decode front = .ok program) :
    (∀ rest, decode back = .ok rest → decode (front ++ back) = .ok (program ++ rest)) ∧
      ∀ malformation, decode back = .error malformation →
        decode (front ++ back) =
          .error ⟨front.length + malformation.offset, malformation.defect⟩ := by
  constructor
  · intro rest decodedBack
    rw [decode_behind decoded, decodedBack]
    rfl
  · intro malformation refused
    rw [decode_behind decoded, refused]
    rfl

/-- A push and a call behind it, and a push of three literals with one byte left. -/
theorem decode_append_push :
    decode ([0xB1, 0x01, 0x05] ++ [0x2B]) =
        .ok ([.push (.ofBytes [1, 5])] ++ [.control .call]) ∧
      decode ([0xB1, 0x01, 0x05] ++ [0x20, 0x40, 0x03, 0x01]) =
        .error ⟨3 + 1, .truncatedPush 3 3 1⟩ :=
  ⟨(decode_append rfl).1 _ rfl, (decode_append rfl).2 ⟨1, .truncatedPush 3 3 1⟩ rfl⟩

end Hinting
