import Hinting.Proofs.Bytecode.Reading
import Hinting.Proofs.Bytecode.Writing
import Mathlib.Logic.Function.Iterate

/-!
Reading on after malformations.

A failing read leaves its cursor behind an opcode or a literal count, and the next read begins there
whatever these bytes were meant to be. Still no read leaves the bytes or goes back, and each of them
comes closer to the end.
-/

namespace Hinting

namespace Cursor

/-! ## Readers that do not go back -/

/-- Whether it succeeds or fails, the reading moves the cursor on over some bytes or leaves it. -/
def GoesForward (reader : Reader α) : Prop :=
  ∀ cursor, ∃ passed, Passes cursor passed (stateAfter (reader cursor))

namespace GoesForward

theorem pure (result : α) : GoesForward (pure result : Reader α) :=
  fun cursor => ⟨[], .refl cursor⟩

theorem throw (malformation : Malformation) : GoesForward (throw malformation : Reader α) :=
  fun cursor => ⟨[], .refl cursor⟩

theorem bind {reader : Reader α} {next : α → Reader β} (first : GoesForward reader)
    (rest : ∀ result, GoesForward (next result)) : GoesForward (reader >>= next) := by
  intro cursor
  rcases first cursor with ⟨passed, passes⟩
  rw [bind_apply]
  cases ends : reader cursor with
  | ok result between =>
      rw [ends] at passes
      rcases rest result between with ⟨more, passesMore⟩
      exact ⟨passed ++ more, passes.trans passesMore⟩
  | error malformation between =>
      rw [ends] at passes
      exact ⟨passed, passes⟩

theorem nextByte? : GoesForward nextByte? := by
  rintro ⟨position, remaining⟩
  cases remaining with
  | nil => exact ⟨[], .refl _⟩
  | cons byte remaining => exact ⟨[byte], nextByte?_eq_some nextByte?_cons⟩

theorem literals (offset : Nat) (width : PushWidth) (count : Nat) :
    GoesForward (literals offset width count) := by
  intro cursor
  cases read : Cursor.literals offset width count cursor with
  | ok values after =>
      rcases literals_eq_ok read with ⟨raw, passes, _, _⟩
      exact ⟨raw, passes⟩
  | error malformation after =>
      unfold Cursor.literals at read
      dsimp only at read
      split at read
      · cases read
      · cases read
        exact ⟨[], .refl cursor⟩

end GoesForward

/-! ## One instruction -/

variable {bytes : List UInt8} {cursor after : Cursor}

theorem nextInstruction?_of_ended (ended : cursor.remaining = []) :
    nextInstruction? cursor = .ok none cursor := by
  rcases cursor with ⟨position, remaining⟩
  cases ended
  rfl

theorem nextInstruction?_eq_none_iff :
    (∃ after, nextInstruction? cursor = .ok none after) ↔ cursor.remaining = [] := by
  constructor
  · rintro ⟨after, read⟩
    rcases nextInstruction?_eq_ok read with ⟨_, ended, _⟩ | ⟨_, _, _, impossible, _⟩
    · exact ended
    · cases impossible
  · intro ended
    exact ⟨cursor, nextInstruction?_of_ended ended⟩

def next (cursor : Cursor) : Cursor := stateAfter (nextInstruction? cursor)

theorem next_of_ended (ended : cursor.remaining = []) : cursor.next = cursor := by
  simp [next, nextInstruction?_of_ended ended, stateAfter]

theorem exists_passes_next (present : cursor.remaining ≠ []) :
    ∃ opcode operands, Passes cursor (opcode :: operands) cursor.next := by
  rcases cursor with ⟨position, _ | ⟨opcode, remaining⟩⟩
  · exact absurd rfl present
  · have passedOpcode : Passes ⟨position, opcode :: remaining⟩ [opcode] ⟨position + 1, remaining⟩ :=
      nextByte?_eq_some nextByte?_cons
    have behindOpcode {reader : Reader (Option Instruction)} (forward : GoesForward reader) :
        ∃ operands, Passes ⟨position, opcode :: remaining⟩ (opcode :: operands)
          (stateAfter (reader ⟨position + 1, remaining⟩)) := by
      rcases forward ⟨position + 1, remaining⟩ with ⟨operands, passes⟩
      exact ⟨operands, passedOpcode.trans passes⟩
    refine ⟨opcode, ?_⟩
    rw [next, nextInstruction?, get_bind_apply, bind_apply_of_ok nextByte?_cons]
    dsimp only
    apply behindOpcode
    cases OpcodeClass.ofByte? opcode with
    | none => exact .throw _
    | some opcodeClass =>
        cases opcodeClass with
        | bare instruction => exact .pure _
        | inlinePush width count => exact (GoesForward.literals _ _ _).bind fun _ => .pure _
        | countedPush width =>
            apply GoesForward.nextByte?.bind
            intro count?
            cases count? with
            | none => exact .throw _
            | some count => exact (GoesForward.literals _ _ _).bind fun _ => .pure _

/-! ## Places in the bytes -/

structure Inside (bytes : List UInt8) (cursor : Cursor) : Prop where
  position : cursor.position ≤ bytes.length
  remaining : cursor.remaining = bytes.drop cursor.position

theorem inside_start (bytes : List UInt8) : Inside bytes (.start bytes) :=
  ⟨Nat.zero_le _, rfl⟩

namespace Inside

theorem ended_iff (inside : Inside bytes cursor) :
    cursor.remaining = [] ↔ cursor.position = bytes.length := by
  have bounded := inside.position
  rw [inside.remaining, List.drop_eq_nil_iff]
  omega

theorem passes {passed : List UInt8} (inside : Inside bytes cursor)
    (passes : Passes cursor passed after) : Inside bytes after := by
  have split : bytes.drop cursor.position = passed ++ after.remaining :=
    inside.remaining.symm.trans passes.remaining
  constructor
  · have lengths := congrArg List.length split
    have bounded := inside.position
    have moved := passes.position
    rw [List.length_drop, List.length_append] at lengths
    omega
  · rw [passes.position, ← List.drop_drop, split, List.drop_left]

theorem next (inside : Inside bytes cursor) : Inside bytes cursor.next := by
  by_cases ended : cursor.remaining = []
  · rwa [next_of_ended ended]
  · rcases exists_passes_next ended with ⟨opcode, operands, passes⟩
    exact inside.passes passes

theorem encode_of_read (inside : Inside bytes cursor) {instruction : Instruction}
    (read : nextInstruction? cursor = .ok (some instruction) after) :
    ∃ passed, encode [instruction] = .ok passed ∧
      after.position = cursor.position + passed.length ∧
      bytes.drop cursor.position = passed ++ bytes.drop after.position := by
  rcases nextInstruction?_eq_ok read with
    ⟨impossible, _⟩ | ⟨found, opcode, operands, same, passes, encoded⟩
  · cases impossible
  · cases same
    refine ⟨opcode :: operands, encode_singleton (encoded 0), passes.position, ?_⟩
    rw [← inside.remaining, ← (inside.passes passes).remaining]
    exact passes.remaining

end Inside

/-! ## Many reads -/

theorem position_lt_next (present : cursor.remaining ≠ []) :
    cursor.position < cursor.next.position := by
  rcases exists_passes_next present with ⟨opcode, operands, passes⟩
  simp [passes.position]

theorem position_le_next (cursor : Cursor) : cursor.position ≤ cursor.next.position := by
  by_cases ended : cursor.remaining = []
  · exact Nat.le_of_eq (congrArg position (next_of_ended ended).symm)
  · exact Nat.le_of_lt (position_lt_next ended)

theorem position_le_iterate (cursor : Cursor) (reads : Nat) :
    cursor.position ≤ (next^[reads] cursor).position := by
  induction reads with
  | zero => exact Nat.le_refl _
  | succ reads induction =>
      rw [Function.iterate_succ_apply']
      exact Nat.le_trans induction (position_le_next _)

theorem Inside.iterate (inside : Inside bytes cursor) (reads : Nat) :
    Inside bytes (Cursor.next^[reads] cursor) := by
  induction reads with
  | zero => exact inside
  | succ reads induction =>
      rw [Function.iterate_succ_apply']
      exact induction.next

/-- There are at least as many bytes passed as there have been reads, until none are left. -/
theorem Inside.le_position_iterate (inside : Inside bytes cursor) (reads : Nat)
    (few : reads ≤ bytes.length) : reads ≤ (Cursor.next^[reads] cursor).position := by
  induction reads with
  | zero => exact Nat.zero_le _
  | succ reads induction =>
      have passed := induction (Nat.le_of_succ_le few)
      have reached := inside.iterate reads
      rw [Function.iterate_succ_apply']
      by_cases ended : (Cursor.next^[reads] cursor).remaining = []
      · rw [next_of_ended ended, reached.ended_iff.mp ended]
        exact few
      · exact Nat.lt_of_le_of_lt passed (position_lt_next ended)

/-- However often it is read from bytes, also behind malformations, the cursor stays within the
bytes and does not go back. A read finds nothing at the end, which the cursor does not leave, and
nowhere else. All other reads go on, and a successful one does so over the bytes that its
instruction is written as. There are at most as many of them as bytes. -/
theorem reads_stay_inside (bytes : List UInt8) (reads : Nat) :
    let cursor : Cursor := next^[reads] (.start bytes)
    (cursor.position ≤ bytes.length ∧ cursor.remaining = bytes.drop cursor.position) ∧
      (∀ more, cursor.position ≤ (next^[more] cursor).position) ∧
      ((∃ after, nextInstruction? cursor = .ok none after) ↔ cursor.position = bytes.length) ∧
      (cursor.position = bytes.length →
        ∀ more, nextInstruction? (next^[more] cursor) = .ok none cursor) ∧
      (cursor.position ≠ bytes.length → cursor.position + 1 ≤ cursor.next.position) ∧
      (∀ instruction after, nextInstruction? cursor = .ok (some instruction) after →
        ∃ passed, encode [instruction] = .ok passed ∧
          after.position = cursor.position + passed.length ∧
          bytes.drop cursor.position = passed ++ bytes.drop after.position) ∧
      (bytes.length ≤ reads → cursor.position = bytes.length) := by
  intro cursor
  have inside : Inside bytes cursor := (inside_start bytes).iterate reads
  refine ⟨⟨inside.position, inside.remaining⟩, cursor.position_le_iterate, ?_, ?_, ?_,
    fun instruction after read => inside.encode_of_read read, ?_⟩
  · rw [nextInstruction?_eq_none_iff, inside.ended_iff]
  · intro finished more
    have ended := inside.ended_iff.mpr finished
    rw [Function.iterate_fixed (next_of_ended ended)]
    exact nextInstruction?_of_ended ended
  · intro unfinished
    exact position_lt_next fun ended => unfinished (inside.ended_iff.mp ended)
  · intro enough
    rcases Nat.exists_eq_add_of_le enough with ⟨more, rfl⟩
    have reached := (inside_start bytes).le_position_iterate bytes.length (Nat.le_refl _)
    have onward := position_le_iterate (next^[bytes.length] (.start bytes)) more
    rw [← Function.iterate_add_apply, Nat.add_comm more] at onward
    exact Nat.le_antisymm inside.position (Nat.le_trans reached onward)

/-- A push that announces three literals, of which two are there. They are read as an instruction
and as a byte that begins none. -/
theorem reads_stay_inside_truncated :
    let bytes : List UInt8 := [0x40, 0x03, 0x21, 0xFF]
    let behindCount := next^[1] (.start bytes)
    nextInstruction? (.start bytes) = .error ⟨0, .truncatedPush 3 3 2⟩ behindCount ∧
      nextInstruction? behindCount = .ok (some (.stack .pop)) behindCount.next ∧
      (∃ passed, encode [.stack .pop] = .ok passed ∧
        behindCount.next.position = behindCount.position + passed.length ∧
        bytes.drop behindCount.position = passed ++ bytes.drop behindCount.next.position) ∧
      behindCount.next.position + 1 ≤ behindCount.next.next.position ∧
      nextInstruction? behindCount.next =
        .error ⟨3, .unrecognizedOpcode 0xFF⟩ (next^[3] (.start bytes)) ∧
      (next^[4] (.start bytes)).position = 4 ∧
      ∀ more, nextInstruction? (next^[more] (next^[3] (.start bytes))) =
        .ok none (next^[3] (.start bytes)) := by
  intro bytes behindCount
  rcases reads_stay_inside bytes 1 with ⟨_, _, _, _, _, written, _⟩
  rcases reads_stay_inside bytes 2 with ⟨_, _, _, _, onward, _, _⟩
  rcases reads_stay_inside bytes 3 with ⟨_, _, _, ends, _, _, _⟩
  rcases reads_stay_inside bytes 4 with ⟨_, _, _, _, _, _, exhausted⟩
  have third : (next^[3] (.start bytes)).position = bytes.length := by decide
  have second : (next^[2] (.start bytes)).position ≠ bytes.length := by decide
  exact ⟨rfl, rfl, written _ _ rfl, onward second, rfl, exhausted (Nat.le_refl _), ends third⟩

end Cursor

end Hinting
