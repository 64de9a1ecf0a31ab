import Hinting.Bytecode.Decode
import Hinting.Proofs.Checked.Partial

/-!
Bytecode that is read at positions.

All bytes stay at hand, and what is read from them is cut out at the position that has been reached.
The position does not leave the bytes.
-/

namespace Hinting.Checked

/-! ## Literals -/

/-- The bytes in twos. One that is left over is dropped. -/
def pairs : List UInt8 → List (List UInt8)
  | first :: second :: raw => [first, second] :: pairs raw
  | _ => []

def literalsOf? : PushWidth → List UInt8 → Option (List Int32)
  | .bytes, raw => some (raw.map fun byte => .ofNat byte.toNat)
  | .words, raw => (pairs raw).mapM fun pair => do
      let high ← pair[0]?
      let low ← pair[1]?
      return PushWidth.wordLiteral high low

theorem literalsOf?_eq (width : PushWidth) (raw : List UInt8) :
    literalsOf? width raw = some (width.literalsOf raw) := by
  cases width with
  | bytes => rw [literalsOf?, PushWidth.literalsOf]
  | words =>
      rw [literalsOf?]
      fun_induction pairs raw with
      | case1 high low raw induction =>
          rw [List.mapM_cons, induction]
          rfl
      | case2 raw short =>
          rcases raw with _ | ⟨first, _ | ⟨second, raw⟩⟩
          · rfl
          · rfl
          · exact absurd rfl (short first second raw)

/-! ## Reading -/

def classify? (opcode : UInt8) : Option (Option OpcodeClass) :=
  ((List.range 256).map fun byte => OpcodeClass.ofByte? (.ofNat byte))[opcode.toNat]?

theorem classify?_eq (opcode : UInt8) : classify? opcode = some (OpcodeClass.ofByte? opcode) := by
  rw [classify?, List.getElem?_map, List.getElem?_range opcode.toNat_lt, Option.map_some,
    UInt8.ofNat_toNat]

def nextByte? (bytes : List UInt8) : Checked Malformation Nat (Option UInt8) := do
  let position ← get
  match bytes[position]? with
  | some byte => do
      set (position + 1)
      return some byte
  | none => return none

def literals (bytes : List UInt8) (offset : Nat) (width : PushWidth) (count : Nat) :
    Checked Malformation Nat (List Int32) := do
  let position ← get
  let size := count * width.size
  if bytes.length < position + size then do
    let left ← defined (subtract? bytes.length position)
    throw (.failure ⟨offset, .truncatedPush count size left⟩)
  else do
    let raw ← defined (slice? bytes position (position + size))
    let values ← defined (literalsOf? width raw)
    set (position + size)
    return values

def nextInstruction? (bytes : List UInt8) : Checked Malformation Nat (Option Instruction) := do
  let offset ← get
  let some opcode ← nextByte? bytes | return none
  match ← defined (classify? opcode) with
  | some (.bare instruction) => return some instruction
  | some (.countedPush width) => do
      let some count ← nextByte? bytes | throw (.failure ⟨offset, .missingCount⟩)
      return some (.push ⟨width, .counted, ← literals bytes offset width count.toNat⟩)
  | some (.inlinePush width count) =>
      return some (.push ⟨width, .inline, ← literals bytes offset width count⟩)
  | none => throw (.failure ⟨offset, .unrecognizedOpcode opcode⟩)

def instructions (bytes : List UInt8) : (limit : Nat) → Checked Malformation Nat Program
  | 0 => return []
  | limit + 1 => do
      let some instruction ← nextInstruction? bytes | return []
      return instruction :: (← instructions bytes limit)

def decode? (bytes : List UInt8) : Option (Except Malformation Program) :=
  match instructions bytes bytes.length 0 with
  | .ok program _ => some (.ok program)
  | .error (.failure malformation) _ => some (.error malformation)
  | .error .undefined _ => none

/-! ## Positions and cursors -/

section

variable {bytes : List UInt8}

/-- The outcomes are the same, at a position of the bytes and at a cursor with the rest of them. -/
inductive SameReading (bytes : List UInt8) :
    EStateM.Result (Halt Malformation) Nat α → EStateM.Result Malformation Cursor α → Prop
  | ok (result : α) {position : Nat} (inside : position ≤ bytes.length) :
      SameReading bytes (.ok result position) (.ok result ⟨position, bytes.drop position⟩)
  | error (malformation : Malformation) {position : Nat} (inside : position ≤ bytes.length) :
      SameReading bytes (.error (.failure malformation) position)
        (.error malformation ⟨position, bytes.drop position⟩)

/-- Reading from any position is reading from the cursor there. -/
def Mirrors (bytes : List UInt8) (action : Checked Malformation Nat α) (reader : Reader α) : Prop :=
  ∀ position, position ≤ bytes.length →
    SameReading bytes (action position) (reader ⟨position, bytes.drop position⟩)

namespace Mirrors

theorem pure (result : α) : Mirrors bytes (pure result) (pure result) :=
  fun _ inside => .ok result inside

theorem throw (malformation : Malformation) :
    Mirrors bytes (throw (.failure malformation) : Checked Malformation Nat α)
      (throw malformation) :=
  fun _ inside => .error malformation inside

theorem bind {action : Checked Malformation Nat α} {reader : Reader α}
    {next : α → Checked Malformation Nat β} {nextReader : α → Reader β}
    (first : Mirrors bytes action reader)
    (rest : ∀ result, Mirrors bytes (next result) (nextReader result)) :
    Mirrors bytes (action >>= next) (reader >>= nextReader) := by
  intro position inside
  have same := first position inside
  rw [bind_apply, bind_apply]
  generalize action position = left at same
  generalize reader ⟨position, bytes.drop position⟩ = right at same
  cases same with
  | ok result inside => exact rest result _ inside
  | error malformation inside => exact .error malformation inside

theorem get_bind {next : Nat → Checked Malformation Nat β} {nextReader : Cursor → Reader β}
    (rest : ∀ position,
      Mirrors bytes (next position) (nextReader ⟨position, bytes.drop position⟩)) :
    Mirrors bytes (get >>= next) (get >>= nextReader) :=
  fun position inside => rest position position inside

theorem nextByte? : Mirrors bytes (nextByte? bytes) Cursor.nextByte? := by
  intro position inside
  rw [Checked.nextByte?, get_bind_apply, Cursor.nextByte?]
  by_cases more : position < bytes.length
  · rw [List.getElem?_eq_getElem more, List.drop_eq_getElem_cons more]
    exact .ok (some bytes[position]) more
  · have last : bytes.drop position = [] := List.drop_eq_nil_of_le (Nat.le_of_not_lt more)
    have read : SameReading bytes (.ok (none : Option UInt8) position)
        (.ok none ⟨position, bytes.drop position⟩) := .ok none inside
    rw [last] at read
    rw [List.getElem?_eq_none (Nat.le_of_not_lt more), last]
    exact read

theorem literals (offset : Nat) (width : PushWidth) (count : Nat) :
    Mirrors bytes (literals bytes offset width count) (Cursor.literals offset width count) := by
  intro position inside
  rw [Checked.literals, get_bind_apply, Cursor.literals]
  dsimp only
  rw [List.length_take, List.length_drop]
  by_cases short : bytes.length < position + count * width.size
  · have left : ¬min (count * width.size) (bytes.length - position) = count * width.size := by
      omega
    rw [if_pos short, if_neg left, subtract?_of_le inside]
    exact .error _ inside
  · have enough : min (count * width.size) (bytes.length - position) = count * width.size := by
      omega
    have cut : slice? bytes position (position + count * width.size) =
        some ((bytes.drop position).take (count * width.size)) := by
      rw [slice?, if_pos ⟨Nat.le_add_right _ _, Nat.le_of_not_lt short⟩, List.drop_take,
        Nat.add_sub_cancel_left]
    rw [if_neg short, if_pos enough, cut, defined_some, pure_bind, literalsOf?_eq, List.drop_drop]
    exact .ok _ (Nat.le_of_not_lt short)

theorem nextInstruction? : Mirrors bytes (nextInstruction? bytes) Cursor.nextInstruction? := by
  rw [Checked.nextInstruction?, Cursor.nextInstruction?]
  refine get_bind fun offset => ?_
  refine bind nextByte? fun first => ?_
  cases first with
  | none => exact pure none
  | some opcode =>
      dsimp only
      rw [classify?_eq, defined_some, pure_bind]
      cases OpcodeClass.ofByte? opcode with
      | none => exact throw _
      | some begun =>
          cases begun with
          | bare instruction => exact pure _
          | inlinePush width count =>
              exact bind (literals offset width count) fun _ => pure _
          | countedPush width =>
              refine bind nextByte? fun second => ?_
              cases second with
              | none => exact throw _
              | some count =>
                  exact bind (literals offset width count.toNat) fun _ => pure _

theorem instructions (limit : Nat) :
    Mirrors bytes (instructions bytes limit)
      (do return (← Cursor.listing limit).map Prod.snd) := by
  induction limit with
  | zero => exact pure []
  | succ limit induction =>
      rw [Checked.instructions, Cursor.listing]
      simp only [bind_assoc]
      intro position inside
      rw [get_bind_apply]
      refine (nextInstruction?.bind fun first => ?_) position inside
      cases first with
      | none => exact pure []
      | some instruction =>
          have more := induction.bind fun program => @pure _ _ (instruction :: program)
          simpa only [bind_assoc, pure_bind, List.map_cons] using more

end Mirrors

theorem decode?_eq (bytes : List UInt8) : decode? bytes = some (decode bytes) := by
  have same := Mirrors.instructions bytes.length 0 (Nat.zero_le bytes.length)
  rw [decode?, decode, Hinting.listing, Cursor.start]
  rw [List.drop_zero, bind_apply] at same
  generalize instructions bytes bytes.length 0 = outcome at same
  cases read : Cursor.listing bytes.length ⟨0, bytes⟩ with
  | ok found cursor =>
      rw [read] at same
      cases same
      rfl
  | error malformation cursor =>
      rw [read] at same
      cases same
      rfl

end

end Hinting.Checked
