import Hinting.Proofs.Bytecode.Encoding
import Hinting.Proofs.Stateful

/-!
The programs that have bytecode, and how it is read back.

A push may hold any numbers and any number of them, so that not every program can be
written. What is written for a program is read as that program.
-/

namespace Hinting

theorem except_bind_eq_ok {first : Except ε α} {next : α → Except ε β} {result : β} :
    (first >>= next) = .ok result ↔ ∃ middle, first = .ok middle ∧ next middle = .ok result := by
  cases first with
  | error failure =>
      constructor
      · intro impossible
        exact nomatch impossible
      · rintro ⟨_, ends, _⟩
        exact nomatch ends
  | ok middle =>
      constructor
      · intro continued
        exact ⟨middle, rfl, continued⟩
      · rintro ⟨_, ⟨⟩, continued⟩
        exact continued

theorem except_bind_eq_error {first : Except ε α} {next : α → Except ε β} {failure : ε} :
    (first >>= next) = .error failure ↔
      first = .error failure ∨ ∃ middle, first = .ok middle ∧ next middle = .error failure := by
  cases first with
  | error other =>
      constructor
      · rintro ⟨⟩
        exact .inl rfl
      · rintro (⟨⟨⟩⟩ | ⟨_, impossible, _⟩)
        · rfl
        · cases impossible
  | ok middle =>
      constructor
      · intro failed
        exact .inr ⟨middle, rfl, failed⟩
      · rintro (impossible | ⟨_, ⟨⟩, failed⟩)
        · cases impossible
        · exact failed

/-! ## Opcodes -/

namespace OpcodeClass

/-- No byte stands in the table twice. -/
theorem ofByte?_eq_some_iff {byte : UInt8} {opcodeClass : OpcodeClass} :
    ofByte? byte = some opcodeClass ↔ (byte, opcodeClass) ∈ table := by
  rw [ofByte?, List.lookup_eq_some_iff]
  constructor
  · rintro ⟨before, behind, split, _⟩
    rw [split]
    exact List.mem_append_right before List.mem_cons_self
  · intro member
    rcases List.append_of_mem member with ⟨before, behind, split⟩
    refine ⟨before, behind, split, fun other earlier => ?_⟩
    have distinct := table_opcodes_nodup
    rw [split, List.map_append, List.map_cons, List.nodup_append] at distinct
    exact bne_iff_ne.mpr
      (distinct.2.2 _ (List.mem_map_of_mem earlier) _ List.mem_cons_self).symm

theorem ofByte?_countedOpcode (width : PushWidth) :
    ofByte? (Push.countedOpcode width) = some (countedPush width) := by
  cases width <;> rfl

theorem ofByte?_inlineOpcode (width : PushWidth) {count : Nat} (positive : 1 ≤ count)
    (small : count ≤ Push.maxInlineCount) :
    ofByte? (Push.inlineOpcode width + .ofNat (count - 1)) = some (inlinePush width count) := by
  rw [ofByte?_eq_some_iff, table, List.mem_append]
  right
  rw [List.mem_flatMap]
  refine ⟨width, by cases width <;> decide, List.mem_map.mpr ⟨count - 1, ?_, ?_⟩⟩
  · rw [List.mem_range]
    omega
  · rw [Nat.sub_add_cancel positive]

theorem ofByte?_of_encode {instruction : Instruction} {offset : Nat} {bytes : List UInt8}
    (bare : ∀ push, instruction ≠ .push push) (encoded : instruction.encode offset = .ok bytes) :
    ∃ opcode, bytes = [opcode] ∧ ofByte? opcode = some (.bare instruction) := by
  cases instruction with
  | push literals => exact absurd rfl (bare literals)
  | stack operation =>
      cases encoded
      exact ⟨_, rfl, by cases operation <;> rfl⟩
  | unary operation =>
      cases encoded
      exact ⟨_, rfl, by cases operation <;> rfl⟩
  | binary operation =>
      cases encoded
      exact ⟨_, rfl, by cases operation <;> rfl⟩
  | storage operation =>
      cases encoded
      exact ⟨_, rfl, by cases operation <;> rfl⟩
  | control operation =>
      cases encoded
      exact ⟨_, rfl, by cases operation <;> rfl⟩

end OpcodeClass

/-! ## Literals -/

namespace PushWidth

def Fits (width : PushWidth) (literal : Int32) : Prop :=
  match width with
  | bytes => 0 ≤ literal.toInt ∧ literal.toInt ≤ 255
  | words => -32768 ≤ literal.toInt ∧ literal.toInt ≤ 32767

theorem exists_encodeLiteral?_iff {width : PushWidth} {literal : Int32} :
    (∃ chunk, width.encodeLiteral? literal = some chunk) ↔ width.Fits literal := by
  cases width with
  | bytes =>
      simp only [encodeLiteral?, Fits, Option.ite_none_right_eq_some, exists_and_left,
        Option.some.injEq, exists_eq', and_true]
      omega
  | words =>
      simp only [encodeLiteral?, Fits, Option.ite_none_right_eq_some, exists_and_left,
        Option.some.injEq, exists_eq', and_true]
      omega

theorem literalsOf_append {width : PushWidth} {literal : Int32} {chunk : List UInt8}
    (encoded : width.encodeLiteral? literal = some chunk) (raw : List UInt8) :
    width.literalsOf (chunk ++ raw) = literal :: width.literalsOf raw ∧
      chunk.length = width.size := by
  cases width with
  | bytes =>
      simp only [encodeLiteral?, Option.ite_none_right_eq_some, Option.some.injEq] at encoded
      rcases encoded with ⟨⟨lower, upper⟩, rfl⟩
      refine ⟨?_, rfl⟩
      rw [literalsOf, literalsOf, List.singleton_append, List.map_cons]
      congr 1
      rw [← Int32.toInt_inj, toInt_byteLiteral, UInt8.toNat_ofNat']
      omega
  | words =>
      simp only [encodeLiteral?, Option.ite_none_right_eq_some, Option.some.injEq] at encoded
      rcases encoded with ⟨⟨lower, upper⟩, rfl⟩
      refine ⟨?_, rfl⟩
      rw [List.cons_append, List.cons_append, List.nil_append, literalsOf]
      congr 1
      rw [← Int32.toInt_inj, toInt_wordLiteral, UInt8.toNat_ofNat', UInt8.toNat_ofNat']
      -- The two bytes hold the literal modulo 2 ^ 16, which has one signed representative.
      have word : (literal.toInt % 65536).toNat / 256 % 2 ^ 8 * 256 +
          (literal.toInt % 65536).toNat % 256 % 2 ^ 8 = (literal.toInt % 65536).toNat := by omega
      have reduced : (literal.toInt % 65536).bmod 65536 = literal.toInt.bmod 65536 :=
        Int.emod_bmod literal.toInt 65536
      rw [word, Int.toNat_of_nonneg (by omega), reduced]
      exact Int.bmod_eq_of_le (by omega) (by omega)

theorem literalsOf_flatten {width : PushWidth} {literals : List Int32}
    {chunks : List (List UInt8)}
    (encoded : literals.map width.encodeLiteral? = chunks.map some) :
    width.literalsOf chunks.flatten = literals ∧
      chunks.flatten.length = literals.length * width.size := by
  induction literals generalizing chunks with
  | nil =>
      cases chunks with
      | nil => exact ⟨by cases width <;> rfl, (Nat.zero_mul _).symm⟩
      | cons _ _ => exact nomatch encoded
  | cons literal literals induction =>
      cases chunks with
      | nil => exact nomatch encoded
      | cons chunk chunks =>
          rcases List.cons.inj encoded with ⟨first, others⟩
          rcases literalsOf_append first chunks.flatten with ⟨read, size⟩
          rcases induction others with ⟨readOthers, sizeOthers⟩
          constructor
          · rw [List.flatten_cons, read, readOthers]
          · rw [List.flatten_cons, List.length_append, List.length_cons, size, sizeOthers,
              Nat.succ_mul, Nat.add_comm]

end PushWidth

/-! ## Pushes -/

namespace Push

structure Representable (push : Push) : Prop where
  inline : push.form = .inline → 1 ≤ push.literals.length ∧ push.literals.length ≤ 8
  counted : push.form = .counted → push.literals.length ≤ 255
  literals : ∀ literal ∈ push.literals, push.width.Fits literal

theorem opcode_eq_ok_iff {push : Push} {byte : UInt8} :
    push.opcode = .ok byte ↔
      (push.form = .inline ∧ (1 ≤ push.literals.length ∧ push.literals.length ≤ maxInlineCount) ∧
        byte = inlineOpcode push.width + .ofNat (push.literals.length - 1)) ∨
      push.form = .counted ∧ push.literals.length ≤ 255 ∧ byte = countedOpcode push.width := by
  rw [opcode]
  cases push.form with
  | counted =>
      dsimp only
      split
      · rename_i small
        simp [small, eq_comm]
      · rename_i large
        simp [large]
  | inline =>
      dsimp only
      split
      · rename_i carried
        simp [carried, eq_comm]
      · rename_i beyond
        simp [beyond]

theorem map_encodeLiteral?_of_mapM {encode? : Int32 → Option (List UInt8)}
    {refuse : Int32 → Malformation} {literals : List Int32} {chunks : List (List UInt8)}
    (encoded : literals.mapM (fun literal =>
      match encode? literal with
      | some bytes => Except.ok bytes
      | none => .error (refuse literal)) = .ok chunks) :
    literals.map encode? = chunks.map some := by
  induction literals generalizing chunks with
  | nil =>
      cases encoded
      rfl
  | cons literal literals induction =>
      rw [List.mapM_cons] at encoded
      rcases except_bind_eq_ok.mp encoded with ⟨chunk, first, encoded⟩
      rcases except_bind_eq_ok.mp encoded with ⟨others, rest, encoded⟩
      cases encoded
      rw [List.map_cons, List.map_cons, induction rest]
      cases known : encode? literal with
      | none =>
          rw [known] at first
          exact nomatch first
      | some bytes =>
          rw [known] at first
          cases first
          rfl

theorem exists_map_some {encode? : Int32 → Option (List UInt8)} {literals : List Int32}
    (encodes : ∀ literal ∈ literals, (encode? literal).isSome) :
    ∃ chunks : List (List UInt8), literals.map encode? = chunks.map some := by
  induction literals with
  | nil => exact ⟨[], rfl⟩
  | cons literal literals induction =>
      rcases List.forall_mem_cons.mp encodes with ⟨first, others⟩
      rcases Option.isSome_iff_exists.mp first with ⟨chunk, encoded⟩
      rcases induction others with ⟨chunks, encodedOthers⟩
      exact ⟨chunk :: chunks, by rw [List.map_cons, List.map_cons, encoded, encodedOthers]⟩

theorem encode_eq_ok_iff {push : Push} {offset : Nat} {bytes : List UInt8} :
    push.encode offset = .ok bytes ↔
      ∃ opcode, ∃ chunks : List (List UInt8), push.opcode = .ok opcode ∧
        push.literals.map push.width.encodeLiteral? = chunks.map some ∧
          bytes = opcode :: push.countBytes ++ chunks.flatten := by
  constructor
  · intro encoded
    rw [encode] at encoded
    rcases except_bind_eq_ok.mp encoded with ⟨opcode, opened, encoded⟩
    rcases except_bind_eq_ok.mp encoded with ⟨chunks, written, encoded⟩
    cases encoded
    exact ⟨opcode, chunks, opened, map_encodeLiteral?_of_mapM written, rfl⟩
  · rintro ⟨opcode, chunks, opened, written, rfl⟩
    exact encode_eq_ok opened written offset

theorem exists_encode_iff {push : Push} {offset : Nat} :
    (∃ bytes, push.encode offset = .ok bytes) ↔ push.Representable := by
  simp only [encode_eq_ok_iff]
  constructor
  · rintro ⟨_, opcode, chunks, opened, written, _⟩
    refine ⟨fun inline => ?_, fun counted => ?_, fun literal member => ?_⟩
    · rcases opcode_eq_ok_iff.mp opened with ⟨_, carried, _⟩ | ⟨counted, _⟩
      · exact carried
      · exact nomatch inline.symm.trans counted
    · rcases opcode_eq_ok_iff.mp opened with ⟨inline, _⟩ | ⟨_, small, _⟩
      · exact nomatch inline.symm.trans counted
      · exact small
    · have chunked : push.width.encodeLiteral? literal ∈ chunks.map some := by
        rw [← written]
        exact List.mem_map_of_mem member
      rcases List.mem_map.mp chunked with ⟨chunk, _, encoded⟩
      exact PushWidth.exists_encodeLiteral?_iff.mp ⟨chunk, encoded.symm⟩
  · intro representable
    have opened : ∃ opcode, push.opcode = .ok opcode := by
      cases form : push.form with
      | inline =>
          exact ⟨_, opcode_eq_ok_iff.mpr (.inl ⟨form, representable.inline form, rfl⟩)⟩
      | counted =>
          exact ⟨_, opcode_eq_ok_iff.mpr (.inr ⟨form, representable.counted form, rfl⟩)⟩
    have fits : ∀ literal ∈ push.literals, (push.width.encodeLiteral? literal).isSome := by
      intro literal member
      rw [Option.isSome_iff_exists]
      exact PushWidth.exists_encodeLiteral?_iff.mpr (representable.literals literal member)
    rcases opened with ⟨opcode, opened⟩
    rcases exists_map_some fits with ⟨chunks, written⟩
    exact ⟨_, opcode, chunks, opened, written, rfl⟩

end Push

/-! ## Programs -/

namespace Program

def Representable (program : Program) : Prop :=
  ∀ push, .push push ∈ program → push.Representable

theorem representable_cons {instruction : Instruction} {rest : Program} :
    Representable (instruction :: rest) ↔
      (∀ push, instruction = .push push → push.Representable) ∧ Representable rest := by
  simp only [Representable, List.mem_cons, or_imp, forall_and, eq_comm]

end Program

theorem Instruction.exists_encode_iff {instruction : Instruction} (offset : Nat) :
    (∃ bytes, instruction.encode offset = .ok bytes) ↔
      ∀ push, instruction = .push push → push.Representable := by
  cases instruction with
  | push literals =>
      rw [encode, Push.exists_encode_iff]
      constructor
      · rintro representable _ ⟨⟩
        exact representable
      · intro representable
        exact representable literals rfl
  | _ => exact ⟨fun _ => nofun, fun _ => ⟨_, rfl⟩⟩

theorem Instruction.length_pos_of_encode {instruction : Instruction} {offset : Nat}
    {bytes : List UInt8} (encoded : instruction.encode offset = .ok bytes) :
    0 < bytes.length := by
  cases instruction with
  | push literals =>
      rcases Push.encode_eq_ok_iff.mp encoded with ⟨_, _, _, _, rfl⟩
      exact Nat.succ_pos _
  | _ =>
      cases encoded
      exact Nat.succ_pos _

theorem encodeFrom_cons_eq_ok {instruction : Instruction} {rest : Program} {offset : Nat}
    {bytes : List UInt8} :
    encodeFrom offset (instruction :: rest) = .ok bytes ↔
      ∃ first others, instruction.encode offset = .ok first ∧
        encodeFrom (offset + first.length) rest = .ok others ∧ bytes = first ++ others := by
  rw [encodeFrom]
  simp only [except_bind_eq_ok]
  constructor
  · rintro ⟨first, encoded, others, encodedOthers, ⟨⟩⟩
    exact ⟨first, others, encoded, encodedOthers, rfl⟩
  · rintro ⟨first, others, encoded, encodedOthers, rfl⟩
    exact ⟨first, encoded, others, encodedOthers, rfl⟩

theorem encode_singleton {instruction : Instruction} {bytes : List UInt8}
    (encoded : instruction.encode 0 = .ok bytes) : encode [instruction] = .ok bytes :=
  encodeFrom_cons_eq_ok.mpr ⟨bytes, [], encoded, rfl, (List.append_nil bytes).symm⟩

theorem exists_encodeFrom_iff {program : Program} {offset : Nat} :
    (∃ bytes, encodeFrom offset program = .ok bytes) ↔ program.Representable := by
  induction program generalizing offset with
  | nil =>
      constructor
      · intro _ push member
        exact nomatch member
      · intro _
        exact ⟨[], rfl⟩
  | cons instruction rest induction =>
      rw [Program.representable_cons, ← Instruction.exists_encode_iff offset]
      simp only [encodeFrom_cons_eq_ok]
      constructor
      · rintro ⟨_, first, others, encoded, encodedOthers, _⟩
        exact ⟨⟨first, encoded⟩, induction.mp ⟨others, encodedOthers⟩⟩
      · rintro ⟨⟨first, encoded⟩, representable⟩
        rcases induction.mpr representable with ⟨others, encodedOthers⟩
        exact ⟨_, first, others, encoded, encodedOthers, rfl⟩

/-! ## Reading back -/

namespace Cursor

variable {position : Nat} {rest : List UInt8}

theorem nextByte?_cons {byte : UInt8} :
    nextByte? ⟨position, byte :: rest⟩ = .ok (some byte) ⟨position + 1, rest⟩ := rfl

theorem literals_append (offset : Nat) (width : PushWidth) {count : Nat} {raw : List UInt8}
    (length : raw.length = count * width.size) :
    literals offset width count ⟨position, raw ++ rest⟩ =
      .ok (width.literalsOf raw) ⟨position + raw.length, rest⟩ := by
  rw [literals]
  dsimp only
  rw [← length, List.take_left, List.drop_left, if_pos rfl]

theorem nextInstruction?_bare {instruction : Instruction} {opcode : UInt8}
    (classified : OpcodeClass.ofByte? opcode = some (.bare instruction)) :
    nextInstruction? ⟨position, opcode :: rest⟩ =
      .ok (some instruction) ⟨position + 1, rest⟩ := by
  rw [nextInstruction?, get_bind_apply, bind_apply_of_ok nextByte?_cons]
  dsimp only
  rw [classified]
  rfl

theorem nextInstruction?_inline (position : Nat) (rest : List UInt8) (width : PushWidth)
    {count : Nat} (positive : 1 ≤ count) (small : count ≤ Push.maxInlineCount) {raw : List UInt8}
    (length : raw.length = count * width.size) :
    nextInstruction? ⟨position, (Push.inlineOpcode width + .ofNat (count - 1)) :: (raw ++ rest)⟩ =
      .ok (some (.push ⟨width, .inline, width.literalsOf raw⟩))
        ⟨position + (raw.length + 1), rest⟩ := by
  rw [nextInstruction?, get_bind_apply, bind_apply_of_ok nextByte?_cons]
  dsimp only
  rw [OpcodeClass.ofByte?_inlineOpcode width positive small]
  dsimp only
  rw [bind_apply_of_ok (literals_append position width length), Nat.add_comm raw.length,
    ← Nat.add_assoc]
  rfl

theorem nextInstruction?_counted (position : Nat) (rest : List UInt8) (width : PushWidth)
    (count : UInt8) {raw : List UInt8} (length : raw.length = count.toNat * width.size) :
    nextInstruction? ⟨position, Push.countedOpcode width :: count :: (raw ++ rest)⟩ =
      .ok (some (.push ⟨width, .counted, width.literalsOf raw⟩))
        ⟨position + (raw.length + 2), rest⟩ := by
  rw [nextInstruction?, get_bind_apply, bind_apply_of_ok nextByte?_cons]
  dsimp only
  rw [OpcodeClass.ofByte?_countedOpcode width]
  dsimp only
  rw [bind_apply_of_ok nextByte?_cons]
  dsimp only
  rw [bind_apply_of_ok (literals_append position width length), Nat.add_comm raw.length,
    ← Nat.add_assoc]
  rfl

theorem nextInstruction?_encodePush {push : Push} {offset : Nat} {bytes : List UInt8}
    (encoded : push.encode offset = .ok bytes) :
    nextInstruction? ⟨position, bytes ++ rest⟩ =
      .ok (some (.push push)) ⟨position + bytes.length, rest⟩ := by
  rcases Push.encode_eq_ok_iff.mp encoded with ⟨opcode, chunks, opened, written, rfl⟩
  rcases PushWidth.literalsOf_flatten written with ⟨read, size⟩
  rcases push with ⟨width, form, literals⟩
  rcases Push.opcode_eq_ok_iff.mp opened with
    ⟨inline, ⟨positive, small⟩, opcodeIs⟩ | ⟨counted, small, opcodeIs⟩
  · cases inline
    have next := nextInstruction?_inline position rest width positive small size
    rwa [read, ← opcodeIs] at next
  · cases counted
    have count : (UInt8.ofNat literals.length).toNat = literals.length := by
      rw [UInt8.toNat_ofNat']
      exact Nat.mod_eq_of_lt (Nat.lt_succ_of_le small)
    rw [← count] at size
    have next := nextInstruction?_counted position rest width _ size
    rwa [read, ← opcodeIs] at next

theorem nextInstruction?_encode {instruction : Instruction} {offset : Nat} {bytes : List UInt8}
    (encoded : instruction.encode offset = .ok bytes) :
    nextInstruction? ⟨position, bytes ++ rest⟩ =
      .ok (some instruction) ⟨position + bytes.length, rest⟩ := by
  by_cases bare : ∀ push, instruction ≠ .push push
  · rcases OpcodeClass.ofByte?_of_encode bare encoded with ⟨opcode, rfl, classified⟩
    exact nextInstruction?_bare classified
  · cases instruction with
    | push literals => exact nextInstruction?_encodePush encoded
    | _ => exact absurd (fun _ => nofun) bare

/-- A limit of as many instructions as there are bytes is no limit. -/
theorem listing_encodeFrom (position : Nat) {program : Program} {offset limit : Nat}
    {bytes : List UInt8} (encoded : encodeFrom offset program = .ok bytes)
    (enough : bytes.length ≤ limit) :
    ∃ listed after, listing limit ⟨position, bytes⟩ = .ok listed after ∧
      listed.map Prod.snd = program := by
  induction program generalizing offset limit bytes position with
  | nil =>
      cases encoded
      cases limit with
      | zero => exact ⟨[], _, rfl, rfl⟩
      | succ limit => exact ⟨[], _, rfl, rfl⟩
  | cons instruction program induction =>
      rcases encodeFrom_cons_eq_ok.mp encoded with ⟨first, others, begins, continues, rfl⟩
      have progress := Instruction.length_pos_of_encode begins
      rw [List.length_append] at enough
      cases limit with
      | zero => omega
      | succ limit =>
          rcases induction _ continues (show others.length ≤ limit by omega) with
            ⟨listed, after, ends, listedProgram⟩
          refine ⟨(position, instruction) :: listed, after, ?_, ?_⟩
          · rw [listing, get_bind_apply, bind_apply_of_ok (nextInstruction?_encode begins)]
            dsimp only
            rw [bind_apply_of_ok ends]
            rfl
          · rw [List.map_cons, listedProgram]

end Cursor

theorem decode_of_encodeFrom {program : Program} {offset : Nat} {bytes : List UInt8}
    (encoded : encodeFrom offset program = .ok bytes) : decode bytes = .ok program := by
  rcases Cursor.listing_encodeFrom 0 encoded (Nat.le_refl _) with ⟨listed, after, read, rfl⟩
  rw [decode, listing, Cursor.start, read]
  rfl

/-- The programs that can be written are the representable ones, and they are read back. -/
theorem encode_roundTrip (program : Program) :
    ((∃ bytes, encode program = .ok bytes) ↔ program.Representable) ∧
      ∀ bytes, encode program = .ok bytes → decode bytes = .ok program :=
  ⟨exists_encodeFrom_iff, fun _ encoded => decode_of_encodeFrom encoded⟩

/-- Pushes of all forms, with the least and the greatest literals of both widths. -/
theorem encode_roundTrip_pushes :
    decode [0xB1, 0x00, 0xFF, 0x40, 0x00, 0xB9, 0x80, 0x00, 0x7F, 0xFF, 0x41, 0x01, 0xFF, 0xFF] =
      .ok [.push ⟨.bytes, .inline, [0, 255]⟩, .push ⟨.bytes, .counted, []⟩,
        .push ⟨.words, .inline, [-32768, 32767]⟩, .push ⟨.words, .counted, [-1]⟩] :=
  (encode_roundTrip _).2 _ rfl

end Hinting
