import Hinting.Bytecode.Decode
import Hinting.Bytecode.Encode

/-!
What the bytes that begin an instruction and the bytes of literals are encoded from.
-/

namespace Hinting

/-! ## Opcodes -/

namespace OpcodeClass

def HasOpcode : OpcodeClass → UInt8 → Prop
  | bare instruction, byte => ∀ offset, instruction.encode offset = .ok [byte]
  | countedPush width, byte => byte = Push.countedOpcode width
  | inlinePush width count, byte =>
      1 ≤ count ∧ count ≤ Push.maxInlineCount ∧
        byte = Push.inlineOpcode width + .ofNat (count - 1)

theorem hasOpcode_of_mem_table {byte : UInt8} {opcodeClass : OpcodeClass}
    (member : (byte, opcodeClass) ∈ table) : opcodeClass.HasOpcode byte := by
  simp only [table, List.mem_append, List.mem_map, List.mem_flatMap, Prod.mk.injEq] at member
  rcases member with (((((⟨_, _, rfl, rfl⟩ | ⟨_, _, rfl, rfl⟩) | ⟨_, _, rfl, rfl⟩) |
    ⟨_, _, rfl, rfl⟩) | ⟨_, _, rfl, rfl⟩) | ⟨_, _, rfl, rfl⟩) |
    ⟨width, _, more, listed, rfl, rfl⟩
  · exact fun _ => rfl
  · exact fun _ => rfl
  · exact fun _ => rfl
  · exact fun _ => rfl
  · exact fun _ => rfl
  · rfl
  · exact ⟨Nat.succ_pos more, List.mem_range.mp listed, rfl⟩

theorem hasOpcode_of_ofByte? {byte : UInt8} {opcodeClass : OpcodeClass}
    (found : ofByte? byte = some opcodeClass) : opcodeClass.HasOpcode byte := by
  rcases List.lookup_eq_some_iff.mp found with ⟨before, behind, split, _⟩
  apply hasOpcode_of_mem_table
  rw [split]
  exact List.mem_append_right before List.mem_cons_self

end OpcodeClass

/-! ## Literals -/

namespace PushWidth

theorem toInt_byteLiteral (byte : UInt8) :
    (Int32.ofNat byte.toNat).toInt = byte.toNat :=
  Int32.toInt_ofNat_of_lt (Nat.lt_trans byte.toNat_lt (by decide))

theorem toInt_wordLiteral (high low : UInt8) :
    (wordLiteral high low).toInt =
      ((high.toNat * 256 + low.toNat : Nat) : Int).bmod 65536 := by
  rw [wordLiteral, Int16.toInt_toInt32, Int16.toInt_ofNat']

theorem encodeLiteral?_byte (byte : UInt8) :
    bytes.encodeLiteral? (.ofNat byte.toNat) = some [byte] := by
  have range := byte.toNat_lt
  simp only [encodeLiteral?, toInt_byteLiteral]
  rw [if_pos ⟨by omega, by omega⟩, Int.toNat_natCast, UInt8.ofNat_toNat]

theorem encodeLiteral?_word (high low : UInt8) :
    words.encodeLiteral? (wordLiteral high low) = some [high, low] := by
  have highRange := high.toNat_lt
  have lowRange := low.toNat_lt
  have lower : -32768 ≤ ((high.toNat * 256 + low.toNat : Nat) : Int).bmod 65536 :=
    Int.le_bmod (by decide)
  have upper : ((high.toNat * 256 + low.toNat : Nat) : Int).bmod 65536 < 32768 :=
    Int.bmod_lt (by decide)
  have word : (((high.toNat * 256 + low.toNat : Nat) : Int).bmod 65536 % 65536).toNat =
      high.toNat * 256 + low.toNat := by
    have kept : ((high.toNat * 256 + low.toNat : Nat) : Int).bmod 65536 % 65536 =
        ((high.toNat * 256 + low.toNat : Nat) : Int) % 65536 := Int.bmod_emod
    omega
  have highByte : (high.toNat * 256 + low.toNat) / 256 = high.toNat := by omega
  have lowByte : (high.toNat * 256 + low.toNat) % 256 = low.toNat := by omega
  simp only [encodeLiteral?, toInt_wordLiteral]
  rw [if_pos ⟨lower, upper⟩, word, highByte, lowByte, UInt8.ofNat_toNat, UInt8.ofNat_toNat]

theorem exists_chunks_of_length (width : PushWidth) {count : Nat} {raw : List UInt8}
    (length : raw.length = count * width.size) :
    ∃ chunks : List (List UInt8),
      (width.literalsOf raw).map width.encodeLiteral? = chunks.map some ∧
        chunks.flatten = raw ∧ (width.literalsOf raw).length = count := by
  cases width with
  | bytes =>
      refine ⟨raw.map fun byte => [byte], ?_, ?_, ?_⟩
      · rw [literalsOf, List.map_map, List.map_map]
        exact List.map_congr_left fun byte _ => encodeLiteral?_byte byte
      · rw [← List.flatMap_def, List.flatMap_singleton']
      · rw [literalsOf, List.length_map, length, size, Nat.mul_one]
  | words =>
      rw [size] at length
      -- Bytes are read in pairs, so the induction is on the number of words.
      induction count generalizing raw with
      | zero =>
          rw [List.eq_nil_of_length_eq_zero (length.trans (Nat.zero_mul 2))]
          exact ⟨[], rfl, rfl, rfl⟩
      | succ count induction =>
          rcases raw with _ | ⟨high, _ | ⟨low, raw⟩⟩
          · rw [List.length_nil] at length
            omega
          · rw [List.length_singleton] at length
            omega
          · rw [List.length_cons, List.length_cons] at length
            have rest : raw.length = count * 2 := by omega
            rcases induction rest with ⟨chunks, encoded, flat, counted⟩
            refine ⟨[high, low] :: chunks, ?_, ?_, ?_⟩
            · rw [literalsOf, List.map_cons, List.map_cons, encodeLiteral?_word, encoded]
            · rw [List.flatten_cons, flat]
              rfl
            · rw [literalsOf, List.length_cons, counted]

end PushWidth

/-! ## Pushes -/

namespace Push

theorem mapM_ok {encode? : Int32 → Option (List UInt8)} {refuse : Int32 → Malformation}
    {literals : List Int32} {chunks : List (List UInt8)}
    (encoded : literals.map encode? = chunks.map some) :
    literals.mapM (fun literal =>
      match encode? literal with
      | some bytes => Except.ok bytes
      | none => .error (refuse literal)) = .ok chunks := by
  induction literals generalizing chunks with
  | nil =>
      cases chunks with
      | nil => rfl
      | cons _ _ => exact nomatch encoded
  | cons literal literals induction =>
      cases chunks with
      | nil => exact nomatch encoded
      | cons chunk chunks =>
          rcases List.cons.inj encoded with ⟨first, others⟩
          rw [List.mapM_cons, first, induction others]
          rfl

theorem encode_eq_ok {push : Push} {opcode : UInt8} {chunks : List (List UInt8)}
    (opened : push.opcode = .ok opcode)
    (encoded : push.literals.map push.width.encodeLiteral? = chunks.map some) (offset : Nat) :
    push.encode offset = .ok (opcode :: push.countBytes ++ chunks.flatten) := by
  rw [encode, opened]
  exact congrArg (· >>= fun literals => pure (opcode :: push.countBytes ++ literals.flatten))
    (mapM_ok encoded)

theorem encode_counted (width : PushWidth) (count : UInt8) {raw : List UInt8}
    (length : raw.length = count.toNat * width.size) (offset : Nat) :
    Push.encode offset ⟨width, .counted, width.literalsOf raw⟩ =
      .ok (countedOpcode width :: count :: raw) := by
  rcases width.exists_chunks_of_length length with ⟨chunks, encoded, flat, counted⟩
  have range := count.toNat_lt
  have opened : opcode ⟨width, .counted, width.literalsOf raw⟩ = .ok (countedOpcode width) := by
    rw [opcode]
    exact if_pos (by dsimp only; omega)
  rw [encode_eq_ok opened encoded offset, countBytes, counted, flat, UInt8.ofNat_toNat]
  rfl

theorem encode_inline (width : PushWidth) {count : Nat} (positive : 1 ≤ count)
    (small : count ≤ maxInlineCount) {raw : List UInt8}
    (length : raw.length = count * width.size) (offset : Nat) :
    Push.encode offset ⟨width, .inline, width.literalsOf raw⟩ =
      .ok ((inlineOpcode width + .ofNat (count - 1)) :: raw) := by
  rcases width.exists_chunks_of_length length with ⟨chunks, encoded, flat, counted⟩
  have opened : opcode ⟨width, .inline, width.literalsOf raw⟩ =
      .ok (inlineOpcode width + .ofNat (count - 1)) := by
    rw [opcode]
    dsimp only
    rw [counted, if_pos ⟨positive, small⟩]
  rw [encode_eq_ok opened encoded offset, countBytes, flat]
  rfl

end Push

end Hinting
