import Hinting.Proofs.Bytecode.Writing

/-!
The shortest bytecode of literals.

Literals that can be pushed at all can be pushed with a counted push, and an inline push saves the
count. So the best form is told by the number of literals alone.
-/

namespace Hinting

/-! ## Literals that fit -/

namespace PushWidth

theorem fits_byte (literal : UInt8) : bytes.Fits (.ofNat literal.toNat) := by
  have bounded := literal.toNat_lt
  rw [Fits, toInt_byteLiteral]
  omega

theorem fits_word (literal : Int16) : words.Fits literal.toInt32 := by
  have lower := literal.le_toInt
  have upper := literal.toInt_lt
  rw [Fits, Int16.toInt_toInt32]
  omega

end PushWidth

namespace Push

/-! ## Lengths -/

theorem length_of_encode {push : Push} {offset : Nat} {bytes : List UInt8}
    (encoded : push.encode offset = .ok bytes) :
    bytes.length = 1 + push.countBytes.length + push.literals.length * push.width.size := by
  rcases encode_eq_ok_iff.mp encoded with ⟨opcode, chunks, _, written, rfl⟩
  rw [List.length_append, List.length_cons, (PushWidth.literalsOf_flatten written).2]
  omega

theorem encode_singleton_iff {push : Push} {bytes : List UInt8} :
    Hinting.encode [.push push] = .ok bytes ↔ push.encode 0 = .ok bytes := by
  constructor
  · intro encoded
    rcases encodeFrom_cons_eq_ok.mp encoded with ⟨first, others, begins, ends, rfl⟩
    cases ends
    rwa [List.append_nil]
  · exact fun encoded => encode_singleton encoded

/-! ## Forms -/

section

variable {width : PushWidth} {literals : List Int32}

theorem shortest_of_few (few : 1 ≤ literals.length ∧ literals.length ≤ maxInlineCount) :
    shortest width literals = ⟨width, .inline, literals⟩ := by
  rw [shortest, if_pos few]

theorem shortest_of_not_few (many : ¬(1 ≤ literals.length ∧ literals.length ≤ maxInlineCount)) :
    shortest width literals = ⟨width, .counted, literals⟩ := by
  rw [shortest, if_neg many]

theorem representable_shortest_iff (fit : ∀ literal ∈ literals, width.Fits literal) :
    (shortest width literals).Representable ↔ literals.length ≤ 255 := by
  by_cases few : 1 ≤ literals.length ∧ literals.length ≤ maxInlineCount
  · rw [shortest_of_few few]
    have small : literals.length ≤ 8 := few.2
    constructor
    · intro _
      omega
    · intro _
      exact ⟨fun _ => few, nofun, fit⟩
  · rw [shortest_of_not_few few]
    constructor
    · intro representable
      exact representable.counted rfl
    · intro small
      exact ⟨nofun, fun _ => small, fit⟩

/-- Another form for the same literals is a counted push that could do without the count. -/
theorem shortest_is_shortest {form : PushForm} {others : List UInt8}
    (encoded : Push.encode 0 ⟨width, form, literals⟩ = .ok others) :
    ∃ bytes, (shortest width literals).encode 0 = .ok bytes ∧ bytes.length ≤ others.length := by
  have representable : Representable ⟨width, form, literals⟩ :=
    exists_encode_iff.mp ⟨others, encoded⟩
  by_cases few : 1 ≤ literals.length ∧ literals.length ≤ maxInlineCount
  · rw [shortest_of_few few]
    have inline : Representable ⟨width, .inline, literals⟩ :=
      ⟨fun _ => few, nofun, representable.literals⟩
    rcases exists_encode_iff.mpr inline with ⟨bytes, written⟩
    refine ⟨bytes, written, ?_⟩
    rw [length_of_encode written, length_of_encode encoded]
    simp [countBytes]
  · rw [shortest_of_not_few few]
    cases form with
    | counted => exact ⟨others, encoded, Nat.le_refl _⟩
    | inline => exact absurd (representable.inline rfl) few

end

/-! ## The best push -/

/-- The push carries these numbers. It has bytecode, which is read back, if any push of the width
that carries them has, and none of these is shorter. -/
structure Best (push : Push) (width : PushWidth) (numbers : List Int) : Prop where
  hasWidth : push.width = width
  carries : push.literals.map Int32.toInt = numbers
  writable : (∃ bytes, Hinting.encode [.push push] = .ok bytes) ↔ numbers.length ≤ 255
  readBack : ∀ bytes, Hinting.encode [.push push] = .ok bytes → decode bytes = .ok [.push push]
  fewest : ∀ (other : Push) (others : List UInt8), other.width = width →
    other.literals.map Int32.toInt = numbers → Hinting.encode [.push other] = .ok others →
      ∃ bytes, Hinting.encode [.push push] = .ok bytes ∧ bytes.length ≤ others.length

theorem best_shortest {width : PushWidth} {literals : List Int32} {numbers : List Int}
    (fit : ∀ literal ∈ literals, width.Fits literal)
    (carries : literals.map Int32.toInt = numbers) :
    (shortest width literals).Best width numbers where
  hasWidth := rfl
  carries := carries
  writable := by
    simp only [encode_singleton_iff, exists_encode_iff, representable_shortest_iff fit, ← carries,
      List.length_map]
  readBack _ encoded := decode_of_encodeFrom encoded
  fewest := by
    rintro ⟨_, form, others⟩ bytes rfl sameNumbers encoded
    have same : others = literals :=
      (List.map_inj_right fun _ _ => Int32.toInt_inj.mp).mp (sameNumbers.trans carries.symm)
    subst same
    simp only [encode_singleton_iff] at encoded ⊢
    exact shortest_is_shortest encoded

/-- The pushes that are made of bytes and of words are the best ones for them. -/
theorem best_ofBytes_ofWords :
    (∀ literals : List UInt8,
      (ofBytes literals).Best .bytes (literals.map fun literal => (literal.toNat : Int))) ∧
      ∀ literals : List Int16, (ofWords literals).Best .words (literals.map Int16.toInt) := by
  constructor
  · intro literals
    apply best_shortest
    · simpa using fun literal _ => PushWidth.fits_byte literal
    · simp only [List.map_map, Function.comp_def, PushWidth.toInt_byteLiteral]
  · intro literals
    apply best_shortest
    · simpa using fun literal _ => PushWidth.fits_word literal
    · simp

/-- Eight words stand in an inline push, which is a byte shorter than a counted one. Nine do not. A
push of 256 bytes has no bytecode in any form. -/
theorem best_ofBytes_ofWords_bounds :
    let eight : List Int16 := [-32768, 32767, -1, 0, 1, 2, 3, 4]
    let written : List UInt8 :=
      [0xBF, 0x80, 0x00, 0x7F, 0xFF, 0xFF, 0xFF, 0, 0, 0, 1, 0, 2, 0, 3, 0, 4]
    let counted : Push := ⟨.words, .counted, eight.map Int16.toInt32⟩
    Hinting.encode [.push (ofWords eight)] = .ok written ∧
      decode written = .ok [.push (ofWords eight)] ∧
      (∃ others, Hinting.encode [.push counted] = .ok others ∧ others.length = 18 ∧
        ∃ bytes, Hinting.encode [.push (ofWords eight)] = .ok bytes ∧
          bytes.length ≤ others.length) ∧
      (ofWords (5 :: eight)).form = .counted ∧
      (∃ bytes, Hinting.encode [.push (ofWords (5 :: eight))] = .ok bytes) ∧
      ¬∃ bytes, Hinting.encode [.push (ofBytes (List.replicate 256 7))] = .ok bytes := by
  intro eight written counted
  have words := best_ofBytes_ofWords.2
  have encoded : Hinting.encode [.push (ofWords eight)] = .ok written := rfl
  refine ⟨encoded, (words eight).readBack _ encoded, ⟨_, rfl, rfl, ?_⟩, rfl, ?_, ?_⟩
  · exact (words eight).fewest counted _ rfl rfl rfl
  · exact (words (5 :: eight)).writable.mpr (by decide)
  · intro writable
    have few := (best_ofBytes_ofWords.1 _).writable.mp writable
    rw [List.length_map, List.length_replicate] at few
    omega

end Push

end Hinting
