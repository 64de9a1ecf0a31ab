import Hinting.Proofs.Bytecode.Concatenation
import Hinting.Proofs.Numeral

/-!
What can be read off disassembled bytecode.

Lines end at line breaks, offsets at colons and literals at spaces, and none of these stands inside
of what it ends. The text of a program therefore has all of its instructions, and an instruction has
all of its bytes.
-/

namespace Hinting

/-! ## Separators -/

section

variable {separator : Char}

theorem intercalate_eq_flatMap (first : List Char) (others : List (List Char)) :
    [separator].intercalate (first :: others) =
      first ++ others.flatMap fun word => separator :: word := by
  induction others generalizing first with
  | nil => rw [List.intercalate_singleton, List.flatMap_nil, List.append_nil]
  | cons next others induction =>
      rw [List.intercalate_cons_cons, induction, List.flatMap_cons, List.append_assoc]
      rfl

theorem words_inj {first other : List Char} {words others : List (List Char)}
    (free : ∀ word ∈ first :: words, separator ∉ word)
    (otherFree : ∀ word ∈ other :: others, separator ∉ word)
    (same : (first ++ words.flatMap fun word => separator :: word) =
      other ++ others.flatMap fun word => separator :: word) :
    first = other ∧ words = others := by
  rw [← intercalate_eq_flatMap, ← intercalate_eq_flatMap] at same
  have split := congrArg (List.splitOn separator) same
  rw [List.splitOn_intercalate separator free (List.cons_ne_nil _ _),
    List.splitOn_intercalate separator otherFree (List.cons_ne_nil _ _)] at split
  exact List.cons.inj split

theorem lines_inj {lines others : List (List Char)} (free : ∀ line ∈ lines, separator ∉ line)
    (otherFree : ∀ line ∈ others, separator ∉ line)
    (same : (lines.flatMap fun line => line ++ [separator]) =
      others.flatMap fun line => line ++ [separator]) : lines = others := by
  have shift (lines : List (List Char)) :
      (separator :: lines.flatMap fun line => line ++ [separator]) =
        (lines.flatMap fun line => separator :: line) ++ [separator] := by
    induction lines with
    | nil => rfl
    | cons line lines induction => simp [← induction]
  have shifted : ((lines.flatMap fun line => separator :: line) ++ [separator]) =
      (others.flatMap fun line => separator :: line) ++ [separator] := by
    rw [← shift, ← shift, same]
  have words : ∀ word ∈ [] :: lines, separator ∉ word :=
    List.forall_mem_cons.mpr ⟨List.not_mem_nil, free⟩
  have otherWords : ∀ word ∈ [] :: others, separator ∉ word :=
    List.forall_mem_cons.mpr ⟨List.not_mem_nil, otherFree⟩
  exact (words_inj words otherWords (List.append_cancel_right shifted)).2

end

/-! ## Mnemonics -/

namespace Instruction

theorem push_or_mem_bare (instruction : Instruction) :
    (∃ push, instruction = .push push) ∨ instruction ∈ bare := by
  cases instruction with
  | push literals => exact .inl ⟨literals, rfl⟩
  | stack operation => cases operation <;> exact .inr (by decide)
  | unary operation => cases operation <;> exact .inr (by decide)
  | binary operation => cases operation <;> exact .inr (by decide)
  | storage operation => cases operation <;> exact .inr (by decide)
  | control operation => cases operation <;> exact .inr (by decide)

theorem display_bare {instruction : Instruction} (member : instruction ∈ bare) :
    instruction.display = instruction.mnemonic := by
  cases instruction with
  | push literals => simp [bare] at member
  | _ => rfl

theorem bareOfMnemonic?_mnemonic :
    ∀ instruction ∈ bare, bareOfMnemonic? instruction.mnemonic = some instruction := by
  decide +kernel

theorem isUpper_bare :
    ∀ instruction ∈ bare, ∀ character ∈ instruction.mnemonic.toList, character.isUpper = true := by
  have upper : (bare.all fun instruction => instruction.mnemonic.toList.all Char.isUpper) = true := by
    decide +kernel
  intro instruction member
  exact List.all_eq_true.mp (List.all_eq_true.mp upper instruction member)

end Instruction

/-! ## Pushes -/

namespace Push

def mnemonics : List String := ["NPUSHB", "NPUSHW", "PUSHB", "PUSHW"]

theorem mnemonic_mem (push : Push) : push.mnemonic ∈ mnemonics := by
  unfold mnemonic
  split <;> decide

theorem bareOfMnemonic?_mnemonics :
    ∀ name ∈ mnemonics, Instruction.bareOfMnemonic? name = none := by
  decide +kernel

theorem isUpper_mnemonics :
    ∀ name ∈ mnemonics, ∀ character ∈ name.toList, character.isUpper = true := by
  have upper : (mnemonics.all fun name => name.toList.all Char.isUpper) = true := by
    decide +kernel
  intro name member
  exact List.all_eq_true.mp (List.all_eq_true.mp upper name member)

def countText (push : Push) : List Char :=
  match push.form with
  | .counted => []
  | .inline => '[' :: (toString push.literals.length).toList ++ [']']

def literalTexts (push : Push) : List (List Char) :=
  push.literals.map fun literal => (toString literal.toInt).toList

theorem toList_display (push : Push) :
    push.display.toList =
      (push.mnemonic.toList ++ push.countText) ++
        push.literalTexts.flatMap fun text => ' ' :: text := by
  have texts : (String.join (push.literals.map fun literal => s!" {literal.toInt}")).toList =
      push.literalTexts.flatMap fun text => ' ' :: text := by
    rw [String.toList_join, literalTexts, List.flatMap_map, List.flatMap_map]
    exact congrArg push.literals.flatMap (funext fun _ => String.toList_append)
  rw [display, String.join_cons, String.toList_append, texts, countText]
  cases push.form with
  | counted => rw [List.append_nil]
  | inline =>
      have head : s!"{push.mnemonic}[{push.literals.length}]" =
          push.mnemonic ++ "[" ++ toString push.literals.length ++ "]" := rfl
      rw [head]
      simp

def isWordCharacter (character : Char) : Bool :=
  character.isUpper || character.isDigit || character = '[' || character = ']' || character = '-'

theorem isWordCharacter_countText (push : Push) :
    ∀ character ∈ push.countText, isWordCharacter character = true := by
  rw [countText]
  cases push.form with
  | counted => exact fun _ impossible => nomatch impossible
  | inline =>
      intro character member
      rw [Nat.toString_eq_ofList_toDigits, String.toList_ofList] at member
      rcases List.mem_cons.mp member with rfl | member
      · rfl
      · rcases List.mem_append.mp member with digit | last
        · have digits := Nat.isDigit_of_mem_toDigits (by decide) (by decide) digit
          simp [isWordCharacter, digits]
        · rw [List.mem_singleton.mp last]
          rfl

theorem isWordCharacter_literalTexts (push : Push) :
    ∀ text ∈ push.literalTexts, ∀ character ∈ text, isWordCharacter character = true := by
  intro text listed character member
  rcases List.mem_map.mp listed with ⟨literal, _, rfl⟩
  rcases Numeral.isDigit_or_minus member with digit | rfl
  · simp [isWordCharacter, digit]
  · rfl

theorem isWordCharacter_words (push : Push) :
    ∀ word ∈ (push.mnemonic.toList ++ push.countText) :: push.literalTexts,
      ∀ character ∈ word, isWordCharacter character = true := by
  rw [List.forall_mem_cons, List.forall_mem_append]
  refine ⟨⟨?_, push.isWordCharacter_countText⟩, push.isWordCharacter_literalTexts⟩
  intro character member
  simp [isWordCharacter, isUpper_mnemonics _ push.mnemonic_mem character member]

theorem space_not_mem_words (push : Push) :
    ∀ word ∈ (push.mnemonic.toList ++ push.countText) :: push.literalTexts, ' ' ∉ word :=
  fun word listed member => nomatch push.isWordCharacter_words word listed ' ' member

theorem newline_not_mem_display (push : Push) : '\n' ∉ push.display.toList := by
  rw [toList_display, List.mem_append, List.mem_flatMap]
  rintro (first | ⟨text, listed, member⟩)
  · exact nomatch push.isWordCharacter_words _ List.mem_cons_self '\n' first
  · rcases List.mem_cons.mp member with space | member
    · exact absurd space (by decide)
    · exact nomatch push.isWordCharacter_literalTexts text listed '\n' member

theorem form_width_of_mnemonic {left right : Push} (same : left.mnemonic = right.mnemonic) :
    left.form = right.form ∧ left.width = right.width := by
  rcases left with ⟨width, form, literals⟩
  rcases right with ⟨otherWidth, otherForm, others⟩
  cases form <;> cases width <;> cases otherForm <;> cases otherWidth <;> simp_all [mnemonic]

theorem literals_of_display {left right : Push} (same : left.display = right.display) :
    left.literals = right.literals := by
  have texts := congrArg String.toList same
  rw [toList_display, toList_display] at texts
  have words := words_inj left.space_not_mem_words right.space_not_mem_words texts
  refine (List.map_inj_right ?_).mp words.2
  intro literal other same
  exact Int32.toInt_inj.mp (Numeral.toString_injective same)

end Push

/-! ## Instructions -/

namespace Instruction

theorem takeWhile_display (instruction : Instruction) :
    instruction.display.toList.takeWhile Char.isUpper = instruction.mnemonic.toList := by
  rcases push_or_mem_bare instruction with ⟨push, rfl⟩ | member
  · have behind : ∀ character ∈
        (push.countText ++ push.literalTexts.flatMap fun text => ' ' :: text).head?,
        character.isUpper = false := by
      rw [Push.countText]
      cases push.form with
      | inline =>
          rintro _ ⟨⟩
          rfl
      | counted =>
          cases push.literalTexts with
          | nil => exact nofun
          | cons text texts =>
              rintro _ ⟨⟩
              rfl
    rw [display, Push.toList_display, List.append_assoc]
    exact (span_run (Push.isUpper_mnemonics _ push.mnemonic_mem) behind).1
  · rw [display_bare member]
    exact (span_whole (isUpper_bare instruction member)).1

theorem mnemonic_of_display {left right : Instruction} (same : left.display = right.display) :
    left.mnemonic = right.mnemonic := by
  rw [← String.toList_inj, ← takeWhile_display, ← takeWhile_display, same]

theorem bare_ne_push {instruction : Instruction} (member : instruction ∈ bare) (push : Push) :
    instruction.mnemonic ≠ push.mnemonic := by
  intro same
  have found := bareOfMnemonic?_mnemonic instruction member
  rw [same, Push.bareOfMnemonic?_mnemonics _ push.mnemonic_mem] at found
  exact nomatch found

theorem display_injective {left right : Instruction} (same : left.display = right.display) :
    left = right := by
  have mnemonics := mnemonic_of_display same
  rcases push_or_mem_bare left with ⟨push, rfl⟩ | member
  · rcases push_or_mem_bare right with ⟨other, rfl⟩ | otherMember
    · rcases Push.form_width_of_mnemonic mnemonics with ⟨form, width⟩
      have literals := Push.literals_of_display same
      rcases push with ⟨_, _, _⟩
      cases form
      cases width
      cases literals
      rfl
    · exact absurd mnemonics.symm (bare_ne_push otherMember push)
  · rcases push_or_mem_bare right with ⟨other, rfl⟩ | otherMember
    · exact absurd mnemonics (bare_ne_push member other)
    · have found := bareOfMnemonic?_mnemonic left member
      rw [mnemonics, bareOfMnemonic?_mnemonic right otherMember] at found
      exact (Option.some.inj found).symm

theorem newline_not_mem_display (instruction : Instruction) :
    '\n' ∉ instruction.display.toList := by
  rcases push_or_mem_bare instruction with ⟨push, rfl⟩ | member
  · exact push.newline_not_mem_display
  · rw [display_bare member]
    exact fun newline => nomatch isUpper_bare instruction member '\n' newline

end Instruction

/-! ## Lines -/

theorem toList_offsetText (offset : Nat) :
    (offsetText offset).toList =
      List.replicate (4 - (Nat.toDigits 10 offset).length) '0' ++ Nat.toDigits 10 offset :=
  String.toList_ofList

theorem isDigit_offsetText {offset : Nat} {character : Char}
    (member : character ∈ (offsetText offset).toList) : character.isDigit = true := by
  rw [toList_offsetText] at member
  rcases List.mem_append.mp member with zero | digit
  · rw [List.eq_of_mem_replicate zero]
    rfl
  · exact Nat.isDigit_of_mem_toDigits (by decide) (by decide) digit

theorem ofDigitChars_offsetText (offset : Nat) :
    Nat.ofDigitChars 10 (offsetText offset).toList 0 = offset := by
  rw [toList_offsetText, Nat.ofDigitChars_append, Nat.ofDigitChars_replicate_zero, Nat.mul_zero,
    Nat.ofDigitChars_ten_toDigits]

def lineText (entry : Nat × Instruction) : List Char :=
  (offsetText entry.1).toList ++ ':' :: ' ' :: entry.2.display.toList

theorem toList_disassemblyLine (entry : Nat × Instruction) :
    (disassemblyLine entry.1 entry.2).toList = lineText entry ++ ['\n'] := by
  have parts : disassemblyLine entry.1 entry.2 =
      offsetText entry.1 ++ ": " ++ entry.2.display ++ "\n" := rfl
  rw [parts, lineText]
  simp

theorem newline_not_mem_lineText (entry : Nat × Instruction) : '\n' ∉ lineText entry := by
  rw [lineText, List.mem_append]
  rintro (offset | behind)
  · exact nomatch isDigit_offsetText offset
  · rcases List.mem_cons.mp behind with colon | behind
    · exact absurd colon (by decide)
    · rcases List.mem_cons.mp behind with space | displayed
      · exact absurd space (by decide)
      · exact entry.2.newline_not_mem_display displayed

/-- The offset ends at the colon. -/
theorem lineText_injective {left right : Nat × Instruction}
    (same : lineText left = lineText right) : left = right := by
  have span (entry : Nat × Instruction) :
      (lineText entry).takeWhile Char.isDigit = (offsetText entry.1).toList ∧
        (lineText entry).dropWhile Char.isDigit = ':' :: ' ' :: entry.2.display.toList :=
    span_run (fun _ => isDigit_offsetText) (by rintro _ ⟨⟩; rfl)
  have offsets : left.1 = right.1 := by
    rw [← ofDigitChars_offsetText left.1, ← (span left).1, same, (span right).1,
      ofDigitChars_offsetText]
  have displayed : ':' :: ' ' :: left.2.display.toList = ':' :: ' ' :: right.2.display.toList := by
    rw [← (span left).2, same, (span right).2]
  have displays : left.2.display.toList = right.2.display.toList :=
    (List.cons.inj (List.cons.inj displayed).2).2
  exact Prod.ext offsets (Instruction.display_injective (String.toList_inj.mp displays))

/-! ## Programs -/

def listingText (listed : List (Nat × Instruction)) : String :=
  String.join (listed.map fun (offset, instruction) => disassemblyLine offset instruction)

theorem listingText_injective {left right : List (Nat × Instruction)}
    (same : listingText left = listingText right) : left = right := by
  have toList (listed : List (Nat × Instruction)) : (listingText listed).toList =
      (listed.map lineText).flatMap fun line => line ++ ['\n'] := by
    rw [listingText, String.toList_join, List.flatMap_map, List.flatMap_map]
    exact congrArg listed.flatMap (funext toList_disassemblyLine)
  have free (listed : List (Nat × Instruction)) : ∀ line ∈ listed.map lineText, '\n' ∉ line := by
    rw [List.forall_mem_map]
    exact fun entry _ => newline_not_mem_lineText entry
  have lines : left.map lineText = right.map lineText := by
    apply lines_inj (free left) (free right)
    rw [← toList, ← toList, same]
  exact (List.map_inj_right fun _ _ => lineText_injective).mp lines

theorem disassemble_eq_ok {bytes : List UInt8} {text : String}
    (disassembled : disassemble bytes = .ok text) :
    ∃ listed, decode bytes = .ok (listed.map Prod.snd) ∧ text = listingText listed := by
  rcases except_bind_eq_ok.mp disassembled with ⟨listed, read, ends⟩
  cases ends
  refine ⟨listed, ?_, rfl⟩
  rw [decode, read]
  rfl

/-- Different bytes are disassembled to different texts. -/
theorem disassemble_injective {left right : List UInt8} {text : String}
    (disassembled : disassemble left = .ok text) (other : disassemble right = .ok text) :
    left = right := by
  rcases disassemble_eq_ok disassembled with ⟨listed, decoded, rfl⟩
  rcases disassemble_eq_ok other with ⟨others, otherDecoded, same⟩
  cases listingText_injective same
  have written := encodeFrom_of_decode decoded 0
  rw [encodeFrom_of_decode otherDecoded 0] at written
  exact (Except.ok.inj written).symm

/-- A push of words and a call, whose bytes are put together in two ways. -/
theorem disassemble_injective_words :
    disassemble [0xB9, 0xFE, 0xD4, 0x00, 0x02, 0x2B] = .ok "0000: PUSHW[2] -300 2\n0005: CALL\n" ∧
      ([0xB9, 0xFE, 0xD4, 0x00, 0x02] ++ [0x2B] : List UInt8) =
        [0xB9, 0xFE, 0xD4, 0x00, 0x02, 0x2B] := by
  have text : disassemble [0xB9, 0xFE, 0xD4, 0x00, 0x02, 0x2B] =
      .ok "0000: PUSHW[2] -300 2\n0005: CALL\n" := rfl
  exact ⟨text, disassemble_injective text text⟩

end Hinting
