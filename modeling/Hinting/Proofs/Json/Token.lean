import Hinting.Json.Printer
import Hinting.Json.Token
import Hinting.Proofs.Numeral

/-!
Tokens that are read from what they are written as.

A number is read to the first character that cannot belong to one, and a text to its closing quote.
What follows a token is left as it is.
-/

namespace Hinting.Json

namespace Token

/-! ## Numbers -/

theorem isWhole_toDigits (number : Nat) : isWhole (Nat.toDigits 10 number) = true := by
  by_cases zero : number = 0
  · subst zero
    rfl
  · have leading := Numeral.head?_toDigits_ne_zero (Nat.pos_of_ne_zero zero)
    unfold isWhole
    split
    · rename_i empty
      exact absurd empty Nat.toDigits_ne_nil
    · rfl
    · rw [Bool.and_eq_true, bne_iff_ne, List.all_eq_true]
      exact ⟨leading, fun _ => Nat.isDigit_of_mem_toDigits (by decide) (by decide)⟩

theorem span_toDigits (number : Nat) :
    (Nat.toDigits 10 number).takeWhile Char.isDigit = Nat.toDigits 10 number ∧
      (Nat.toDigits 10 number).dropWhile Char.isDigit = [] := by
  have digits : ∀ character ∈ Nat.toDigits 10 number, character.isDigit = true :=
    fun _ => Nat.isDigit_of_mem_toDigits (by decide) (by decide)
  exact span_whole digits

theorem ofNumber?_toDigits (number : Nat) :
    ofNumber? (Nat.toDigits 10 number) = some (integer number) := by
  rcases span_toDigits number with ⟨whole, behind⟩
  unfold ofNumber?
  split
  rename_i negative magnitude sign
  split at sign
  · rename_i signed
    exact absurd signed (Numeral.toDigits_ne_minus_cons number _)
  · cases sign
    simp [whole, behind, isWhole_toDigits, isFractionAndExponent, isExponent,
      Nat.ofDigitChars_ten_toDigits]

theorem ofNumber?_minus {number : Nat} (positive : 0 < number) :
    ofNumber? ('-' :: Nat.toDigits 10 number) = some (integer (-number)) := by
  rcases span_toDigits number with ⟨whole, behind⟩
  have nonzero : number ≠ 0 := Nat.ne_of_gt positive
  simp [ofNumber?, whole, behind, isWhole_toDigits, isFractionAndExponent, isExponent, nonzero]

theorem ofNumber?_toString (number : Int) :
    ofNumber? (toString number).toList = some (integer number) := by
  rw [Numeral.toList_toString]
  split
  · rename_i positive
    rw [ofNumber?_toDigits, Int.toNat_of_nonneg positive]
  · rename_i negative
    rw [ofNumber?_minus (by omega), Int.toNat_of_nonneg (by omega), Int.neg_neg]

/-! ## Texts -/

inductive Stands : Piece → Char → Prop
  | character (character : Char) : Stands (.character character) character
  /-- A control character that is written as its number. -/
  | unit {character : Char} : character.toNat < 0x20 → Stands (.unit character.toNat) character

theorem number?_control :
    ∀ unit < 0x20, number? 16 ['0', '0', (unit / 16).digitChar, (unit % 16).digitChar] =
      some unit := by
  decide

theorem pieces?_mark {mark character : Char} (escaped : escaped? mark = some character)
    (rest : List Char) :
    pieces? ('\\' :: mark :: rest) =
      (pieces? rest).map fun (pieces, rest) => (.character character :: pieces, rest) := by
  have notUnit : mark ≠ 'u' := by
    rintro rfl
    exact nomatch escaped
  rw [pieces?]
  · rw [escaped]
    cases pieces? rest <;> rfl
  · intro first second third fourth rest isUnit _
    exact notUnit isUnit

theorem pieces?_plain {character : Char} (notQuote : character ≠ '"')
    (notBackslash : character ≠ '\\') (printable : ¬character.toNat < 0x20) (rest : List Char) :
    pieces? (character :: rest) =
      (pieces? rest).map fun (pieces, rest) => (.character character :: pieces, rest) := by
  rw [pieces?]
  · rw [if_neg (by simp [notBackslash, printable])]
    cases pieces? rest <;> rfl
  · exact notQuote
  · intro _ _ _ _ _ isBackslash _
    exact notBackslash isBackslash
  · intro _ _ isBackslash _
    exact notBackslash isBackslash

theorem pieces?_escape (character : Char) :
    ∃ piece, Stands piece character ∧ ∀ rest, pieces? (escape character ++ rest) =
      (pieces? rest).map fun (pieces, rest) => (piece :: pieces, rest) := by
  unfold escape
  split
  case h_8 notQuote notBackslash _ _ _ _ _ =>
    split
    · rename_i control
      refine ⟨_, .unit control, fun rest => ?_⟩
      simp only [List.cons_append, List.nil_append]
      rw [pieces?, number?_control _ control]
      cases pieces? rest <;> rfl
    · rename_i printable
      exact ⟨_, .character _, pieces?_plain notQuote notBackslash printable⟩
  -- The characters that have a mark of their own.
  all_goals exact ⟨_, .character _, pieces?_mark rfl⟩

theorem Stands.characters? {piece : Piece} {character : Char} (stands : Stands piece character)
    (pieces : List Piece) :
    Token.characters? (piece :: pieces) = (Token.characters? pieces).map (character :: ·) := by
  cases stands with
  | character => rfl
  | unit control =>
      have notHigh : isHighSurrogate character.toNat = false := by
        simp [isHighSurrogate]
        omega
      have notLow : isLowSurrogate character.toNat = false := by
        simp [isLowSurrogate]
        omega
      rcases pieces with _ | ⟨_ | _, _⟩ <;>
        simp [Token.characters?, notHigh, notLow, Char.ofNat_toNat]

theorem pieces?_content (content rest : List Char) :
    ∃ pieces, pieces? (content.flatMap escape ++ '"' :: rest) = some (pieces, rest) ∧
      characters? pieces = some content := by
  induction content with
  | nil => exact ⟨[], by simp [pieces?], rfl⟩
  | cons character content induction =>
      rcases induction with ⟨pieces, found, read⟩
      rcases pieces?_escape character with ⟨piece, stands, escaped⟩
      refine ⟨piece :: pieces, ?_, ?_⟩
      · rw [List.flatMap_cons, List.append_assoc, escaped, found]
        rfl
      · rw [stands.characters?, read]
        rfl

/-! ## First tokens -/

/-- No number goes on here. -/
def Ends (rest : List Char) : Prop :=
  ∀ character ∈ rest.head?, isNumberCharacter character = false

theorem isNumberCharacter_of_isBlank {character : Char} (blank : isBlank character = true) :
    isNumberCharacter character = false := by
  simp only [isBlank, Bool.or_eq_true, decide_eq_true_eq] at blank
  rcases blank with ((rfl | rfl) | rfl) | rfl <;> rfl

theorem Ends.cons {character : Char} {rest : List Char}
    (other : isNumberCharacter character = false) : Ends (character :: rest) := by
  rintro _ ⟨⟩
  exact other

theorem Ends.blanks {characters rest : List Char}
    (blanks : ∀ character ∈ characters, isBlank character = true) (ends : Ends rest) :
    Ends (characters ++ rest) := by
  cases characters with
  | nil => exact ends
  | cons first characters =>
      exact .cons (isNumberCharacter_of_isBlank (blanks first List.mem_cons_self))

theorem first?_isNumberCharacter {first : Char} (number : isNumberCharacter first = true)
    (more : List Char) :
    first? (first :: more) =
      (ofNumber? ((first :: more).takeWhile isNumberCharacter)).map
        (·, (first :: more).dropWhile isNumberCharacter) := by
  unfold first?
  split
  case h_11 => cases ofNumber? ((first :: more).takeWhile isNumberCharacter) <;> rfl
  all_goals
    rename_i other
    rw [(List.cons.inj other).1] at number
    exact nomatch number

theorem first?_number {written rest : List Char} {token : Token}
    (characters : ∀ character ∈ written, isNumberCharacter character = true)
    (ends : Ends rest) (number : ofNumber? written = some token) :
    first? (written ++ rest) = some (token, rest) := by
  rcases span_run characters ends with ⟨run, behind⟩
  cases written with
  | nil => exact nomatch number
  | cons first more =>
      rw [List.cons_append] at run behind ⊢
      rw [first?_isNumberCharacter (characters first List.mem_cons_self), run, behind, number]
      rfl

theorem first?_quote (content : String) (rest : List Char) :
    first? (quote (some content) ++ rest) = some (text (some content), rest) := by
  rcases pieces?_content content.toList rest with ⟨pieces, found, read⟩
  simp [quote, first?, found, read]

theorem isNumberCharacter_toString (number : Int) :
    ∀ character ∈ (toString number).toList, isNumberCharacter character = true := by
  intro character member
  rcases Numeral.isDigit_or_minus member with digit | minus
  · simp [isNumberCharacter, digit]
  · simp [isNumberCharacter, minus]

/-! ## Sequences -/

/-- The characters are the tokens and blanks between them. -/
def Lexes (characters : List Char) (tokens : List Token) : Prop :=
  ∀ limit, characters.length ≤ limit → sequence? limit characters = some tokens

namespace Lexes

theorem nil : Lexes [] [] :=
  fun limit _ => by cases limit <;> rfl

variable {rest : List Char} {tokens : List Token}

theorem blank {character : Char} (blank : isBlank character = true) (lexes : Lexes rest tokens) :
    Lexes (character :: rest) tokens := by
  intro limit enough
  cases limit with
  | zero => exact nomatch enough
  | succ limit =>
      rw [sequence?, if_pos blank]
      exact lexes limit (Nat.le_of_succ_le_succ enough)

theorem blanks {characters : List Char}
    (blanks : ∀ character ∈ characters, isBlank character = true) (lexes : Lexes rest tokens) :
    Lexes (characters ++ rest) tokens := by
  induction characters with
  | nil => exact lexes
  | cons character characters induction =>
      rcases List.forall_mem_cons.mp blanks with ⟨first, others⟩
      exact .blank first (induction others)

theorem token {first : Char} {behind : List Char} {token : Token}
    (notBlank : isBlank first = false) (found : first? (first :: behind) = some (token, rest))
    (suffix : rest <:+ behind) (lexes : Lexes rest tokens) :
    Lexes (first :: behind) (token :: tokens) := by
  intro limit enough
  cases limit with
  | zero => exact nomatch enough
  | succ limit =>
      have left := Nat.le_trans suffix.length_le (Nat.le_of_succ_le_succ enough)
      rw [sequence?, if_neg (by simp [notBlank]), found]
      simp [lexes limit left]

theorem mark {character : Char} {token : Token} (notBlank : isBlank character = false)
    (found : first? (character :: rest) = some (token, rest)) (lexes : Lexes rest tokens) :
    Lexes (character :: rest) (token :: tokens) :=
  .token notBlank found List.suffix_rfl lexes

theorem number {written : List Char} {token : Token}
    (characters : ∀ character ∈ written, isNumberCharacter character = true)
    (number : ofNumber? written = some token) (ends : Ends rest) (lexes : Lexes rest tokens) :
    Lexes (written ++ rest) (token :: tokens) := by
  have found := first?_number characters ends number
  cases written with
  | nil => exact nomatch number
  | cons first more =>
      have leading := characters first List.mem_cons_self
      have notBlank : isBlank first = false := by
        rw [Bool.eq_false_iff]
        intro blank
        rw [isNumberCharacter_of_isBlank blank] at leading
        exact nomatch leading
      exact .token notBlank found (List.suffix_append more rest) lexes

theorem quote (content : String) (lexes : Lexes rest tokens) :
    Lexes (quote (some content) ++ rest) (.text (some content) :: tokens) :=
  .token rfl (first?_quote content rest) (List.suffix_append _ rest) lexes

theorem ofText?_eq {characters : List Char} (lexes : Lexes characters tokens) :
    ofText? (.ofList characters) = some tokens := by
  rw [ofText?, String.toList_ofList]
  exact lexes _ (Nat.le_refl _)

end Lexes

end Token

end Hinting.Json
