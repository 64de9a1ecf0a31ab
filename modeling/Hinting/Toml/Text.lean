import Hinting.Digits

/-!
TOML text between quotes.

Basic texts have escapes and literal ones have not; both come on one line or,
between triple quotes, on several.
-/

namespace Hinting.Toml

def isBlank (character : Char) : Bool :=
  character = ' ' || character = '\t'

def isPlain (character : Char) : Bool :=
  character = '\t' || (0x20 ≤ character.toNat && character.toNat ≠ 0x7F)

/-! ## Escapes -/

def characterOf? (digits : List Char) : Option Char := do
  let number ← number? 16 digits
  guard number.isValidChar
  return .ofNat number

def escaped? : Char → Option Char
  | 'b' => some '\x08'
  | 't' => some '\t'
  | 'n' => some '\n'
  | 'f' => some '\x0c'
  | 'r' => some '\r'
  | 'e' => some '\x1b'
  | '"' => some '"'
  | '\\' => some '\\'
  | _ => none

/-! ## Texts on one line -/

def basicText? : List Char → Option (List Char × List Char)
  | [] => none
  | '"' :: rest => some ([], rest)
  | '\\' :: 'x' :: first :: second :: rest => do
      let character ← characterOf? [first, second]
      let (content, rest) ← basicText? rest
      return (character :: content, rest)
  | '\\' :: 'u' :: first :: second :: third :: fourth :: rest => do
      let character ← characterOf? [first, second, third, fourth]
      let (content, rest) ← basicText? rest
      return (character :: content, rest)
  | '\\' :: 'U' :: first :: second :: third :: fourth :: fifth :: sixth :: seventh ::
      eighth :: rest => do
      let character ←
        characterOf? [first, second, third, fourth, fifth, sixth, seventh, eighth]
      let (content, rest) ← basicText? rest
      return (character :: content, rest)
  | '\\' :: mark :: rest => do
      let character ← escaped? mark
      let (content, rest) ← basicText? rest
      return (character :: content, rest)
  | character :: rest => do
      guard (isPlain character ∧ character ≠ '\\')
      let (content, rest) ← basicText? rest
      return (character :: content, rest)

def literalText? (characters : List Char) : Option (List Char × List Char) := do
  let content := characters.takeWhile (· ≠ '\'')
  guard (content.all isPlain)
  match characters.dropWhile (· ≠ '\'') with
  | _ :: rest => return (content, rest)
  | [] => none

/-! ## Texts on several lines -/

/-- The end of a text between triple quotes, if it is here: the quotes that still
belong to the text, two at most, and what follows the closing ones. -/
def closing? (mark : Char) (characters : List Char) : Option (List Char × List Char) :=
  let count := (characters.takeWhile (· = mark)).length
  if count < 3 then none
  else some (List.replicate (min (count - 3) 2) mark, characters.drop (min count 5))

/-- A backslash at the end of a line, with blanks between. -/
def endsLine (characters : List Char) : Bool :=
  match characters.dropWhile isBlank with
  | '\n' :: _ | '\r' :: '\n' :: _ => true
  | _ => false

def dropLineBreak : List Char → List Char
  | '\n' :: rest => rest
  | '\r' :: '\n' :: rest => rest
  | characters => characters

/-- A basic text after its opening quotes and what follows the closing ones.
While `joining`, after a backslash at the end of a line, blanks and line breaks
are dropped. -/
def basicLines? (joining : Bool) : List Char → Option (List Char × List Char)
  | [] => none
  | '\r' :: '\n' :: rest => line rest
  | '\n' :: rest => line rest
  | '\\' :: 'x' :: first :: second :: rest => do
      after (← characterOf? [first, second]) (basicLines? false rest)
  | '\\' :: 'u' :: first :: second :: third :: fourth :: rest => do
      after (← characterOf? [first, second, third, fourth]) (basicLines? false rest)
  | '\\' :: 'U' :: first :: second :: third :: fourth :: fifth :: sixth :: seventh ::
      eighth :: rest => do
      after
        (← characterOf? [first, second, third, fourth, fifth, sixth, seventh, eighth])
        (basicLines? false rest)
  | '\\' :: mark :: rest =>
      if endsLine (mark :: rest) then basicLines? true (mark :: rest)
      else do after (← escaped? mark) (basicLines? false rest)
  | character :: rest =>
      match closing? '"' (character :: rest) with
      | some closed => some closed
      | none =>
          if joining && isBlank character then basicLines? true rest
          else if isPlain character ∧ character ≠ '\\' then
            after character (basicLines? false rest)
          else none
where
  after (character : Char) (tail : Option (List Char × List Char)) :
      Option (List Char × List Char) := do
    let (content, rest) ← tail
    return (character :: content, rest)
  line (rest : List Char) : Option (List Char × List Char) :=
    if joining then basicLines? true rest else after '\n' (basicLines? false rest)

def literalLines? : List Char → Option (List Char × List Char)
  | [] => none
  | '\r' :: '\n' :: rest => do
      let (content, rest) ← literalLines? rest
      return ('\n' :: content, rest)
  | character :: rest =>
      match closing? '\'' (character :: rest) with
      | some closed => some closed
      | none => do
          guard (isPlain character ∨ character = '\n')
          let (content, rest) ← literalLines? rest
          return (character :: content, rest)

end Hinting.Toml
