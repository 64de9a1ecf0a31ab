import Hinting.Toml.Entries
import Hinting.Toml.Scalar
import Hinting.Toml.Text

/-!
The syntax of TOML: keys, values and the statements of a document.

Every scanner takes what it reads off the front of the text. Limits bound the
nesting of scanners and are never met by a text that is as long as the limit.
-/

namespace Hinting.Toml

abbrev Scanner := StateT (List Char) Option

namespace Scanner

/-! ## Blanks and comments -/

def skipBlanks : Scanner Unit :=
  modify (·.dropWhile isBlank)

def afterTrivia? (inComment : Bool) : List Char → Option (List Char)
  | [] => some []
  | '\n' :: rest => afterTrivia? false rest
  | '\r' :: '\n' :: rest => afterTrivia? false rest
  | character :: rest =>
      if inComment then
        if isPlain character then afterTrivia? true rest else none
      else if character = '#' then afterTrivia? true rest
      else if isBlank character then afterTrivia? false rest
      else some (character :: rest)

def skipTrivia : Scanner Unit := do
  set (← afterTrivia? false (← get))

def expect (character : Char) : Scanner Unit := do
  match ← get with
  | head :: rest =>
      guard (head = character)
      set rest
  | [] => failure

def sees (character : Char) : Scanner Bool :=
  return (← get).head? = some character

/-! ## Keys -/

def isBareKey (character : Char) : Bool :=
  character.isAlphanum || character = '-' || character = '_'

def name : Scanner String := do
  match ← get with
  | '"' :: rest => do
      let (content, rest) ← basicText? rest
      set rest
      return .ofList content
  | '\'' :: rest => do
      let (content, rest) ← literalText? rest
      set rest
      return .ofList content
  | characters => do
      let content := characters.takeWhile isBareKey
      guard (!content.isEmpty)
      set (characters.dropWhile isBareKey)
      return .ofList content

def names : (limit : Nat) → Scanner (List String)
  | 0 => failure
  | limit + 1 => do
      let first ← name
      skipBlanks
      if ← sees '.' then
        expect '.'
        skipBlanks
        return first :: (← names limit)
      else return [first]

/-- How deep arrays and inline tables may be nested, and how many names a key may
have. -/
def maxNesting : Nat := 80

def key : Scanner (List String × String) := do
  let names ← names (← get).length
  guard (names.length ≤ maxNesting)
  return (names.dropLast, names.getLastD "")

/-! ## Values -/

/-- A character that ends a value without quotes and brackets. -/
def isDelimiter (character : Char) : Bool :=
  [' ', '\t', '\n', '\r', ',', '=', '#', '[', ']', '\x7b', '\x7d', '"', '\''].contains
    character

/-- The characters of a value without quotes and brackets. A date goes on behind
one space if a digit follows there. -/
def unquoted : Scanner (List Char) := do
  let characters ← get
  let written := characters.takeWhile (!isDelimiter ·)
  let rest := characters.dropWhile (!isDelimiter ·)
  match afterDate? written, rest with
  | some [], ' ' :: digit :: more =>
      if digit.isDigit then
        set ((digit :: more).dropWhile (!isDelimiter ·))
        return written ++ ' ' :: (digit :: more).takeWhile (!isDelimiter ·)
      else
        set rest
        return written
  | _, _ => do
      set rest
      return written

def text : Scanner String := do
  let (content, rest) ←
    match ← get with
    | '"' :: '"' :: '"' :: rest => basicLines? false (dropLineBreak rest)
    | '"' :: rest => basicText? rest
    | '\'' :: '\'' :: '\'' :: rest => literalLines? (dropLineBreak rest)
    | '\'' :: rest => literalText? rest
    | _ => failure
  set rest
  return .ofList content

mutual

def value (depth : Nat) : (limit : Nat) → Scanner Toml
  | 0 => failure
  | limit + 1 => do
      match (← get).head? with
      | some '[' => do
          guard (depth < maxNesting)
          expect '['
          return .array (← elements (depth + 1) limit)
      | some '\x7b' => do
          guard (depth < maxNesting)
          expect '\x7b'
          return .table .inline (← entries (depth + 1) [] limit)
      | some '"' | some '\'' => return .text (← text)
      | _ => do
          let written ← unquoted
          scalar? written

def elements (depth : Nat) : (limit : Nat) → Scanner (List Toml)
  | 0 => failure
  | limit + 1 => do
      skipTrivia
      if ← sees ']' then
        expect ']'
        return []
      let element ← value depth limit
      skipTrivia
      if ← sees ',' then
        expect ','
        return element :: (← elements depth limit)
      expect ']'
      return [element]

/-- The entries of an inline table up to its closing brace, added to those before
them. A comma may follow the last, and line breaks and comments may stand wherever
blanks may, other than within a key. -/
def entries (depth : Nat) (before : Entries) : (limit : Nat) → Scanner Entries
  | 0 => failure
  | limit + 1 => do
      skipTrivia
      if ← sees '\x7d' then
        expect '\x7d'
        return before
      let (path, name) ← key
      skipTrivia
      expect '='
      skipTrivia
      let value ← value depth limit
      let after ← Entries.addValue value before path name
      skipTrivia
      if ← sees ',' then
        expect ','
        entries depth after limit
      else
        expect '\x7d'
        return after

end

/-! ## Statements -/

/-- What a line of a document says, with the line breaks that its value holds. -/
inductive Statement
  | define (path : List String) (name : String)
  | append (path : List String) (name : String)
  | entry (path : List String) (name : String) (value : Toml)

def header : Scanner Statement := do
  expect '['
  let double ← sees '['
  if double then expect '['
  skipBlanks
  let (path, name) ← key
  expect ']'
  if double then
    expect ']'
    return .append path name
  else return .define path name

def entry : Scanner Statement := do
  let (path, name) ← key
  expect '='
  skipBlanks
  let value ← value 0 (← get).length
  return .entry path name value

def endsStatement (characters : List Char) : Bool :=
  match characters.dropWhile isBlank with
  | [] | '\n' :: _ | '\r' :: '\n' :: _ | '#' :: _ => true
  | _ => false

def statements : (limit : Nat) → Scanner (List Statement)
  | 0 => failure
  | limit + 1 => do
      skipTrivia
      if (← get).isEmpty then return []
      let first ← if ← sees '[' then header else entry
      guard (endsStatement (← get))
      return first :: (← statements limit)

end Scanner

end Hinting.Toml
