import Hinting.Digits
import Hinting.Json.Basic

/-!
The tokens of JSON text.

Blanks separate tokens and mean nothing else. A number token takes every
character that could belong to a number and must then be one.
-/

namespace Hinting.Json

inductive Token
  | beginArray
  | endArray
  | beginObject
  | endObject
  | comma
  | colon
  | null
  | bool (truth : Bool)
  | integer (number : Int)
  | real (written : String)
  | text (content : Option String)
deriving DecidableEq

namespace Token

def isBlank (character : Char) : Bool :=
  character = ' ' || character = '\t' || character = '\n' || character = '\r'

/-! ## Numbers -/

/-- Digits without a superfluous leading zero. -/
def isWhole : List Char → Bool
  | [] => false
  | ['0'] => true
  | digits => digits.head? != some '0' && digits.all Char.isDigit

def isExponent : List Char → Bool
  | [] => true
  | mark :: rest =>
      (mark = 'e' || mark = 'E') &&
        let digits :=
          match rest with
          | '+' :: digits | '-' :: digits => digits
          | digits => digits
        !digits.isEmpty && digits.all Char.isDigit

def isFractionAndExponent : List Char → Bool
  | '.' :: rest =>
      !(rest.takeWhile Char.isDigit).isEmpty && isExponent (rest.dropWhile Char.isDigit)
  | rest => isExponent rest

def isNumberCharacter (character : Char) : Bool :=
  character.isDigit || character = '-' || character = '+' || character = '.' ||
    character = 'e' || character = 'E'

def ofNumber? (written : List Char) : Option Token :=
  let (negative, magnitude) :=
    match written with
    | '-' :: magnitude => (true, magnitude)
    | magnitude => (false, magnitude)
  let whole := magnitude.takeWhile Char.isDigit
  let more := magnitude.dropWhile Char.isDigit
  if isWhole whole && isFractionAndExponent more then
    let value := Nat.ofDigitChars 10 whole 0
    if more.isEmpty && !(negative && value = 0) then
      some (integer (if negative then -value else value))
    else some (real (.ofList written))
  else none

example : ofNumber? "-17".toList = some (integer (-17)) := by decide
example : ofNumber? "-0".toList = some (real "-0") := by decide

/-! ## Texts -/

/-- A part of a text: a character, or a code unit that was written as one. -/
inductive Piece
  | character (character : Char)
  | unit (unit : Nat)

def escaped? : Char → Option Char
  | '"' => some '"'
  | '\\' => some '\\'
  | '/' => some '/'
  | 'b' => some '\x08'
  | 'f' => some '\x0c'
  | 'n' => some '\n'
  | 'r' => some '\r'
  | 't' => some '\t'
  | _ => none

def pieces? : List Char → Option (List Piece × List Char)
  | [] => none
  | '"' :: rest => some ([], rest)
  | '\\' :: 'u' :: first :: second :: third :: fourth :: rest => do
      let unit ← number? 16 [first, second, third, fourth]
      let (pieces, rest) ← pieces? rest
      return (.unit unit :: pieces, rest)
  | '\\' :: mark :: rest => do
      let character ← escaped? mark
      let (pieces, rest) ← pieces? rest
      return (.character character :: pieces, rest)
  | character :: rest => do
      if character = '\\' || character.toNat < 0x20 then none
      else
        let (pieces, rest) ← pieces? rest
        return (.character character :: pieces, rest)

def isHighSurrogate (unit : Nat) : Bool := 0xD800 ≤ unit && unit < 0xDC00
def isLowSurrogate (unit : Nat) : Bool := 0xDC00 ≤ unit && unit < 0xE000

/-- The characters of a text. A surrogate must be half of a pair that is written
side by side. -/
def characters? : List Piece → Option (List Char)
  | [] => some []
  | .character character :: rest => (characters? rest).map (character :: ·)
  | .unit high :: .unit low :: rest =>
      if isHighSurrogate high then
        if isLowSurrogate low then
          (characters? rest).map
            (.ofNat (0x10000 + (high - 0xD800) * 1024 + (low - 0xDC00)) :: ·)
        else none
      else if isLowSurrogate high then none
      else (characters? (.unit low :: rest)).map (.ofNat high :: ·)
  | .unit unit :: rest =>
      if isHighSurrogate unit || isLowSurrogate unit then none
      else (characters? rest).map (.ofNat unit :: ·)

/-! ## Token sequences -/

def first? : List Char → Option (Token × List Char)
  | '[' :: rest => some (beginArray, rest)
  | ']' :: rest => some (endArray, rest)
  | '\x7b' :: rest => some (beginObject, rest)
  | '\x7d' :: rest => some (endObject, rest)
  | ',' :: rest => some (comma, rest)
  | ':' :: rest => some (colon, rest)
  | '"' :: rest => do
      let (pieces, rest) ← pieces? rest
      return (text ((characters? pieces).map .ofList), rest)
  | 'n' :: 'u' :: 'l' :: 'l' :: rest => some (null, rest)
  | 't' :: 'r' :: 'u' :: 'e' :: rest => some (bool true, rest)
  | 'f' :: 'a' :: 'l' :: 's' :: 'e' :: rest => some (bool false, rest)
  | characters => do
      let token ← ofNumber? (characters.takeWhile isNumberCharacter)
      return (token, characters.dropWhile isNumberCharacter)

def sequence? : (limit : Nat) → List Char → Option (List Token)
  | _, [] => some []
  | 0, _ => none
  | limit + 1, character :: rest =>
      if isBlank character then sequence? limit rest
      else do
        let (token, rest) ← first? (character :: rest)
        return token :: (← sequence? limit rest)

/-- The tokens of a text. Every token takes at least one character. -/
def ofText? (content : String) : Option (List Token) :=
  sequence? content.toList.length content.toList

example : ofText? " [1, \"a\\u00e9\"] " =
    some [beginArray, integer 1, comma, text (some "aé"), endArray] := by decide +kernel

end Token

end Hinting.Json
