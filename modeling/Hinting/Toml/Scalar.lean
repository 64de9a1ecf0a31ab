import Hinting.Digits
import Hinting.Toml.Basic

/-!
TOML values that are written without quotes and brackets: booleans, integers,
floats, dates and times.
-/

namespace Hinting.Toml

/-! ## Digit groups -/

/-- Digits in groups that single underscores separate. The result has the digits
alone. -/
def grouped? (isDigit : Char → Bool) : List Char → Option (List Char)
  | [] => none
  | digit :: rest =>
      if isDigit digit then
        match rest with
        | [] => some [digit]
        | '_' :: rest => (grouped? isDigit rest).map (digit :: ·)
        | rest => (grouped? isDigit rest).map (digit :: ·)
      else none

example : grouped? Char.isDigit "1_000".toList = some "1000".toList := by decide

def whole? (written : List Char) : Option (List Char) := do
  let digits ← grouped? Char.isDigit written
  guard (digits.length = 1 ∨ digits.head? ≠ some '0')
  return digits

/-- Take off a sign. The first component says whether it is a minus. -/
def signed : List Char → Bool × List Char
  | '+' :: rest => (false, rest)
  | '-' :: rest => (true, rest)
  | rest => (false, rest)

/-! ## Integers -/

def inRadix? (radix : Nat) (written : List Char) : Option Nat := do
  number? radix (← grouped? (fun digit => (digit? radix digit).isSome) written)

/-- Integers are signed decimal numbers or unsigned numbers with a radix. They
take up to 128 bits, signed or unsigned. -/
def integer? : List Char → Option Int
  | '0' :: 'x' :: digits => bounded? (inRadix? 16 digits)
  | '0' :: 'o' :: digits => bounded? (inRadix? 8 digits)
  | '0' :: 'b' :: digits => bounded? (inRadix? 2 digits)
  | written =>
      let (negative, magnitude) := signed written
      let number := (whole? magnitude).map fun digits => Nat.ofDigitChars 10 digits 0
      if negative then (number.filter (· ≤ Nat.pow 2 127)).map fun number => -(number : Int)
      else bounded? number
where
  bounded? (number : Option Nat) : Option Int :=
    (number.filter (· < Nat.pow 2 128)).map fun number => (number : Int)

example : integer? "0x1F".toList = some 31 := by decide
example : integer? "007".toList = none := by decide

/-! ## Floats -/

/-- The number `coefficient * 10 ^ exponent` rounds to a finite double: it is
below the midpoint between the largest one and the next power of two. -/
def isFinite (coefficient : Nat) (exponent : Int) : Bool :=
  let digits : Int := (Nat.toDigits 10 coefficient).length
  if coefficient = 0 || digits + exponent < 300 then true
  else if 310 < digits + exponent then false
  else
    let bound := Nat.pow 2 1024 - Nat.pow 2 970
    match exponent with
    | .ofNat power => coefficient * Nat.pow 10 power < bound
    | .negSucc places => coefficient < bound * Nat.pow 10 (places + 1)

def exponent? : List Char → Option Int
  | [] => some 0
  | mark :: rest => do
      guard (mark = 'e' ∨ mark = 'E')
      let (negative, digits) := signed rest
      let number := Nat.ofDigitChars 10 (← grouped? Char.isDigit digits) 0
      return if negative then -number else number

def isDigitOrGroup (character : Char) : Bool :=
  character.isDigit || character = '_'

/-- A decimal number with a fraction, an exponent or both that a finite double is
near to, or one of the two special floats. -/
def isFloat (written : List Char) : Bool :=
  let magnitude := (signed written).2
  if magnitude = ['i', 'n', 'f'] || magnitude = ['n', 'a', 'n'] then true
  else
    match whole? (magnitude.takeWhile isDigitOrGroup),
        magnitude.dropWhile isDigitOrGroup with
    | some whole, '.' :: rest =>
        match grouped? Char.isDigit (rest.takeWhile isDigitOrGroup),
            exponent? (rest.dropWhile isDigitOrGroup) with
        | some fraction, some exponent =>
            isFinite (Nat.ofDigitChars 10 (whole ++ fraction) 0)
              (exponent - fraction.length)
        | _, _ => false
    | some whole, mark :: rest =>
        match exponent? (mark :: rest) with
        | some exponent => isFinite (Nat.ofDigitChars 10 whole 0) exponent
        | none => false
    | _, _ => false

example : isFloat "6.02e+23".toList = true := by decide +kernel
example : isFloat "1e999".toList = false := by decide +kernel

/-! ## Dates and times -/

def fixedNumber? (count : Nat) (written : List Char) : Option (Nat × List Char) := do
  let digits := written.take count
  guard (digits.length = count ∧ digits.all Char.isDigit)
  return (Nat.ofDigitChars 10 digits 0, written.drop count)

def daysInMonth (year month : Nat) : Nat :=
  if month = 2 then
    if year % 4 = 0 ∧ (year % 100 ≠ 0 ∨ year % 400 = 0) then 29 else 28
  else if month = 4 ∨ month = 6 ∨ month = 9 ∨ month = 11 then 30
  else 31

def afterDate? (written : List Char) : Option (List Char) := do
  let (year, '-' :: rest) ← fixedNumber? 4 written | none
  let (month, '-' :: rest) ← fixedNumber? 2 rest | none
  let (day, rest) ← fixedNumber? 2 rest
  guard (1 ≤ month ∧ month ≤ 12 ∧ 1 ≤ day ∧ day ≤ daysInMonth year month)
  return rest

def afterMinute? (written : List Char) : Option (List Char) := do
  let (hour, ':' :: rest) ← fixedNumber? 2 written | none
  let (minute, rest) ← fixedNumber? 2 rest
  guard (hour ≤ 23 ∧ minute ≤ 59)
  return rest

/-- What follows a time. Seconds and their fraction may be missing, and a second
may be a leap second. -/
def afterTime? (written : List Char) : Option (List Char) := do
  let rest ← afterMinute? written
  match rest with
  | ':' :: rest => do
      let (second, rest) ← fixedNumber? 2 rest
      guard (second ≤ 60)
      match rest with
      | '.' :: rest => do
          guard (!(rest.takeWhile Char.isDigit).isEmpty)
          return rest.dropWhile Char.isDigit
      | rest => return rest
  | rest => return rest

def isOffset : List Char → Bool
  | [] | ['Z'] | ['z'] => true
  | sign :: rest => (sign = '+' || sign = '-') && afterMinute? rest = some []

def isMoment (written : List Char) : Bool :=
  match afterDate? written with
  | some [] => true
  | some (separator :: rest) =>
      (separator = 'T' || separator = 't' || separator = ' ') &&
        (afterTime? rest).any isOffset
  | none => afterTime? written = some []

example : isMoment "1979-05-27T07:32:00-07:00".toList = true := by decide +kernel
example : isMoment "2023-02-29".toList = false := by decide +kernel

/-! ## All of them -/

def scalar? (written : List Char) : Option Toml :=
  if written = "true".toList then some (bool true)
  else if written = "false".toList then some (bool false)
  else
    match integer? written with
    | some number => some (integer number)
    | none =>
        if isFloat written then some (float (.ofList written))
        else if isMoment written then some (moment (.ofList written))
        else none

end Hinting.Toml
