/-!
Digits of number systems up to the hexadecimal one.
-/

namespace Hinting

def hexDigit? (character : Char) : Option Nat :=
  if character.isDigit then some (character.toNat - '0'.toNat)
  else if 'a' ≤ character ∧ character ≤ 'f' then some (character.toNat - 'a'.toNat + 10)
  else if 'A' ≤ character ∧ character ≤ 'F' then some (character.toNat - 'A'.toNat + 10)
  else none

def digit? (radix : Nat) (character : Char) : Option Nat :=
  (hexDigit? character).filter (· < radix)

/-- The number that digits below `radix` stand for. No digits stand for zero. -/
def number? (radix : Nat) (digits : List Char) : Option Nat :=
  digits.foldlM (fun value digit => do return radix * value + (← digit? radix digit)) 0

example : number? 16 ['0', 'f', 'F'] = some 255 := by decide
example : number? 8 ['1', '8'] = none := by decide

end Hinting
